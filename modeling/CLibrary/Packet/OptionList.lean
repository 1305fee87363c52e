import CLibrary.Packet.OptionArea
import CLibrary.Packet.Yields

/-!
Lists of TCP options, and what `decode_tcp_options` makes of their encoding.

* `KnownOption`, `UnknownOption`: options with a length that is legal for their
  kind, and their bytes.
* `optionAt_encode`: a known option is recorded as it is; `optJump_unknown`: at an
  unknown one the loop returns.
* `storedOptions_known`: the rounds over a list of known options.
* `decode_options_encode`: decoding the encoding of known options gives them back.
* `EndsAt`, `LegalArea`: areas of legal options, up to the end or a kind that ends the
  loop.  `recorded_inside_iff`: on these the recorded options lie in the area.
* `unknown_skipped_iff`: an unknown option makes no difference exactly if it is the
  last; `behind_user_timeout` has one in front.
-/

namespace CLibrary

open Decode

/-! ### Options and their bytes -/

/-- The bytes of an option: kinds below 2 are one byte, the others have a length
byte. -/
def encodeOption (kind : ℕ) (value : List UInt8) : List UInt8 :=
  if kind < 2 then [UInt8.ofNat kind]
  else UInt8.ofNat kind :: UInt8.ofNat (value.length + 2) :: value

/-- An option of a kind in `tcpopt_len_tbl`, with a value as long as the table
says. -/
structure KnownOption where
  kind : ℕ
  value : List UInt8
  legal : kind < 2 ∧ value = [] ∨ kind = tcpoptSack ∧ value.length + 2 < 256 ∨
    kind < tcpoptMax ∧ ((value.length + 2 : ℕ) : ℤ) = tcpoptLenTbl.getD kind 0

/-- An option of another kind. -/
structure UnknownOption where
  kind : ℕ
  value : List UInt8
  unknown : tcpoptMax ≤ kind ∧ kind < 256
  short : value.length + 2 < 256

/-- The bytes of a known option. -/
def KnownOption.encode (o : KnownOption) : List UInt8 := encodeOption o.kind o.value

/-- The bytes of an unknown option. -/
def UnknownOption.encode (u : UnknownOption) : List UInt8 := encodeOption u.kind u.value

/-- The bytes of known options, one after the other. -/
def encodeOptions (l : List KnownOption) : List UInt8 := l.flatMap KnownOption.encode

/-- How many bytes a known option has. -/
def KnownOption.size (o : KnownOption) : ℕ := o.encode.length

/-- What is recorded of a known option at `addr`. -/
def KnownOption.placed (o : KnownOption) (addr : ℤ) : TcpOption :=
  ⟨o.kind, o.value.length, if o.value = [] then none else some (addr + 2)⟩

/-- The bytes from `a` on. -/
def Memory.Holds (mem : Memory) (a : ℤ) (bytes : List UInt8) : Prop :=
  ∀ i (h : i < bytes.length), mem (a + i) = bytes[i]

instance (mem : Memory) (a : ℤ) (bytes : List UInt8) : Decidable (mem.Holds a bytes) :=
  inferInstanceAs (Decidable (∀ i (h : i < bytes.length), mem (a + i) = bytes[i]))

section Encoding

variable {mem : Memory} {a : ℤ} {l l' : List UInt8} {o : KnownOption} {u : UnknownOption} {len : ℕ}

lemma holds_cons {b : UInt8} : mem.Holds a (b :: l) ↔ mem a = b ∧ mem.Holds (a + 1) l := by
  constructor
  · intro h
    have hzero := h 0 (Nat.zero_lt_succ l.length)
    rw [Nat.cast_zero, add_zero] at hzero
    refine ⟨hzero, fun i hi => ?_⟩
    have hsucc := h (i + 1) (by simpa using hi)
    rw [List.getElem_cons_succ] at hsucc
    rw [← hsucc]
    congr 1
    push_cast
    ring
  · rintro ⟨hb, hl⟩ i hi
    cases i with
    | zero => rwa [Nat.cast_zero, add_zero]
    | succ i =>
        rw [List.getElem_cons_succ, ← hl i (by simpa using hi)]
        congr 1
        push_cast
        ring

lemma holds_append : mem.Holds a (l ++ l') ↔ mem.Holds a l ∧ mem.Holds (a + l.length) l' := by
  induction l generalizing a with
  | nil =>
      rw [List.nil_append, List.length_nil, Nat.cast_zero, add_zero]
      exact ⟨fun h => ⟨fun i hi => absurd hi (Nat.not_lt_zero i), h⟩, And.right⟩
  | cons b l ih =>
      rw [List.cons_append, holds_cons, holds_cons, ih, and_assoc, List.length_cons, Nat.cast_succ,
        add_assoc, add_comm (1 : ℤ)]

/-- A known option has a kind below `TCPOPT_MAX`. -/
lemma KnownOption.kind_lt (o : KnownOption) : o.kind < tcpoptMax := by
  rcases o.legal with ⟨h, -⟩ | ⟨h, -⟩ | ⟨h, -⟩
  · exact h.trans (by decide)
  · rw [h]
    decide
  · exact h

/-- The value of a known option is short enough for a length byte. -/
lemma KnownOption.value_lt (o : KnownOption) : o.value.length + 2 < 256 := by
  have htbl : ∀ kind < tcpoptMax, tcpoptLenTbl.getD kind 0 < 256 := by decide
  rcases o.legal with ⟨-, h⟩ | ⟨-, h⟩ | ⟨hk, h⟩
  · rw [h]
    decide
  · exact h
  · have := htbl o.kind hk
    omega

/-- An option with a length byte. -/
lemma encodeOption_of_ge {kind : ℕ} {value : List UInt8} (h : 2 ≤ kind) :
    encodeOption kind value = UInt8.ofNat kind :: UInt8.ofNat (value.length + 2) :: value :=
  if_neg (Nat.not_lt.mpr h)

/-- The bytes of an option in memory. -/
lemma byte_of_holds {kind : ℕ} {value : List UInt8} (h : mem.Holds a (encodeOption kind value))
    (hkind : kind < 256) (hvalue : value.length + 2 < 256) : mem.byte a = kind ∧
      (2 ≤ kind → mem.byte (a + 1) = value.length + 2 ∧ mem.Holds (a + 2) value) := by
  by_cases hk : kind < 2
  · rw [encodeOption, if_pos hk, holds_cons] at h
    exact ⟨by rw [Memory.byte, h.1, UInt8.toNat_ofNat_of_lt' hkind], fun hge => by omega⟩
  · rw [encodeOption_of_ge (Nat.not_lt.mp hk), holds_cons, holds_cons, add_assoc] at h
    exact ⟨by rw [Memory.byte, h.1, UInt8.toNat_ofNat_of_lt' hkind],
      fun _ => ⟨by rw [Memory.byte, h.2.1, UInt8.toNat_ofNat_of_lt' hvalue], h.2.2⟩⟩

/-- **A known option** is moved over and recorded as it is. -/
lemma optionAt_encode (h : mem.Holds a o.encode) :
    optJump mem len a = some o.size ∧ optionAt mem len a = some (o.placed a) := by
  have hmax := o.kind_lt
  have hvalue := o.value_lt
  obtain ⟨hkind, hbytes⟩ := byte_of_holds h (hmax.trans (by decide)) hvalue
  have hkind' : mem.byte a < tcpoptMax := hkind.symm ▸ hmax
  rcases o.legal with ⟨hk, hnil⟩ | hlegal
  · -- one byte
    have htbl : tcpoptLenTbl.getD o.kind 0 = 0 := by
      rcases tcpoptLenTbl_cases o.kind hmax with ⟨-, h⟩ | ⟨h, -⟩ | ⟨h, -⟩
      · exact h
      · rw [h] at hk
        exact absurd hk (by decide)
      · omega
    have hjump : optJump mem len a = some 1 := optJump_single hkind' (hkind.symm ▸ htbl)
    have hsize : o.size = 1 := by
      rw [KnownOption.size, KnownOption.encode, encodeOption, if_pos hk]
      rfl
    refine ⟨hsize ▸ hjump, ?_⟩
    rw [optionAt, if_pos hkind', hjump, Option.map_some, hkind, optLen, if_pos htbl,
      KnownOption.placed, hnil]
    rfl
  · -- the kind, the length byte and the value
    have hk : 2 ≤ o.kind ∧ tcpoptLenTbl.getD o.kind 0 ≠ 0 ∧
        optJump mem len a = some (mem.byte (a + 1)) := by
      rcases tcpoptLenTbl_cases o.kind hmax with ⟨hk, htbl⟩ | ⟨hk, htbl⟩ | ⟨hk, hne, htbl⟩
      · rcases hlegal with ⟨h, -⟩ | ⟨-, h⟩
        · rw [h] at hk
          exact absurd hk (by decide)
        · omega
      · exact ⟨hk ▸ by decide, by omega, optJump_variable hkind' (hkind.symm ▸ htbl)⟩
      · refine ⟨hk, by omega, ?_⟩
        rw [optJump_fixed hkind' (hkind.symm ▸ htbl), hkind, if_pos ?_]
        rcases hlegal with ⟨h, -⟩ | ⟨-, h⟩
        · exact absurd h hne
        · rw [(hbytes hk).1, ← h, Nat.cast_add, Nat.cast_ofNat]
    obtain ⟨hge, htbl, hjump⟩ := hk
    rw [(hbytes hge).1] at hjump
    have hsize : o.size = o.value.length + 2 := by
      rw [KnownOption.size, KnownOption.encode, encodeOption_of_ge hge]
      rfl
    have hlen : optLen o.kind (o.value.length + 2) = o.value.length := by
      rw [optLen, if_neg htbl, usub_of_le (Nat.le_add_left 2 _) hvalue, Nat.add_sub_cancel]
    refine ⟨hsize ▸ hjump, ?_⟩
    rw [optionAt, if_pos hkind', hjump, Option.map_some, hkind, hlen, KnownOption.placed]
    by_cases hnil : o.value = []
    · rw [if_pos hnil, hnil, List.length_nil, if_neg (not_not.mpr rfl)]
    · rw [if_neg hnil, if_pos fun h => hnil (List.length_eq_zero_iff.mp h)]

/-- **At an unknown option** that lies in the area the loop returns. -/
lemma optJump_unknown (h : mem.Holds a u.encode) (hlen : u.value.length + 2 ≤ len) :
    optJump mem len a = none ∧ optionAt mem len a = none := by
  obtain ⟨hmax, hlt⟩ := u.unknown
  obtain ⟨hkind, hbytes⟩ := byte_of_holds h hlt u.short
  have hge : mem.byte a ≥ tcpoptMax := hkind.symm ▸ hmax
  constructor
  · rw [optJump, if_pos hge, (hbytes (le_trans (by decide) hmax)).1, if_neg (Nat.not_lt.mpr hlen)]
  · rw [optionAt, if_neg (Nat.not_lt.mpr hge)]

/-- A known option has bytes. -/
lemma KnownOption.size_pos (o : KnownOption) : 0 < o.size := by
  rw [KnownOption.size, KnownOption.encode, encodeOption]
  split_ifs <;> exact Nat.zero_lt_succ _

lemma length_encodeOptions (items : List KnownOption) :
    (encodeOptions items).length = (items.map KnownOption.size).sum := List.length_flatMap

/-- Every option is where the ones in front of it end. -/
lemma holds_offsets {start : ℤ} {items : List KnownOption} {pos : ℕ}
    (h : mem.Holds (start + pos) (encodeOptions items)) :
    ∀ e ∈ offsets KnownOption.size pos items, mem.Holds (start + e.1) e.2.encode := by
  induction items generalizing pos with
  | nil => exact fun e he => (List.not_mem_nil he).elim
  | cons o items ih =>
      rw [encodeOptions, List.flatMap_cons, holds_append, add_assoc, ← Nat.cast_add] at h
      intro e he
      rcases List.mem_cons.mp he with rfl | he
      · exact h.1
      · exact ih h.2 e he

end Encoding

/-! ### What is to be seen of an option -/

/-- What is to be seen of an option to be encoded. -/
def KnownOption.seen (o : KnownOption) : ℕ × ℕ × List UInt8 := (o.kind, o.value.length, o.value)

section Decoding

variable {f : Frame} {mem : Memory} {start : ℤ} {len n : ℕ} {s : Decoding}
  {items before after : List KnownOption}

/-- The bytes of a recorded option are its own. -/
lemma seen_placed {o : KnownOption} {a : ℤ} (h : mem.Holds a o.encode) :
    (o.placed a).seen mem = o.seen := by
  rw [TcpOption.seen, KnownOption.placed, KnownOption.seen]
  by_cases hnil : o.value = []
  · rw [if_pos hnil, hnil]
    rfl
  · have hk : 2 ≤ o.kind := by
      rcases o.legal with ⟨-, h⟩ | ⟨h, -⟩ | ⟨hmax, h⟩
      · exact absurd h hnil
      · rw [h]
        decide
      · rcases tcpoptLenTbl_cases o.kind hmax with ⟨-, htbl⟩ | ⟨-, htbl⟩ | ⟨hk, -⟩
        · omega
        · omega
        · exact hk
    have hvalue := ((byte_of_holds h (o.kind_lt.trans (by decide)) o.value_lt).2 hk).2
    rw [if_neg hnil, Option.elim_some]
    congr 2
    refine List.ext_getElem (by simp) fun i hi hi' => ?_
    rw [List.getElem_map, List.getElem_range]
    exact hvalue i hi'

/-- What the loop does at every one of the options of a list. -/
lemma known_at (hmem : f.mem.Holds start (encodeOptions items))
    (hle : (encodeOptions items).length ≤ len) :
    ∀ e ∈ offsets KnownOption.size 0 items, e.1 < len ∧
      optNext f.mem start len e.1 = some (e.1 + e.2.size) ∧
      optionAt f.mem len (start + e.1) = some (e.2.placed (start + e.1)) := by
  rw [← add_zero start, ← Nat.cast_zero (R := ℤ)] at hmem
  intro e he
  have hend := offsets_le he
  have hpos := e.2.size_pos
  have hlt : e.1 < len := by
    rw [length_encodeOptions] at hle
    omega
  obtain ⟨hjump, hopt⟩ : optJump f.mem len _ = _ ∧ _ := optionAt_encode (holds_offsets hmem e he)
  exact ⟨hlt, by rw [optNext, if_pos hlt, hjump, Option.map_some], hopt⟩

/-- **The rounds over known options** record them, each at its place, and go on
behind them. -/
lemma storedOptions_known (hlen : len ≤ maxTcpoptlen)
    (hmem : f.mem.Holds start (encodeOptions items)) (hle : (encodeOptions items).length ≤ len)
    (n : ℕ) :
    storedOptions f start s len (items.length + n) =
      (offsets KnownOption.size 0 items).map
          (fun e => (start + (e.1 : ℤ), e.2.placed (start + e.1))) ++
        (chain (optNext f.mem start len) n (encodeOptions items).length).filterMap fun pos =>
          if pos < len then (optionAt f.mem len (start + pos)).map fun o => (start + (pos : ℤ), o)
          else none := by
  have hat := known_at hmem hle
  rw [storedOptions_eq hlen, chain_offsets fun e he => (hat e he).2.1, List.filterMap_append,
    List.filterMap_map, ← length_encodeOptions, Nat.zero_add]
  congr 1
  refine List.filterMap_eq_map_iff_forall_eq_some.mpr fun e he => ?_
  rw [Function.comp_apply, if_pos (hat e he).1, (hat e he).2.2, Option.map_some]

/-- The loop returns where it does so behind known options. -/
lemma returns_known (hlen : len ≤ maxTcpoptlen) (hmem : f.mem.Holds start (encodeOptions items))
    (hle : (encodeOptions items).length ≤ len)
    (hnext : optNext f.mem start len (encodeOptions items).length = none) (hn : items.length < n) :
    (decodeTcpOptions n start len f s).1 = some () := by
  have hstop : Stops (optNext f.mem start len) 1 (0 + (items.map KnownOption.size).sum) := by
    intro b hb
    rw [Nat.zero_add, ← length_encodeOptions, hnext] at hb
    cases hb
  have hret := (decodeTcpOptions_returns_iff (s := s) hlen n).mpr
    ((stops_offsets (fun e he => (known_at hmem hle e he).2.1) hstop).mono hn)
  obtain ⟨⟨⟩, hsome⟩ := Option.ne_none_iff_exists'.mp hret
  exact hsome

/-- What is seen of the options at their places is what they are. -/
lemma seen_offsets (hmem : mem.Holds start (encodeOptions items)) :
    (offsets KnownOption.size 0 items).map (fun e => (e.2.placed (start + e.1)).seen mem) =
      items.map KnownOption.seen := by
  rw [← add_zero start, ← Nat.cast_zero (R := ℤ)] at hmem
  calc (offsets KnownOption.size 0 items).map (fun e => (e.2.placed (start + e.1)).seen mem)
      = (offsets KnownOption.size 0 items).map (fun e => e.2.seen) :=
        List.map_congr_left fun e he => seen_placed (holds_offsets hmem e he)
    _ = ((offsets KnownOption.size 0 items).map Prod.snd).map KnownOption.seen := by
        rw [List.map_map]
        rfl
    _ = items.map KnownOption.seen := by rw [map_snd_offsets]

/-- Known options, and behind them a position at which the loop ends: these are the
options stored. -/
lemma storedOptions_last (hlen : len ≤ maxTcpoptlen)
    (hmem : f.mem.Holds start (encodeOptions items)) (hle : (encodeOptions items).length ≤ len)
    (hnext : optNext f.mem start len (encodeOptions items).length = none)
    (hlast : (encodeOptions items).length < len →
      optionAt f.mem len (start + (encodeOptions items).length) = none) (hn : items.length < n) :
    storedOptions f start s len n =
      (offsets KnownOption.size 0 items).map fun e =>
        (start + (e.1 : ℤ), e.2.placed (start + e.1)) := by
  obtain ⟨k, rfl⟩ : ∃ k, n = items.length + (k + 1) := ⟨n - items.length - 1, by omega⟩
  rw [storedOptions_known hlen hmem hle, chain_succ_none hnext, List.filterMap_cons_none,
    List.filterMap_nil, List.append_nil]
  split_ifs with hlt
  · rw [hlast hlt, Option.map_none]
  · rfl

end Decoding

/-! ### Round trip -/

/-- **Decoding inverts encoding**: `decode_tcp_options`, on the encoding of any
list of known options, records these options, each with its value where it is. -/
theorem decode_options_encode (f : Frame) (start : ℤ) (s : Decoding) (items : List KnownOption)
    (hlen : (encodeOptions items).length ≤ maxTcpoptlen)
    (hmem : f.mem.Holds start (encodeOptions items)) (hcount : s.packet.tcpoptCount = 0) {n : ℕ}
    (hn : items.length < n) :
    let out := decodeTcpOptions n start (encodeOptions items).length f s
    out.1 = some () ∧
      out.2.packet.tcpOptions =
        (offsets KnownOption.size 0 items).map (fun e => e.2.placed (start + e.1)) ∧
      out.2.packet.tcpOptions.map (TcpOption.seen f.mem) = items.map KnownOption.seen := by
  have hnext : optNext f.mem start (encodeOptions items).length (encodeOptions items).length =
      none := if_neg (lt_irrefl _)
  have hstored := storedOptions_last (s := s) hlen hmem le_rfl hnext
    (fun h => absurd h (lt_irrefl _)) hn
  have hlist : (offsets KnownOption.size 0 items).length = items.length := by
    rw [← List.length_map Prod.snd, map_snd_offsets]
  have hsize : items.length ≤ (encodeOptions items).length := by
    rw [length_encodeOptions, ← List.length_map KnownOption.size]
    refine List.length_le_sum_of_one_le _ fun k hk => ?_
    obtain ⟨o, -, rfl⟩ := List.mem_map.mp hk
    exact o.size_pos
  have hpacket : (decodeTcpOptions n start (encodeOptions items).length f s).2.packet.tcpOptions =
      (offsets KnownOption.size 0 items).map (fun e => e.2.placed (start + e.1)) := by
    rw [decodeTcpOptions_packet hlen, hstored, List.map_map, tcpOptions_addOptions]
    · rw [Packet.tcpOptions, hcount, List.range_zero, List.map_nil, List.nil_append]
      rfl
    · rw [List.length_map, hlist, hcount]
      have : maxTcpoptlen < 2 ^ 32 := by decide
      omega
  refine ⟨returns_known hlen hmem le_rfl hnext hn, hpacket, ?_⟩
  rw [hpacket, List.map_map]
  exact seen_offsets hmem

/-- `NOP`. -/
def nop : KnownOption := ⟨1, [], by decide⟩

/-- A window scale. -/
def windowScale : KnownOption := ⟨3, [7], by decide⟩

/-- A variable length whose value looks like other kinds. -/
def sackOfKinds : KnownOption := ⟨tcpoptSack, [2, 4, 0], by decide⟩

/-- Three options and back. -/
theorem decode_window_scale :
    let f : Frame := ⟨Memory.ofList [1, 5, 5, 2, 4, 0, 3, 3, 7], ⟨.tcp, 0, 9⟩⟩
    let items := [nop, sackOfKinds, windowScale]
    (decodeTcpOptions 4 0 (encodeOptions items).length f
        (.start default default)).2.packet.tcpOptions.map (TcpOption.seen f.mem) =
      items.map KnownOption.seen := by
  intro f items
  exact (decode_options_encode f 0 (.start default default) items (by decide)
    (by decide +kernel) rfl (n := 4) (by decide)).2.2

/-! ### Areas of legal options -/

/-- The area is legal options one after the other, up to its end or to a kind that
ends the loop. -/
def LegalArea (mem : Memory) (start : ℤ) (len : ℕ) : Prop :=
  ∃ items : List KnownOption, mem.Holds start (encodeOptions items) ∧
    ((encodeOptions items).length = len ∨
      (encodeOptions items).length < len ∧ EndsAt mem (start + (encodeOptions items).length))

section Legal

variable {mem : Memory} {start addr : ℤ} {len n pos : ℕ} {o : TcpOption}

/-- An option that is recorded, and whose length byte leaves room for itself, is the
encoding of a legal one. -/
lemma exists_known (h : optionAt mem len addr = some o)
    (hlength : 2 ≤ mem.byte addr → 2 ≤ mem.byte (addr + 1)) :
    ∃ k : KnownOption, mem.Holds addr k.encode ∧ k.kind = mem.byte addr ∧
      optJump mem len addr = some k.size := by
  have hmax : mem.byte addr < tcpoptMax := by
    by_contra hno
    rw [optionAt, if_neg hno] at h
    cases h
  have hbyte : ∀ a, mem a = UInt8.ofNat (mem.byte a) := fun a => UInt8.ofNat_toNat.symm
  obtain ⟨-, ⟨hk, hjump, -⟩ | ⟨hk, hjump, -⟩⟩ := optionAt_cases h
  · refine ⟨⟨mem.byte addr, [], .inl ⟨hk, rfl⟩⟩, ?_, rfl, ?_⟩
    · rw [KnownOption.encode, encodeOption, if_pos hk, holds_cons]
      exact ⟨hbyte addr, fun i hi => absurd hi (Nat.not_lt_zero i)⟩
    · rw [hjump, KnownOption.size, KnownOption.encode, encodeOption, if_pos hk]
      rfl
  · have htwo := hlength hk
    have hlt := mem.byte_lt (addr + 1)
    let value := (List.range (mem.byte (addr + 1) - 2)).map fun i : ℕ => mem (addr + 2 + i)
    have hvalue : value.length + 2 = mem.byte (addr + 1) := by
      rw [List.length_map, List.length_range]
      omega
    have hlegal : mem.byte addr = tcpoptSack ∧ value.length + 2 < 256 ∨
        mem.byte addr < tcpoptMax ∧
          ((value.length + 2 : ℕ) : ℤ) = tcpoptLenTbl.getD (mem.byte addr) 0 := by
      rw [hvalue]
      rcases tcpoptLenTbl_cases _ hmax with ⟨hlow, -⟩ | ⟨hsack, -⟩ | ⟨-, -, htbl⟩
      · omega
      · exact .inl ⟨hsack, hlt⟩
      · rw [optJump_fixed hmax htbl, Option.ite_none_right_eq_some] at hjump
        exact .inr ⟨hmax, hjump.1⟩
    have hencode : encodeOption (mem.byte addr) value =
        UInt8.ofNat (mem.byte addr) :: UInt8.ofNat (mem.byte (addr + 1)) :: value := by
      rw [encodeOption_of_ge hk, hvalue]
    refine ⟨⟨mem.byte addr, value, .inr hlegal⟩, ?_, rfl, ?_⟩
    · rw [KnownOption.encode, hencode, holds_cons, holds_cons]
      refine ⟨hbyte addr, hbyte (addr + 1), fun i hi => ?_⟩
      rw [List.getElem_map, List.getElem_range, add_assoc addr 1 1]
      rfl
    · rw [hjump, KnownOption.size, KnownOption.encode, hencode, List.length_cons, List.length_cons,
        hvalue]

/-- A kind that ends the loop leads nowhere, or out of the area. -/
lemma mem_chain_of_endsAt (hend : EndsAt mem (start + pos)) {q : ℕ}
    (hq : q ∈ chain (optNext mem start len) n pos) : q = pos ∨ len ≤ q := by
  cases n with
  | zero => exact absurd hq List.not_mem_nil
  | succ n =>
      cases hnext : optNext mem start len pos with
      | none =>
          rw [chain_succ_none hnext] at hq
          exact .inl (List.mem_singleton.mp hq)
      | some b =>
          rw [chain_succ_some hnext] at hq
          refine (List.mem_cons.mp hq).imp_right fun hq => ?_
          -- only an unknown kind leads on, by more than the area has
          rw [optNext, Option.ite_none_right_eq_some, Option.map_eq_some_iff] at hnext
          obtain ⟨-, jump, hjump, rfl⟩ := hnext
          have hout : len < jump := by
            rcases hend with hmax | ⟨htbl, hne⟩
            · rw [optJump, if_pos hmax, Option.ite_none_right_eq_some, Option.some_inj] at hjump
              omega
            · by_cases hmax : mem.byte (start + pos) < tcpoptMax
              · rw [optJump_fixed hmax htbl, if_neg hne] at hjump
                cases hjump
              · rw [optJump, if_pos (Nat.not_lt.mp hmax), Option.ite_none_right_eq_some,
                  Option.some_inj] at hjump
                omega
          have hle : len ≤ pos + jump := by omega
          rw [mem_chain_of_ge hle hq]
          exact hle

/-- From any position on, the options that are looked at are legal if they all end in
the area: by induction on the rounds that are left. -/
lemma legal_from (hle : pos ≤ len) (hstop : Stops (optNext mem start len) n pos)
    (hcond : ∀ m, ∀ q ∈ chain (optNext mem start len) m pos, q < len →
      (optionAt mem len (start + q)).isSome → 2 ≤ mem.byte (start + q) →
        2 ≤ mem.byte (start + q + 1) ∧ q + mem.byte (start + q + 1) ≤ len) :
    ∃ items : List KnownOption, mem.Holds (start + pos) (encodeOptions items) ∧
      (pos + (encodeOptions items).length = len ∨ pos + (encodeOptions items).length < len ∧
        EndsAt mem (start + (pos + (encodeOptions items).length : ℕ))) := by
  induction n generalizing pos with
  | zero => exact hstop.elim
  | succ n ih =>
      have hnil : mem.Holds (start + pos) (encodeOptions []) :=
        fun i hi => absurd hi (Nat.not_lt_zero i)
      rcases hle.eq_or_lt with heq | hlt
      · exact ⟨[], hnil, .inl heq⟩
      · cases hopt : optionAt mem len (start + pos) with
        | none => exact ⟨[], hnil, .inr ⟨hlt, optionAt_eq_none_iff.mp hopt⟩⟩
        | some o =>
            have hself : pos ∈ chain (optNext mem start len) 1 pos := by
              cases hnext : optNext mem start len pos with
              | none => rw [chain_succ_none hnext]; exact List.mem_singleton_self pos
              | some b => rw [chain_succ_some hnext]; exact List.mem_cons_self
            have hin := hcond 1 pos hself hlt (hopt ▸ rfl)
            obtain ⟨k, hk, hkind, hjump⟩ := exists_known hopt fun h => (hin h).1
            have hnext : optNext mem start len pos = some (pos + k.size) := by
              rw [optNext, if_pos hlt, hjump, Option.map_some]
            have hroom : pos + k.size ≤ len := by
              obtain ⟨-, ⟨-, hone, -⟩ | ⟨htwo, hvar, -⟩⟩ := optionAt_cases hopt
              · rw [hjump, Option.some_inj] at hone
                omega
              · rw [hjump, Option.some_inj] at hvar
                rw [hvar]
                exact (hin htwo).2
            obtain ⟨items, hitems, hend⟩ := ih hroom (hstop _ hnext) fun m q hq =>
              hcond (m + 1) q (by rw [chain_succ_some hnext]; exact List.mem_cons_of_mem _ hq)
            have hlen : (encodeOptions (k :: items)).length =
                k.size + (encodeOptions items).length := by
              rw [encodeOptions, List.flatMap_cons, List.length_append]
              rfl
            refine ⟨k :: items, ?_, by rw [hlen, ← Nat.add_assoc]; exact hend⟩
            rw [encodeOptions, List.flatMap_cons, holds_append]
            refine ⟨hk, ?_⟩
            rw [add_assoc, ← Nat.cast_add]
            exact hitems

/-- In an area of legal options all that are looked at end in the area. -/
lemma LegalArea.ends (h : LegalArea mem start len) (hstop : Stops (optNext mem start len) n 0)
    {m q : ℕ} (hq : q ∈ chain (optNext mem start len) m 0) (hlt : q < len)
    (hsome : (optionAt mem len (start + q)).isSome) (htwo : 2 ≤ mem.byte (start + q)) :
    2 ≤ mem.byte (start + q + 1) ∧ q + mem.byte (start + q + 1) ≤ len := by
  obtain ⟨items, hmem, hend⟩ := h
  have hle : (encodeOptions items).length ≤ len := hend.elim le_of_eq fun h => h.1.le
  have hat := known_at (f := ⟨mem, ⟨.tcp, start, len⟩⟩) hmem hle
  have hlong := (hstop.mono (Nat.le_add_left n items.length)).mem_chain hq
  rw [chain_offsets fun e he => (hat e he).2.1, Nat.zero_add, ← length_encodeOptions,
    List.mem_append] at hlong
  rcases hlong with hoffset | hbehind
  · -- one of the options
    obtain ⟨e, he, rfl⟩ := List.mem_map.mp hoffset
    have hsize := offsets_le he
    rw [Nat.zero_add, ← length_encodeOptions] at hsize
    rw [← add_zero start, ← Nat.cast_zero (R := ℤ)] at hmem
    have hbytes := holds_offsets hmem e he
    obtain ⟨hkind, hrest⟩ := byte_of_holds hbytes (e.2.kind_lt.trans (by decide)) e.2.value_lt
    rw [hkind] at htwo
    rw [(hrest htwo).1]
    have hlength : e.2.size = e.2.value.length + 2 := by
      rw [KnownOption.size, KnownOption.encode, encodeOption_of_ge htwo]
      rfl
    omega
  · -- behind them nothing is recorded
    exfalso
    rcases hend with heq | ⟨-, hends⟩
    · have hpos := mem_chain_of_ge (by rw [heq]) hbehind
      omega
    · rcases mem_chain_of_endsAt hends hbehind with rfl | hout
      · rw [optionAt_eq_none_iff.mpr hends] at hsome
        cases hsome
      · omega

end Legal

/-- **When recorded options lie in the area**: on every area that is looked at and
on which `decode_tcp_options` returns, exactly if it is legal options one after the
other, each with all its bytes in the area, up to its end or to a kind that ends the
loop. -/
theorem recorded_inside_iff (f : Frame) (start : ℤ) {len : ℕ} (s : Decoding)
    (hlen : len ≤ maxTcpoptlen) {n : ℕ} (hret : (decodeTcpOptions n start len f s).1 ≠ none) :
    (decodeTcpOptions n start len f s).2.packet =
        ((storedOptions f start s len n).map Prod.snd).foldl Packet.addOption s.packet ∧
      (OptionsInside f.mem start len (storedOptions f start s len n) ↔
        LegalArea f.mem start len) := by
  refine ⟨decodeTcpOptions_packet hlen n, ?_⟩
  have hstop := (decodeTcpOptions_returns_iff hlen n).mp hret
  rw [optionsInside_iff hlen hret]
  constructor
  · intro hcond
    obtain ⟨items, hmem, hend⟩ := legal_from (Nat.zero_le len) hstop hcond
    rw [Nat.cast_zero, add_zero] at hmem
    rw [Nat.zero_add] at hend
    exact ⟨items, hmem, hend⟩
  · exact fun h m q hq hlt hsome htwo => h.ends hstop hq hlt hsome htwo

/-- A maximum segment size, `NOP`, and a user timeout option cut off by the end. -/
def segmentSize : Memory := Memory.ofList [2, 4, 5, 180, 1, 28]

/-- The first two are recorded, and lie in their area. -/
theorem segment_size_inside :
    (storedOptions ⟨segmentSize, ⟨.tcp, 0, 6⟩⟩ 0 (.start default default) 6 3).map Prod.snd =
        [⟨2, 2, some 2⟩, ⟨1, 0, none⟩] ∧
      OptionsInside segmentSize 0 6
        (storedOptions ⟨segmentSize, ⟨.tcp, 0, 6⟩⟩ 0 (.start default default) 6 3) := by
  have hret : (decodeTcpOptions 3 0 6 ⟨segmentSize, ⟨.tcp, 0, 6⟩⟩
      (.start default default)).1 ≠ none := by
    decide +kernel
  refine ⟨by decide +kernel, (recorded_inside_iff ⟨segmentSize, ⟨.tcp, 0, 6⟩⟩ 0
    (.start default default) (by decide) hret).2.mpr ?_⟩
  exact ⟨[⟨2, [5, 180], by decide⟩, nop], by decide +kernel, .inr ⟨by decide, .inl (by decide)⟩⟩

/-! ### Unknown options -/

/-- **What follows an unknown option** is lost: with an unknown option put in, the
options recorded are the same exactly if it was put at the end. -/
theorem unknown_skipped_iff (f f' : Frame) (start start' : ℤ) (s s' : Decoding)
    (before after : List KnownOption) (u : UnknownOption)
    (hlen : (encodeOptions before ++ u.encode ++ encodeOptions after).length ≤ maxTcpoptlen)
    (hwith : f.mem.Holds start (encodeOptions before ++ u.encode ++ encodeOptions after))
    (hwithout : f'.mem.Holds start' (encodeOptions before ++ encodeOptions after)) {n : ℕ}
    (hn : before.length + after.length < n) :
    let len := (encodeOptions before ++ u.encode ++ encodeOptions after).length
    let len' := (encodeOptions before ++ encodeOptions after).length
    (decodeTcpOptions n start len f s).1 = some () ∧
      (decodeTcpOptions n start' len' f' s').1 = some () ∧
      ((storedOptions f start s len n).map (fun e => e.2.seen f.mem) =
          (storedOptions f' start' s' len' n).map (fun e => e.2.seen f'.mem) ↔ after = []) := by
  intro len len'
  have hu : u.encode.length = u.value.length + 2 := by
    rw [UnknownOption.encode, encodeOption_of_ge (le_trans (by decide) u.unknown.1)]
    rfl
  have hsum : len = (encodeOptions before).length + (u.value.length + 2) +
      (encodeOptions after).length := by
    rw [← hu, ← List.length_append, ← List.length_append]
  have hlen' : len' ≤ maxTcpoptlen := by
    have : len' = (encodeOptions before).length + (encodeOptions after).length :=
      List.length_append
    omega
  -- with the unknown option the loop gets as far as there
  rw [List.append_assoc, holds_append, holds_append] at hwith
  obtain ⟨hbefore, hunknown, -⟩ := hwith
  obtain ⟨hjump, hopt⟩ : optJump f.mem len _ = none ∧ _ := optJump_unknown hunknown (by omega)
  have hnext : optNext f.mem start len (encodeOptions before).length = none := by
    rw [optNext, if_pos (by omega), hjump, Option.map_none]
  have hshort := storedOptions_last (s := s) hlen hbefore (by omega) hnext (fun _ => hopt)
    (n := n) (by omega)
  -- without it the loop goes on to the end
  have happend : encodeOptions before ++ encodeOptions after = encodeOptions (before ++ after) :=
    List.flatMap_append.symm
  rw [happend] at hwithout
  have hend : optNext f'.mem start' len' (encodeOptions (before ++ after)).length = none := by
    rw [← happend, optNext, if_neg (lt_irrefl _)]
  have hle : (encodeOptions (before ++ after)).length ≤ len' := by rw [← happend]
  have hlong := storedOptions_last (s := s') hlen' hwithout hle hend
    (fun h => absurd h (by rw [← happend]; exact lt_irrefl _))
    (n := n) (by rw [List.length_append]; exact hn)
  refine ⟨returns_known hlen hbefore (by omega) hnext (by omega),
    returns_known hlen' hwithout hle hend (by rw [List.length_append]; exact hn), ?_⟩
  rw [hshort, hlong, List.map_map, List.map_map]
  change ((offsets KnownOption.size 0 before).map fun e => (e.2.placed (start + e.1)).seen f.mem) =
    ((offsets KnownOption.size 0 (before ++ after)).map fun e =>
      (e.2.placed (start' + e.1)).seen f'.mem) ↔ _
  rw [seen_offsets hbefore, seen_offsets hwithout, List.map_append, List.self_eq_append_right,
    List.map_eq_nil_iff]

/-- A user timeout option. -/
def userTimeout : UnknownOption := ⟨28, [0, 9], by decide, by decide⟩

/-- An unknown option behind the known ones. -/
theorem unknown_at_the_end :
    let f : Frame := ⟨Memory.ofList [3, 3, 7, 28, 4, 0, 9], ⟨.tcp, 0, 7⟩⟩
    let f' : Frame := ⟨Memory.ofList [3, 3, 7], ⟨.tcp, 0, 3⟩⟩
    (storedOptions f 0 (.start default default) 7 2).map (fun e => e.2.seen f.mem) =
      (storedOptions f' 0 (.start default default) 3 2).map (fun e => e.2.seen f'.mem) := by
  intro f f'
  exact (unknown_skipped_iff f f' 0 0 (.start default default) (.start default default)
    [windowScale] [] userTimeout (by decide) (by decide +kernel) (by decide +kernel) (n := 2)
    (by decide)).2.2.mpr rfl

/-- **An unknown option** in front of known ones, which are not recorded. -/
theorem behind_user_timeout :
    let f : Frame := ⟨Memory.ofList [28, 4, 0, 9, 3, 3, 7, 1], ⟨.tcp, 0, 8⟩⟩
    let f' : Frame := ⟨Memory.ofList [3, 3, 7, 1], ⟨.tcp, 0, 4⟩⟩
    f.mem.Holds 0 (encodeOptions [] ++ userTimeout.encode ++ encodeOptions [windowScale, nop]) ∧
      f'.mem.Holds 0 (encodeOptions [] ++ encodeOptions [windowScale, nop]) ∧
      (decodeTcpOptions 3 0 8 f (.start default default)).1 = some () ∧
      (storedOptions f 0 (.start default default) 8 3).map (fun e => e.2.seen f.mem) = [] ∧
      (storedOptions f' 0 (.start default default) 4 3).map (fun e => e.2.seen f'.mem) =
        [(3, 1, [7]), (1, 0, [])] := by
  decide +kernel

end CLibrary
