import CLibrary.Packet.Datagram

/-!
`packet_create`, and the options of the packet it makes.

* `packetCreate`: it zeroes what is in front of `tcpopt_count`.
* `resultOptions`: the options that a decoding records, as a function of the bytes;
  `tcpoptCount_result` counts them and `resultOptions_succ` says that they come
  one by one.
* `storeIndexes`: where a decoding stores options, read off its states.
* `option_array_safe_iff`: when they fit and are counted.
* `garbage_counted`: a block on which they are not.
-/

namespace CLibrary

open Decode

/-! ### The packet -/

/-- `memset(packet, 0, PKT_ZERO_LEN)`: every field in front of `tcpopt_count`. -/
def Packet.memsetZeroLen (p : Packet) : Packet :=
  { p with
    version := 0
    srcaddr := fun _ => 0
    dstaddr := fun _ => 0
    srcport := 0
    dstport := 0
    protocol := 0
    mf := false
    df := false
    offset := 0
    id := 0
    ttl := 0
    tos := 0
    paysize := 0
    payload := 0
    transport := none
    layerCount := 0 }

/-- `packet_create`, by what `malloc` returns. -/
def packetCreate (malloc : Option Packet) : Option Packet := malloc.map Packet.memsetZeroLen

/-! ### The options of a decoding -/

/-- The options that are recorded along the chain of headers from a call on. -/
def resultOptions (mem : Memory) : ℕ → Call → List TcpOption
  | 0, _ => []
  | n + 1, c => (c.nested mem).elim (c.options mem n) (resultOptions mem n)

section Options

variable {mem : Memory} {c d : Call} {p : Packet} {n : ℕ}

lemma resultOptions_of_nested (h : c.nested mem = some d) (n : ℕ) :
    resultOptions mem (n + 1) c = resultOptions mem n d := by
  rw [resultOptions, h, Option.elim_some]

lemma resultOptions_of_last (h : c.nested mem = none) (n : ℕ) :
    resultOptions mem (n + 1) c = c.options mem n := by
  rw [resultOptions, h, Option.elim_none]

/-- Options are counted. -/
lemma tcpoptCount_addOptions (l : List TcpOption) (h : p.tcpoptCount < 2 ^ 32) :
    (l.foldl Packet.addOption p).tcpoptCount = (p.tcpoptCount + l.length) % 2 ^ 32 := by
  induction l generalizing p with
  | nil => exact (Nat.mod_eq_of_lt h).symm
  | cons option l ih =>
      have hcount : (p.addOption option).tcpoptCount = (p.tcpoptCount + 1) % 2 ^ 32 := rfl
      rw [List.foldl_cons, ih (hcount ▸ Nat.mod_lt _ (by positivity)), hcount, Nat.mod_add_mod,
        List.length_cons, Nat.add_assoc, Nat.add_comm 1]

/-- A header that is refused has no options. -/
lemma options_of_refused (h : ¬ c.Accepts mem) : c.options mem n = [] := by
  rw [Call.options, if_neg]
  rintro ⟨hdec, hlen, -⟩
  simp only [Call.Accepts, hdec] at h
  exact h hlen

/-- **The options are counted** by a decoding, from what the counter was. -/
lemma tcpoptCount_result (n : ℕ) (c : Call) (h : p.tcpoptCount < 2 ^ 32) :
    (result mem n c p).2.tcpoptCount =
      (p.tcpoptCount + (resultOptions mem n c).length) % 2 ^ 32 := by
  induction n generalizing c p with
  | zero => exact (Nat.mod_eq_of_lt h).symm
  | succ n ih =>
      cases hnext : c.nested mem with
      | none =>
          rw [result_of_last hnext, resultOptions_of_last hnext]
          by_cases hacc : c.Accepts mem
          · have hfill := tcpoptCount_fill mem c p
            rw [Call.finish, if_pos hacc, tcpoptCount_addOptions _ (hfill ▸ h), hfill]
          · rw [finish_of_refused hacc, options_of_refused hacc, List.length_nil, Nat.add_zero,
              Nat.mod_eq_of_lt h, Call.refuse]
            split_ifs <;> rfl
      | some d =>
          have hfill := tcpoptCount_fill mem c p
          rw [result_of_nested hnext, resultOptions_of_nested hnext, ih d (hfill ▸ h), hfill]

/-- The options of an area come one by one. -/
lemma recorded_succ_eq_append (start : ℤ) (len n pos : ℕ) : ∃ l : List TcpOption, l.length ≤ 1 ∧
    recorded mem start len (n + 1) pos = recorded mem start len n pos ++ l := by
  obtain ⟨l, hlen, heq⟩ := @chain_succ_eq_append _ (optNext mem start len) n pos
  rw [recorded, recorded, heq, List.filterMap_append]
  exact ⟨_, (List.length_filterMap_le _ l).trans hlen, rfl⟩

/-- **The options come one by one.** -/
lemma resultOptions_succ (n : ℕ) (c : Call) : ∃ l : List TcpOption, l.length ≤ 1 ∧
    resultOptions mem (n + 1) c = resultOptions mem n c ++ l := by
  induction n generalizing c with
  | zero =>
      refine ⟨[], Nat.zero_le 1, ?_⟩
      cases hnext : c.nested mem with
      | none =>
          rw [resultOptions_of_last hnext, Call.options]
          split_ifs <;> rfl
      | some d =>
          rw [resultOptions_of_nested hnext]
          rfl
  | succ n ih =>
      cases hnext : c.nested mem with
      | none =>
          rw [resultOptions_of_last hnext, resultOptions_of_last hnext, Call.options, Call.options]
          split_ifs
          · exact recorded_succ_eq_append _ _ n 0
          · exact ⟨[], Nat.zero_le 1, rfl⟩
      | some d =>
          rw [resultOptions_of_nested hnext, resultOptions_of_nested hnext]
          exact ih d

/-- The options of a header that is not stuck are fewer than the bytes they have. -/
lemma length_options_le (h : ¬ c.Stuck mem) (n : ℕ) : (c.options mem n).length ≤ maxTcpoptlen := by
  rw [Call.options]
  split_ifs with hopts
  · obtain ⟨hdec, hloop⟩ := hopts
    obtain ⟨m, hstop⟩ : ∃ m, Stops (c.optNext mem) m 0 :=
      optStops_iff.mpr fun k pos hpos hlt hzero => h ⟨hdec, hloop, k, pos, hpos, hlt, hzero⟩
    -- with `n` rounds more than are needed there are no fewer options
    have hlong := length_recorded_le (hstop.mono (Nat.le_add_right m n))
    have hmono :
        Monotone fun k => (recorded mem (c.optStart mem) (c.tcpOptlen mem) k 0).length := by
      refine monotone_nat_of_le_succ fun k => ?_
      obtain ⟨l, -, heq⟩ := @recorded_succ_eq_append mem (c.optStart mem) (c.tcpOptlen mem)
        k 0
      rw [heq, List.length_append]
      exact Nat.le_add_right _ _
    calc (recorded mem (c.optStart mem) (c.tcpOptlen mem) n 0).length
        ≤ (recorded mem (c.optStart mem) (c.tcpOptlen mem) (m + n) 0).length :=
          hmono (Nat.le_add_left n m)
      _ ≤ c.tcpOptlen mem - 0 := hlong
      _ ≤ maxTcpoptlen := (Nat.sub_le _ _).trans hloop.2.2
  · exact Nat.zero_le _

/-- A decoding that comes to no header that is stuck has no more options than fit. -/
lemma length_resultOptions_le (h : ∀ n, ∀ d ∈ chain (Call.nested mem) n c, ¬ d.Stuck mem) (n : ℕ) :
    (resultOptions mem n c).length ≤ maxTcpoptlen := by
  induction n generalizing c with
  | zero => exact Nat.zero_le _
  | succ n ih =>
      cases hnext : c.nested mem with
      | none =>
          rw [resultOptions_of_last hnext]
          exact length_options_le (h 1 c List.mem_cons_self) n
      | some d =>
          rw [resultOptions_of_nested hnext]
          exact ih (forall_chain_next hnext h)

/-- The options from a position on that leads to itself go on and on. -/
lemma length_recorded_of_self {start : ℤ} {len pos : ℕ} (hlt : pos < len)
    (hkind : mem.byte (start + pos) = tcpoptSack) (hzero : mem.byte (start + pos + 1) = 0) (m : ℕ) :
    (recorded mem start len m pos).length = m := by
  have hjump : optJump mem len (start + pos) = some 0 := optJump_eq_zero_iff.mpr ⟨hkind, hzero⟩
  have hnext : optNext mem start len pos = some pos := by
    rw [optNext, if_pos hlt, hjump, Option.map_some, Nat.add_zero]
  induction m with
  | zero => rfl
  | succ m ih =>
      rw [recorded_succ hlt, hnext, Option.elim_some, List.length_append, ih, optionAt,
        if_pos (hkind ▸ by decide), hjump, Option.map_some, Option.toList_some,
        List.length_singleton, Nat.add_comm]

/-- So do those from a position on that leads there. -/
lemma exists_length_recorded {start : ℤ} {len pos q : ℕ} (hlt : pos < len)
    (hkind : mem.byte (start + pos) = tcpoptSack) (hzero : mem.byte (start + pos + 1) = 0)
    (hpos : pos ∈ chain (optNext mem start len) n q) :
    ∃ j, ∀ m, m ≤ (recorded mem start len (j + m) q).length := by
  induction n generalizing q with
  | zero => exact absurd hpos List.not_mem_nil
  | succ n ih =>
      by_cases hself : pos = q
      · refine ⟨0, fun m => ?_⟩
        rw [Nat.zero_add, ← hself, length_recorded_of_self hlt hkind hzero]
      · cases hnext : optNext mem start len q with
        | none =>
            rw [chain_succ_none hnext, List.mem_singleton] at hpos
            exact absurd hpos hself
        | some next =>
            rw [chain_succ_some hnext] at hpos
            obtain ⟨j, hj⟩ := ih ((List.mem_cons.mp hpos).resolve_left hself)
            have hq : q < len := by
              by_contra hge
              rw [optNext_of_ge (Nat.not_lt.mp hge)] at hnext
              cases hnext
            refine ⟨j + 1, fun m => (hj m).trans ?_⟩
            rw [Nat.add_right_comm, recorded_succ hq, hnext, Option.elim_some, List.length_append]
            exact Nat.le_add_left _ _

/-- The options of a header that is stuck go on and on. -/
lemma exists_length_options (h : c.Stuck mem) (k : ℕ) : ∃ n, k < (c.options mem n).length := by
  obtain ⟨hdec, hloop, n, pos, hpos, hlt, hkind, hzero⟩ := h
  obtain ⟨j, hj⟩ := exists_length_recorded hlt hkind hzero hpos
  refine ⟨j + (k + 1), ?_⟩
  rw [Call.options, if_pos ⟨hdec, hloop⟩]
  exact hj (k + 1)

/-- So do those of a decoding that comes to one. -/
lemma exists_length_resultOptions (hd : d ∈ chain (Call.nested mem) n c) (h : d.Stuck mem) (k : ℕ) :
    ∃ m, k < (resultOptions mem m c).length := by
  induction n generalizing c with
  | zero => exact absurd hd List.not_mem_nil
  | succ n ih =>
      cases hnext : c.nested mem with
      | none =>
          rw [chain_succ_none hnext, List.mem_singleton] at hd
          subst hd
          obtain ⟨m, hm⟩ := exists_length_options h k
          exact ⟨m + 1, by rwa [resultOptions_of_last hnext]⟩
      | some e =>
          rw [chain_succ_some hnext] at hd
          rcases List.mem_cons.mp hd with rfl | hd
          · -- behind a TCP header there is none
            rw [nested_eq_none (Or.inl h.1)] at hnext
            cases hnext
          · obtain ⟨m, hm⟩ := ih hd
            exact ⟨m + 1, by rwa [resultOptions_of_nested hnext]⟩

/-- A decoding that comes to a header that calls itself has no options. -/
lemma resultOptions_of_self (hd : d ∈ chain (Call.nested mem) n c) (h : d.nested mem = some d)
    (m : ℕ) : resultOptions mem m c = [] := by
  have hself : ∀ m, resultOptions mem m d = [] := by
    intro m
    induction m with
    | zero => rfl
    | succ m ih => rw [resultOptions_of_nested h, ih]
  induction n generalizing c m with
  | zero => exact absurd hd List.not_mem_nil
  | succ n ih =>
      cases hnext : c.nested mem with
      | none =>
          rw [chain_succ_none hnext, List.mem_singleton] at hd
          rw [← hd, h] at hnext
          cases hnext
      | some e =>
          rw [chain_succ_some hnext] at hd
          rcases List.mem_cons.mp hd with rfl | hd
          · exact hself m
          · cases m with
            | zero => rfl
            | succ m => rw [resultOptions_of_nested hnext, ih hd]

end Options

/-! ### Stores -/

/-- The values of `tcpopt_count` at the stores to `tcp_option[tcpopt_count]` in the
first `n` steps of a decoding: a unit of fuel is a header or a round of the loop over
the options, and a round that stores an option counts it. -/
def storeIndexes (mem : Memory) (c : Call) (s : Decoding) (n : ℕ) : List ℕ :=
  (List.range n).filterMap fun k =>
    let count := (decode mem k c s).2.packet.tcpoptCount
    if (decode mem (k + 1) c s).2.packet.tcpoptCount = count then none else some count

/-- Every store is to an element of `tcp_option`, and the stores are counted. -/
structure OptionArraySafe (mem : Memory) (c : Call) (s : Decoding) : Prop where
  inside : ∀ n, ∀ i ∈ storeIndexes mem c s n, i < maxTcpoptlen
  counted : ∀ n, (decode mem n c s).1 ≠ none →
    (decode mem n c s).2.packet.tcpoptCount = (storeIndexes mem c s n).length

section Stores

variable {mem : Memory} {c : Call} {s : Decoding} {n k : ℕ}

/-- The counter in the course of a decoding. -/
lemma tcpoptCount_decode (h : s.packet.tcpoptCount < 2 ^ 32) (n : ℕ) :
    (decode mem n c s).2.packet.tcpoptCount =
      (s.packet.tcpoptCount + (resultOptions mem n c).length) % 2 ^ 32 := by
  rw [(decode_result n c s).1, tcpoptCount_result n c h]

/-- A step stores nothing, or one option. -/
lemma tcpoptCount_step (h : s.packet.tcpoptCount < 2 ^ 32) (k : ℕ) :
    ((decode mem (k + 1) c s).2.packet.tcpoptCount = (decode mem k c s).2.packet.tcpoptCount ∧
        (resultOptions mem (k + 1) c).length = (resultOptions mem k c).length) ∨
      ((decode mem (k + 1) c s).2.packet.tcpoptCount ≠ (decode mem k c s).2.packet.tcpoptCount ∧
        (resultOptions mem (k + 1) c).length = (resultOptions mem k c).length + 1) := by
  obtain ⟨l, hlen, heq⟩ := @resultOptions_succ mem k c
  rw [tcpoptCount_decode h, tcpoptCount_decode h, heq, List.length_append]
  rcases Nat.le_one_iff_eq_zero_or_eq_one.mp hlen with hl | hl
  · rw [hl, Nat.add_zero]
    exact Or.inl ⟨rfl, rfl⟩
  · rw [hl]
    exact Or.inr ⟨by omega, rfl⟩

/-- **There are as many stores as options.** -/
lemma length_storeIndexes (h : s.packet.tcpoptCount < 2 ^ 32) (n : ℕ) :
    (storeIndexes mem c s n).length = (resultOptions mem n c).length := by
  induction n with
  | zero => rfl
  | succ n ih =>
      have hsnoc : storeIndexes mem c s (n + 1) = storeIndexes mem c s n ++
          (if (decode mem (n + 1) c s).2.packet.tcpoptCount =
            (decode mem n c s).2.packet.tcpoptCount then none
          else some (decode mem n c s).2.packet.tcpoptCount).toList := by
        rw [storeIndexes, List.range_succ, List.filterMap_append]
        congr 1
      rw [hsnoc, List.length_append, ih]
      rcases @tcpoptCount_step mem c s h n with ⟨hcount, hlen⟩ | ⟨hcount, hlen⟩
      · rw [if_pos hcount, hlen]
        rfl
      · rw [if_neg hcount, hlen]
        rfl

/-- Where an option is stored. -/
lemma mem_storeIndexes (h : s.packet.tcpoptCount < 2 ^ 32) {i : ℕ} :
    i ∈ storeIndexes mem c s n ↔ ∃ k < n,
      (resultOptions mem (k + 1) c).length = (resultOptions mem k c).length + 1 ∧
        i = (s.packet.tcpoptCount + (resultOptions mem k c).length) % 2 ^ 32 := by
  rw [storeIndexes, List.mem_filterMap]
  refine exists_congr fun k => ?_
  rw [List.mem_range, Option.ite_none_left_eq_some, Option.some_inj, ← tcpoptCount_decode h,
    eq_comm (a := i)]
  refine and_congr_right fun _ => and_congr_left fun _ => ?_
  rcases @tcpoptCount_step mem c s h k with ⟨hcount, hlen⟩ | ⟨hcount, hlen⟩
  · exact iff_of_false (not_not.mpr hcount) (by omega)
  · exact iff_of_true hcount hlen

/-- Where there are more than `k` options, one of them is stored behind `k` others. -/
lemma exists_step (h : k < (resultOptions mem n c).length) : ∃ m < n,
    (resultOptions mem m c).length = k ∧ (resultOptions mem (m + 1) c).length = k + 1 := by
  induction n with
  | zero => exact absurd h (Nat.not_lt_zero k)
  | succ n ih =>
      obtain ⟨l, hlen, heq⟩ := @resultOptions_succ mem n c
      by_cases hn : k < (resultOptions mem n c).length
      · obtain ⟨m, hm, hstep⟩ := ih hn
        exact ⟨m, by omega, hstep⟩
      · rw [heq, List.length_append] at h
        refine ⟨n, Nat.lt_succ_self n, by omega, ?_⟩
        rw [heq, List.length_append]
        omega

end Stores

/-- **When the option array is safe**: in every decoding into a packet from
`packet_create`, exactly if its headers lead to no option of the variable length kind
with length byte zero, and `tcpopt_count` of the block was zero or some header calls
itself, so that decoding never returns. -/
theorem option_array_safe_iff {mem : Memory} {c : Call} (hlen : c.len < 2 ^ 32)
    {block packet : Packet} (hblock : block.tcpoptCount < 2 ^ 32)
    (hcreate : packetCreate (some block) = some packet) (stats : PacketStats) :
    OptionArraySafe mem c (.start packet stats) ↔
      (∀ n, ∀ h ∈ chain (Call.nested mem) n c, ¬ h.Stuck mem) ∧
        (block.tcpoptCount = 0 ∨
          ∃ n, ∃ h ∈ chain (Call.nested mem) n c, h.nested mem = some h) := by
  obtain rfl : block.memsetZeroLen = packet := Option.some.inj hcreate
  set s := Decoding.start block.memsetZeroLen stats
  have hcount : s.packet.tcpoptCount = block.tcpoptCount := rfl
  have hs : s.packet.tcpoptCount < 2 ^ 32 := hblock
  have hmax : maxTcpoptlen = 32 := rfl
  constructor
  · rintro ⟨hinside, hcounted⟩
    have hstuck : ∀ n, ∀ h ∈ chain (Call.nested mem) n c, ¬ h.Stuck mem := by
      intro n h hmem hstuck
      -- one of the options goes right behind the array
      obtain ⟨m, hm⟩ := exists_length_resultOptions hmem hstuck
        ((2 ^ 32 - block.tcpoptCount) + maxTcpoptlen)
      obtain ⟨k, hk, heq, hsucc⟩ := exists_step hm
      have hlt := hinside (k + 1) _ ((mem_storeIndexes hs).mpr
        ⟨k, Nat.lt_succ_self k, by rw [hsucc, heq], rfl⟩)
      rw [heq, hcount] at hlt
      omega
    refine ⟨hstuck, or_iff_not_imp_right.mpr fun hself => ?_⟩
    obtain ⟨n, hfin⟩ := (finishes_iff hlen).mpr fun n h hmem =>
      ⟨fun h' => hself ⟨n, h, hmem, h'⟩, hstuck n h hmem⟩
    have hret := hcounted n ((decode_finishes_iff n c s).mpr hfin)
    have hle := length_resultOptions_le hstuck n
    rw [tcpoptCount_decode hs, length_storeIndexes hs, hcount] at hret
    omega
  · rintro ⟨hstuck, hzero⟩
    have hle := length_resultOptions_le hstuck
    rcases hzero with hzero | ⟨n, h, hmem, hself⟩
    · refine ⟨fun n i hi => ?_, fun n _ => ?_⟩
      · obtain ⟨k, -, hsucc, rfl⟩ := (mem_storeIndexes hs).mp hi
        have hk := hle (k + 1)
        rw [hcount, hzero]
        omega
      · have hn := hle n
        rw [tcpoptCount_decode hs, length_storeIndexes hs, hcount, hzero]
        omega
    · refine ⟨fun m i hi => ?_, fun m hret => ?_⟩
      · obtain ⟨k, -, hsucc, -⟩ := (mem_storeIndexes hs).mp hi
        rw [resultOptions_of_self hmem hself, resultOptions_of_self hmem hself] at hsucc
        cases hsucc
      · have hfin := (decode_finishes_iff m c s).mp hret
        exact absurd hself ((finishes_iff hlen).mp ⟨m, hfin⟩ n h hmem).1

/-- An IPv4 header and a TCP header with a maximum segment size. -/
def synSegment : Memory :=
  Memory.ofList [0x45, 0, 0, 44, 0, 0, 0, 0, 64, 6, 0, 0, 10, 0, 0, 1, 10, 0, 0, 2,
    0, 7, 0, 8, 0, 0, 0, 1, 0, 0, 0, 0, 0x60, 2, 0, 0, 0, 0, 0, 0, 2, 4, 5, 180]

/-- With a block that is zero its option is safe. -/
theorem zero_block_safe :
    OptionArraySafe synSegment ⟨.ip, 0, 44⟩
      (.start (Packet.memsetZeroLen { (default : Packet) with tcpoptCount := 0 }) default) := by
  refine (option_array_safe_iff (by decide) (by decide) rfl default).mpr
    ⟨fun n h hmem => ?_, Or.inl rfl⟩
  have hret : (decode synSegment 4 ⟨.ip, 0, 44⟩ (.start default default)).1 ≠ none := by
    decide +kernel
  exact ((finishes_iff (by decide)).mp ⟨4, (decode_finishes_iff 4 _ _).mp hret⟩ n h hmem).2

/-- **A block that is not zero**: the option is stored behind the array, and is not
the only one counted. -/
theorem garbage_counted :
    ∃ packet, packetCreate (some { (default : Packet) with tcpoptCount := 40 }) = some packet ∧
      (decode synSegment 4 ⟨.ip, 0, 44⟩ (.start packet default)).1 = some 0 ∧
      storeIndexes synSegment ⟨.ip, 0, 44⟩ (.start packet default) 4 = [40] ∧
      (decode synSegment 4 ⟨.ip, 0, 44⟩ (.start packet default)).2.packet.tcpoptCount = 41 ∧
      ¬ OptionArraySafe synSegment ⟨.ip, 0, 44⟩ (.start packet default) := by
  refine ⟨_, rfl, by decide +kernel, ?_⟩
  have hstores : storeIndexes synSegment ⟨.ip, 0, 44⟩ (.start
      (Packet.memsetZeroLen { (default : Packet) with tcpoptCount := 40 }) default) 4 = [40] := by
    decide +kernel
  refine ⟨hstores, by decide +kernel, fun h => ?_⟩
  have hlt := h.inside 4 40 (hstores ▸ List.mem_singleton_self 40)
  exact absurd hlt (by decide)

end CLibrary
