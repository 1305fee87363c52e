import CLibrary.Packet.OptionRounds

/-!
Where the options lie that `decode_tcp_options` records.

* `storedBy`, `storedOptions`: the options the rounds of the loop store, each with
  the place it was read from.  `storedOptions_eq` reads them off the positions,
  and `decodeTcpOptions_packet` says that they are what the packet gets.
* `OptionsInside`: they lie in the area, one behind the other, and are as long as
  they say.
* `optionsInside_iff`: they do where those that are looked at do.
* `option_outside`: a kind in the last byte of the area, whose length is read from
  the payload.
-/

namespace CLibrary

open Decode

/-! ### What is stored -/

/-- The option that the round from `q` stores, with its `opt_start`; a round that
stores one counts it. -/
def storedBy (f : Frame) (start : ℤ) (len : ℕ) (q : OptionState) : Option (ℤ × TcpOption) :=
  (optionRound f start len q).bind fun q' =>
    if q'.decoding.packet.tcpoptCount = q.decoding.packet.tcpoptCount then none
    else some (q.optStart, q'.decoding.packet.tcpOption q.decoding.packet.tcpoptCount)

/-- The options stored in the first `n` rounds. -/
def storedOptions (f : Frame) (start : ℤ) (s : Decoding) (len n : ℕ) : List (ℤ × TcpOption) :=
  (optionRounds f start s len n).filterMap (storedBy f start len)

section Stored

variable {f : Frame} {mem : Memory} {start addr : ℤ} {len n : ℕ} {q : OptionState} {s : Decoding}
  {o : TcpOption}

/-- An option is counted: the counter changes even where it wraps. -/
lemma addOption_tcpoptCount_ne (p : Packet) (o : TcpOption) :
    (p.addOption o).tcpoptCount ≠ p.tcpoptCount := by
  change (p.tcpoptCount + 1) % 2 ^ 32 ≠ p.tcpoptCount
  omega

/-- An option goes where the counter was. -/
lemma addOption_tcpOption_self (p : Packet) (o : TcpOption) :
    (p.addOption o).tcpOption p.tcpoptCount = o := Function.update_self _ _ _

/-- Where an option is recorded, the loop moves on. -/
lemma optJump_isSome_of_optionAt (h : optionAt mem len addr = some o) :
    ∃ jump, optJump mem len addr = some jump := by
  rw [optionAt, Option.ite_none_right_eq_some, Option.map_eq_some_iff] at h
  obtain ⟨-, jump, hjump, -⟩ := h
  exact ⟨jump, hjump⟩

/-- **What a round stores** is the option at its position. -/
lemma storedBy_eq (hq : q.At start) (hlen : len ≤ maxTcpoptlen) :
    storedBy f start len q = if q.depth < len then
      (optionAt f.mem len (start + q.depth)).map fun o => (start + (q.depth : ℤ), o) else none := by
  by_cases hlt : q.depth < len
  · obtain ⟨s, hround, hpacket⟩ := optionRound_spec (f := f) hq hlen hlt
    rw [storedBy, hround, if_pos hlt]
    cases hopt : optionAt f.mem len (start + q.depth) with
    | none =>
        rw [hopt, Option.elim_none] at hpacket
        cases optJump f.mem len (start + q.depth) with
        | none => rfl
        | some jump =>
            rw [Option.map_some, Option.bind_some, if_pos (congrArg _ hpacket), Option.map_none]
    | some o =>
        obtain ⟨jump, hjump⟩ := optJump_isSome_of_optionAt hopt
        rw [hopt, Option.elim_some] at hpacket
        rw [hjump, Option.map_some, Option.bind_some, hpacket,
          if_neg (addOption_tcpoptCount_ne _ _), addOption_tcpOption_self, Option.map_some,
          show q.optStart = start + q.depth from hq]
  · rw [storedBy, optionRound_of_le hq (Nat.not_lt.mp hlt), Option.bind_none, if_neg hlt]

/-- **What the rounds store** are the options at the positions. -/
lemma storedOptions_eq (hlen : len ≤ maxTcpoptlen) (n : ℕ) :
    storedOptions f start s len n = (chain (optNext f.mem start len) n 0).filterMap fun pos =>
      if pos < len then (optionAt f.mem len (start + pos)).map fun o => (start + (pos : ℤ), o)
      else none := by
  rw [storedOptions, ← map_depth_rounds (s := s) hlen, List.filterMap_map]
  exact List.filterMap_congr fun q hq => storedBy_eq (at_of_mem_rounds hlen hq) hlen

lemma map_snd_storedOptions (hlen : len ≤ maxTcpoptlen) (n : ℕ) :
    (storedOptions f start s len n).map Prod.snd = recorded f.mem start len n 0 := by
  rw [storedOptions_eq hlen, List.map_filterMap, recorded]
  refine List.filterMap_congr fun pos _ => ?_
  split_ifs
  · rw [Option.map_map]
    exact congrFun Option.map_id _
  · rfl

/-- **The packet gets what the rounds store.** -/
lemma decodeTcpOptions_packet (hlen : len ≤ maxTcpoptlen) (n : ℕ) :
    (decodeTcpOptions n start len f s).2.packet =
      ((storedOptions f start s len n).map Prod.snd).foldl Packet.addOption s.packet := by
  have hloop := optionLoop_packet (f := f) (s := s) start hlen n 0
  rw [Nat.cast_zero, add_zero] at hloop
  rw [map_snd_storedOptions hlen, decodeTcpOptions, if_neg (Nat.not_lt.mpr hlen), hloop]

end Stored

/-! ### Options that lie in the area -/

/-- The bytes of an option read from `e.1` on lie in the area, and its length is
the one it says it has. -/
structure OptionInside (mem : Memory) (start : ℤ) (len : ℕ) (e : ℤ × TcpOption) : Prop where
  kind : start ≤ e.1 ∧ e.1 < start + len
  length : 2 ≤ e.2.type → e.1 + 1 < start + len
  value : ∀ v, e.2.value = some v → start ≤ v ∧ v + e.2.len ≤ start + len
  len_eq : (e.2.len : ℤ) = if e.2.type < 2 then 0 else (mem.byte (e.1 + 1) : ℤ) - 2

/-- How many bytes an option takes up. -/
def TcpOption.extent (o : TcpOption) : ℕ := if o.type < 2 then 1 else 2 + o.len

/-- All options lie in the area, each behind the one before it. -/
structure OptionsInside (mem : Memory) (start : ℤ) (len : ℕ) (l : List (ℤ × TcpOption)) :
    Prop where
  inside : ∀ e ∈ l, OptionInside mem start len e
  ordered : l.Pairwise fun a b => a.1 + (a.2.extent : ℤ) ≤ b.1

section Inside

variable {mem : Memory} {start : ℤ} {len pos n : ℕ} {o : TcpOption}

/-- An option at `pos` lies in the area exactly if its length byte is at least 2
and does not lead out of it. -/
lemma optionInside_iff (hpos : pos < len) (h : optionAt mem len (start + pos) = some o) :
    OptionInside mem start len (start + pos, o) ↔
      (2 ≤ mem.byte (start + pos) →
        2 ≤ mem.byte (start + pos + 1) ∧ pos + mem.byte (start + pos + 1) ≤ len) := by
  have hbyte := mem.byte_lt (start + pos + 1)
  obtain ⟨htype, ⟨hk, -, hlen, hvalue⟩ | ⟨hk, -, hlen, hvalue⟩⟩ := optionAt_cases h
  · refine iff_of_true ⟨⟨by omega, by omega⟩, fun h2 => ?_, fun v hv => ?_, ?_⟩ fun h2 => ?_
    · dsimp only at h2
      omega
    · dsimp only at hv
      rw [hvalue] at hv
      cases hv
    · dsimp only
      rw [hlen, htype, if_pos hk, Nat.cast_zero]
    · omega
  · constructor
    · rintro ⟨-, hlength, hval, heq⟩ -
      dsimp only at hlength hval heq
      rw [if_neg (by omega)] at heq
      have hlast := hlength (by omega)
      have hge : 2 ≤ mem.byte (start + pos + 1) := by omega
      by_cases hzero : o.len = 0
      · omega
      · rw [if_pos hzero] at hvalue
        have hend := (hval _ hvalue).2
        omega
    · intro hcond
      obtain ⟨hge, hle⟩ := hcond hk
      rw [usub_of_le hge (by omega)] at hlen
      refine ⟨⟨by omega, by omega⟩, fun _ => by omega, fun v hv => ?_, ?_⟩
      · dsimp only at hv ⊢
        rw [hvalue, Option.ite_none_right_eq_some, Option.some_inj] at hv
        omega
      · dsimp only
        rw [if_neg (by omega)]
        omega

/-- An option that lies in the area takes up the bytes the loop moves on by. -/
lemma extent_eq_jump {jump : ℕ} (hin : OptionInside mem start len (start + pos, o))
    (h : optionAt mem len (start + pos) = some o)
    (hjump : optJump mem len (start + pos) = some jump) : o.extent = jump := by
  have heq := hin.len_eq
  dsimp only at heq
  obtain ⟨htype, ⟨hk, hone, -, -⟩ | ⟨hk, hvar, -, -⟩⟩ := optionAt_cases h
  · rw [hjump, Option.some_inj] at hone
    rw [TcpOption.extent, htype, if_pos hk, hone]
  · rw [hjump, Option.some_inj] at hvar
    rw [htype, if_neg (by omega)] at heq
    rw [TcpOption.extent, htype, if_neg (by omega)]
    omega

/-- Every position is behind the option at every earlier one. -/
lemma positions_ordered (n : ℕ) : (chain (optNext mem start len) n 0).Pairwise fun p q : ℕ =>
    p ≤ q ∧ ∀ jump : ℕ, optJump mem len (start + p) = some jump → p + jump ≤ q := by
  have htrans : IsTrans ℕ fun p q : ℕ =>
      p ≤ q ∧ ∀ jump : ℕ, optJump mem len (start + p) = some jump → p + jump ≤ q :=
    ⟨fun p q r hpq hqr => ⟨hpq.1.trans hqr.1, fun jump hj => (hpq.2 jump hj).trans hqr.1⟩⟩
  refine List.isChain_iff_pairwise.mp ((chain_isChain n 0).imp fun p q hnext => ?_)
  rw [optNext, Option.ite_none_right_eq_some, Option.map_eq_some_iff] at hnext
  obtain ⟨-, jump, hjump, rfl⟩ := hnext
  refine ⟨Nat.le_add_right p jump, fun jump' hj => ?_⟩
  rw [hjump, Option.some_inj] at hj
  omega

/-- Options lie in the area exactly if every one past `NOP` that is looked at and
recorded has a length byte of at least 2 and ends in the area. -/
lemma optionsInside_iff {f : Frame} {s : Decoding} (hlen : len ≤ maxTcpoptlen)
    (hret : (decodeTcpOptions n start len f s).1 ≠ none) :
    OptionsInside f.mem start len (storedOptions f start s len n) ↔
      ∀ m, ∀ pos ∈ chain (optNext f.mem start len) m 0, pos < len →
        (optionAt f.mem len (start + pos)).isSome → 2 ≤ f.mem.byte (start + pos) →
          2 ≤ f.mem.byte (start + pos + 1) ∧ pos + f.mem.byte (start + pos + 1) ≤ len := by
  have hstop := (decodeTcpOptions_returns_iff hlen n).mp hret
  have hmem : ∀ e, e ∈ storedOptions f start s len n ↔
      ∃ pos ∈ chain (optNext f.mem start len) n 0, pos < len ∧
        ∃ o, optionAt f.mem len (start + pos) = some o ∧ (start + (pos : ℤ), o) = e := by
    intro e
    rw [storedOptions_eq hlen, List.mem_filterMap]
    refine exists_congr fun pos => and_congr_right fun _ => ?_
    rw [Option.ite_none_right_eq_some, Option.map_eq_some_iff]
  constructor
  · rintro ⟨hinside, -⟩ m pos hpos hlt hsome
    obtain ⟨o, ho⟩ := Option.isSome_iff_exists.mp hsome
    exact (optionInside_iff hlt ho).mp
      (hinside _ ((hmem _).mpr ⟨pos, hstop.mem_chain hpos, hlt, o, ho, rfl⟩))
  · intro hcond
    have hbytes : ∀ pos ∈ chain (optNext f.mem start len) n 0, pos < len →
        ∀ o, optionAt f.mem len (start + pos) = some o →
          OptionInside f.mem start len (start + pos, o) := by
      intro pos hpos hlt o ho
      exact (optionInside_iff hlt ho).mpr (hcond n pos hpos hlt (ho ▸ rfl))
    refine ⟨fun e he => ?_, ?_⟩
    · obtain ⟨pos, hpos, hlt, o, ho, rfl⟩ := (hmem e).mp he
      exact hbytes pos hpos hlt o ho
    · rw [storedOptions_eq hlen, List.pairwise_filterMap]
      refine (positions_ordered n).imp_of_mem fun {p q} hp _ hpq a ha b hb => ?_
      rw [Option.ite_none_right_eq_some, Option.map_eq_some_iff] at ha hb
      obtain ⟨hlt, o, ho, rfl⟩ := ha
      obtain ⟨-, o', -, rfl⟩ := hb
      obtain ⟨jump, hjump⟩ := optJump_isSome_of_optionAt ho
      have hle := hpq.2 jump hjump
      rw [extent_eq_jump (hbytes p hp hlt o ho) ho hjump]
      dsimp only
      omega

end Inside

/-- A TCP header whose options are three times `NOP` and a maximum segment size of
which only the kind is left; and four bytes of payload. -/
def sizeInPayload : Memory :=
  Memory.ofList [0, 7, 0, 8, 0, 0, 0, 1, 0, 0, 0, 0, 0x60, 0, 0, 0, 0, 0, 0, 0, 1, 1, 1, 2,
    4, 65, 66, 67]

/-- **An option outside its area**: its length and its value are payload. -/
theorem option_outside :
    (decodeTcp 5 0 28 ⟨sizeInPayload, ⟨.tcp, 0, 28⟩⟩ (.start default default)).1 =
        some (.ret 0) ∧
      (storedOptions ⟨sizeInPayload, ⟨.tcp, 0, 28⟩⟩ 20 (.start default default) 4 5).getLast? =
        some (23, ⟨2, 2, some 25⟩) ∧
      ¬ OptionsInside sizeInPayload 20 4
        (storedOptions ⟨sizeInPayload, ⟨.tcp, 0, 28⟩⟩ 20 (.start default default) 4 5) := by
  have hlast : (storedOptions ⟨sizeInPayload, ⟨.tcp, 0, 28⟩⟩ 20 (.start default default)
      4 5).getLast? = some (23, ⟨2, 2, some 25⟩) := by
    decide +kernel
  refine ⟨by decide +kernel, hlast, fun h => ?_⟩
  have hlength := (h.inside _ (List.mem_of_getLast? hlast)).length (by decide)
  exact absurd hlength (by decide)

end CLibrary
