import CLibrary.Packet.Headers

/-!
The loop of `decode_tcp_options`.

* `optJump`, `optNext`: how far a round moves and to which position, as
  functions of the bytes.  The chain of `optNext` is the list of positions the
  loop looks at.
* `optionAt`: the option a round records, as a function of the bytes.
  `optionAt_eq_none_iff` says where none is, and `TcpOption.seen` what is to be
  seen of one.
* `optionStep_spec`, `optionLoop_spec`: a round and the loop follow them, read
  the kind at every position and the length of every kind past `NOP`, and leave
  the window alone.
* `optStops_iff`: the loop comes to an end unless it gets to an option of
  variable length whose length byte is zero.
-/

namespace CLibrary

open Decode

/-! ### Positions -/

/-- The kind with a variable length. -/
def tcpoptSack : ℕ := 5

/-- How far a round at `addr` moves on, if it does not return. -/
def optJump (mem : Memory) (len : ℕ) (addr : ℤ) : Option ℕ :=
  let kind := mem.byte addr
  let size := mem.byte (addr + 1)
  if kind ≥ tcpoptMax then if len < size then some size else none
  else if tcpoptLenTbl.getD kind 0 = -1 then some size
  else if tcpoptLenTbl.getD kind 0 = 0 then some 1
  else if (size : ℤ) = tcpoptLenTbl.getD kind 0 then some size
  else none

/-- The stores to `tcp_option[tcpopt_count]`. -/
def Packet.addOption (p : Packet) (option : TcpOption) : Packet :=
  { p with
    tcpOption := Function.update p.tcpOption p.tcpoptCount option
    tcpoptCount := uadd 32 p.tcpoptCount 1 }

/-- `opt_len` of a kind that is `jump` long. -/
def optLen (kind jump : ℕ) : ℕ := if tcpoptLenTbl.getD kind 0 = 0 then 0 else usub 8 jump 2

/-- The option that a round at `addr` records, if it does. -/
def optionAt (mem : Memory) (len : ℕ) (addr : ℤ) : Option TcpOption :=
  let kind := mem.byte addr
  if kind < tcpoptMax then
    (optJump mem len addr).map fun jump =>
      ⟨kind, optLen kind jump, if optLen kind jump ≠ 0 then some (addr + 2) else none⟩
  else none

/-- At `a` is a kind that ends the loop and is not recorded: an unknown one, or one
of a fixed length whose length byte is another. -/
def EndsAt (mem : Memory) (a : ℤ) : Prop :=
  tcpoptMax ≤ mem.byte a ∨
    2 ≤ tcpoptLenTbl.getD (mem.byte a) 0 ∧ (mem.byte (a + 1) : ℤ) ≠ tcpoptLenTbl.getD (mem.byte a) 0

instance (mem : Memory) (a : ℤ) : Decidable (EndsAt mem a) :=
  inferInstanceAs (Decidable (_ ∨ _ ∧ _))

/-- The type, the length and the bytes of the value of a recorded option. -/
def TcpOption.seen (mem : Memory) (o : TcpOption) : ℕ × ℕ × List UInt8 :=
  (o.type, o.len, o.value.elim [] fun v => (List.range o.len).map fun i : ℕ => mem (v + i))

/-- The position after `pos` in an area of `len` bytes from `start` on. -/
def optNext (mem : Memory) (start : ℤ) (len pos : ℕ) : Option ℕ :=
  if pos < len then (optJump mem len (start + pos)).map fun jump => pos + jump else none

/-- The lengths of the known kinds: `EOL` and `NOP` have none, one is variable,
the others count the kind and the length byte. -/
lemma tcpoptLenTbl_cases : ∀ kind < tcpoptMax,
    (kind < 2 ∧ tcpoptLenTbl.getD kind 0 = 0) ∨
      (kind = tcpoptSack ∧ tcpoptLenTbl.getD kind 0 = -1) ∨
      (2 ≤ kind ∧ kind ≠ tcpoptSack ∧ 2 ≤ tcpoptLenTbl.getD kind 0) := by
  decide

section Positions

variable {mem : Memory} {start addr : ℤ} {len pos n : ℕ} {o : TcpOption}

/-- `EOL` and `NOP` are one byte long. -/
lemma optJump_single (hkind : mem.byte addr < tcpoptMax)
    (htbl : tcpoptLenTbl.getD (mem.byte addr) 0 = 0) : optJump mem len addr = some 1 := by
  have hmax : ¬ mem.byte addr ≥ tcpoptMax := Nat.not_le.mpr hkind
  rw [optJump, if_neg hmax, htbl, if_neg (by decide), if_pos rfl]

/-- A variable length is what its byte says. -/
lemma optJump_variable (hkind : mem.byte addr < tcpoptMax)
    (htbl : tcpoptLenTbl.getD (mem.byte addr) 0 = -1) :
    optJump mem len addr = some (mem.byte (addr + 1)) := by
  have hmax : ¬ mem.byte addr ≥ tcpoptMax := Nat.not_le.mpr hkind
  rw [optJump, if_neg hmax, htbl, if_pos rfl]

/-- A fixed length is what the table says, or the loop returns. -/
lemma optJump_fixed (hkind : mem.byte addr < tcpoptMax)
    (htbl : 2 ≤ tcpoptLenTbl.getD (mem.byte addr) 0) :
    optJump mem len addr = if (mem.byte (addr + 1) : ℤ) = tcpoptLenTbl.getD (mem.byte addr) 0 then
      some (mem.byte (addr + 1)) else none := by
  have hmax : ¬ mem.byte addr ≥ tcpoptMax := Nat.not_le.mpr hkind
  rw [optJump, if_neg hmax, if_neg (by omega), if_neg (by omega)]

variable (mem addr len) in
/-- What a round does at each kind. -/
lemma optJump_cases :
    (tcpoptMax ≤ mem.byte addr ∧ optJump mem len addr =
        if len < mem.byte (addr + 1) then some (mem.byte (addr + 1)) else none) ∨
      (mem.byte addr < 2 ∧ optJump mem len addr = some 1) ∨
      (mem.byte addr = tcpoptSack ∧ optJump mem len addr = some (mem.byte (addr + 1))) ∨
      (2 ≤ tcpoptLenTbl.getD (mem.byte addr) 0 ∧ optJump mem len addr =
        if (mem.byte (addr + 1) : ℤ) = tcpoptLenTbl.getD (mem.byte addr) 0 then
          some (mem.byte (addr + 1)) else none) := by
  by_cases h : mem.byte addr < tcpoptMax
  · rcases tcpoptLenTbl_cases _ h with ⟨hk, htbl⟩ | ⟨hk, htbl⟩ | ⟨-, -, htbl⟩
    · exact Or.inr (Or.inl ⟨hk, optJump_single h htbl⟩)
    · exact Or.inr (Or.inr (Or.inl ⟨hk, optJump_variable h htbl⟩))
    · exact Or.inr (Or.inr (Or.inr ⟨htbl, optJump_fixed h htbl⟩))
  · rw [Nat.not_lt] at h
    exact Or.inl ⟨h, by rw [optJump, if_pos h]⟩

/-- A round moves on, except at a variable length of zero. -/
lemma optJump_eq_zero_iff :
    optJump mem len addr = some 0 ↔ mem.byte addr = tcpoptSack ∧ mem.byte (addr + 1) = 0 := by
  have hmax : tcpoptMax = 9 := rfl
  have hsack : tcpoptSack = 5 := rfl
  rcases optJump_cases mem addr len with
    ⟨hk, h⟩ | ⟨hk, h⟩ | ⟨hk, h⟩ | ⟨htbl, h⟩
  · rw [h, Option.ite_none_right_eq_some, Option.some_inj]
    omega
  · rw [h, Option.some_inj]
    omega
  · rw [h, Option.some_inj]
    omega
  · rw [h, Option.ite_none_right_eq_some, Option.some_inj]
    constructor
    · omega
    · rintro ⟨hk, -⟩
      rw [hk] at htbl
      exact absurd htbl (by decide)

/-- **The loop ends** unless it gets to a variable length of zero. -/
theorem optStops_iff : (∃ n, Stops (optNext mem start len) n 0) ↔
    ∀ n, ∀ pos ∈ chain (optNext mem start len) n 0, pos < len →
      ¬ (mem.byte (start + pos) = tcpoptSack ∧ mem.byte (start + pos + 1) = 0) := by
  constructor
  · rintro ⟨m, hstop⟩ n pos hpos hlt hzero
    refine (hstop.of_mem_chain hpos).ne_self ?_
    rw [optNext, if_pos hlt, optJump_eq_zero_iff.mpr hzero]
    rfl
  · intro h
    refine ⟨_, stops_of_decreasing (μ := fun pos => len - pos) fun n pos hpos next hnext => ?_⟩
    rw [optNext, Option.ite_none_right_eq_some, Option.map_eq_some_iff] at hnext
    obtain ⟨hlt, jump, hjump, rfl⟩ := hnext
    have hne : jump ≠ 0 := by
      rintro rfl
      exact h n pos hpos hlt (optJump_eq_zero_iff.mp hjump)
    omega

/-- Behind the area there is no position. -/
lemma optNext_of_ge (h : len ≤ pos) : optNext mem start len pos = none :=
  if_neg (Nat.not_lt.mpr h)

lemma mem_chain_of_ge {q : ℕ} (h : len ≤ pos) (hq : q ∈ chain (optNext mem start len) n pos) :
    q = pos := by
  cases n with
  | zero => exact absurd hq List.not_mem_nil
  | succ n =>
      rw [chain_succ_none (optNext_of_ge h), List.mem_singleton] at hq
      exact hq

/-- Where nothing is recorded. -/
lemma optionAt_eq_none_iff : optionAt mem len addr = none ↔ EndsAt mem addr := by
  by_cases hmax : mem.byte addr < tcpoptMax
  · have hno : ¬ tcpoptMax ≤ mem.byte addr := Nat.not_le.mpr hmax
    rw [optionAt, if_pos hmax, Option.map_eq_none_iff, EndsAt, or_iff_right hno]
    rcases tcpoptLenTbl_cases _ hmax with ⟨-, htbl⟩ | ⟨-, htbl⟩ | ⟨-, -, htbl⟩
    · rw [optJump_single hmax htbl, htbl]
      exact iff_of_false (Option.some_ne_none 1) fun h => absurd h.1 (by decide)
    · rw [optJump_variable hmax htbl, htbl]
      exact iff_of_false (Option.some_ne_none _) fun h => absurd h.1 (by decide)
    · rw [optJump_fixed hmax htbl, and_iff_right htbl, ite_eq_right_iff]
      exact forall_congr' fun _ => iff_false_intro (Option.some_ne_none _)
  · rw [optionAt, if_neg hmax]
    exact iff_of_true rfl (.inl (Nat.not_lt.mp hmax))

/-- What is recorded at a place: one byte of a kind below 2, or the kind, the
length byte and the value. -/
lemma optionAt_cases (h : optionAt mem len addr = some o) :
    o.type = mem.byte addr ∧
      (mem.byte addr < 2 ∧ optJump mem len addr = some 1 ∧ o.len = 0 ∧ o.value = none ∨
        2 ≤ mem.byte addr ∧ optJump mem len addr = some (mem.byte (addr + 1)) ∧
          o.len = usub 8 (mem.byte (addr + 1)) 2 ∧
          o.value = if o.len ≠ 0 then some (addr + 2) else none) := by
  rw [optionAt, Option.ite_none_right_eq_some, Option.map_eq_some_iff] at h
  obtain ⟨hmax, jump, hjump, rfl⟩ := h
  refine ⟨rfl, ?_⟩
  dsimp only
  rcases tcpoptLenTbl_cases _ hmax with ⟨hk, htbl⟩ | ⟨hk, htbl⟩ | ⟨hk, -, htbl⟩
  · have hone : optJump mem len addr = some 1 := optJump_single hmax htbl
    have hzero : optLen (mem.byte addr) jump = 0 := by rw [optLen, htbl, if_pos rfl]
    exact Or.inl ⟨hk, hone, hzero, by rw [hzero, if_neg (not_not.mpr rfl)]⟩
  · have hvar : optJump mem len addr = _ := optJump_variable hmax htbl
    have hjump' : jump = mem.byte (addr + 1) := Option.some.inj (hjump.symm.trans hvar)
    have hlen : optLen (mem.byte addr) jump = usub 8 (mem.byte (addr + 1)) 2 := by
      rw [optLen, htbl, if_neg (by decide), hjump']
    exact Or.inr ⟨by rw [hk]; decide, hvar, hlen, rfl⟩
  · have hfix : optJump mem len addr = _ := optJump_fixed hmax htbl
    rw [hjump, eq_comm, Option.ite_none_right_eq_some, Option.some_inj] at hfix
    have hlen : optLen (mem.byte addr) jump = usub 8 (mem.byte (addr + 1)) 2 := by
      rw [optLen, if_neg (by omega), hfix.2]
    exact Or.inr ⟨hk, hjump.trans (by rw [hfix.2]), hlen, rfl⟩

end Positions

/-! ### Rounds -/

section Rounds

variable {f : Frame} {s : Decoding} {len pos : ℕ}

lemma Effect.trans {s s₁ s₂ : Decoding} {l₁ l₂ : List Access} {m₁ m₂ : List (ℕ × ℕ)} {a₁ a₂ : ℤ}
    {n₁ n₂ : ℕ} (h₁ : Effect s s₁ l₁ m₁ a₁ n₁) (h₂ : Effect s₁ s₂ l₂ m₂ a₂ n₂) :
    Effect s s₂ (l₁ ++ l₂) (m₁ ++ m₂) a₂ n₂ := by
  refine ⟨?_, ?_, h₂.calls.trans h₁.calls, h₂.payload, h₂.paysize⟩
  · rw [h₂.reads, h₁.reads, List.append_assoc]
  · rw [h₂.subs, h₁.subs, List.append_assoc]

/-- The `switch` on the expected length, with `opt_len`: it reads the length past
`NOP`. -/
lemma optionLens_spec {addr : ℤ} {depth : ℕ} (hmax : f.mem.byte addr < tcpoptMax)
    (hdepth : usub 32 len depth > 0) :
    ∃ l s', optionLens len addr depth (tcpoptLenTbl.getD (f.mem.byte addr) 0) f s =
        (some ((optJump f.mem len addr).map fun jump => (jump, optLen (f.mem.byte addr) jump)),
          s') ∧
      s'.packet = s.packet ∧ Effect s s' l [] s.packet.payload s.packet.paysize ∧
      ∀ r, r ∈ l ↔ 2 ≤ f.mem.byte addr ∧ r = ⟨f.call, addr + 1, 1⟩ := by
  have hread : Effect s { s with reads := s.reads ++ [⟨f.call, addr + 1, 1⟩] }
      [⟨f.call, addr + 1, 1⟩] [] s.packet.payload s.packet.paysize :=
    ⟨rfl, (List.append_nil _).symm, rfl, rfl, rfl⟩
  simp only [optionLens, run_ite, readByte_bind, optLen]
  rw [if_neg (not_not.mpr hdepth)]
  rcases tcpoptLenTbl_cases _ hmax with ⟨hk, htbl⟩ | ⟨hk, htbl⟩ | ⟨hk, -, htbl⟩
  · rw [optJump_single hmax htbl, htbl, if_neg (by decide), if_pos rfl]
    exact ⟨[], s, rfl, rfl, .refl, fun r => by simp; omega⟩
  · rw [optJump_variable hmax htbl, htbl, if_pos rfl]
    exact ⟨_, _, rfl, rfl, hread, fun r => by simp [hk, tcpoptSack]⟩
  · have hvar : tcpoptLenTbl.getD (f.mem.byte addr) 0 ≠ -1 := by omega
    have hzero : tcpoptLenTbl.getD (f.mem.byte addr) 0 ≠ 0 := by omega
    rw [optJump_fixed hmax htbl, if_neg hvar, if_neg hzero, if_neg (not_not.mpr hdepth)]
    by_cases heq : (f.mem.byte (addr + 1) : ℤ) = tcpoptLenTbl.getD (f.mem.byte addr) 0
    · rw [if_neg (not_not.mpr heq), if_pos heq, Option.map_some, if_neg hzero]
      exact ⟨_, _, rfl, rfl, hread, fun r => by simp [hk]⟩
    · rw [if_pos heq, if_neg heq]
      exact ⟨_, _, rfl, rfl, hread, fun r => by simp [hk]⟩

/-- **A round**: it moves on as `optJump` says, records what `optionAt` says, and
reads the kind and, past `NOP`, the length. -/
lemma optionStep_spec (start : ℤ) (hpos : pos < len) (hlen : len ≤ maxTcpoptlen) :
    ∃ l s', optionStep len (start + pos) pos f s = (some (optJump f.mem len (start + pos)), s') ∧
      s'.packet = (optionAt f.mem len (start + pos)).elim s.packet s.packet.addOption ∧
      Effect s s' l [] s.packet.payload s.packet.paysize ∧
      ∀ r, r ∈ l ↔ r = ⟨f.call, start + pos, 1⟩ ∨
        2 ≤ f.mem.byte (start + pos) ∧ r = ⟨f.call, start + pos + 1, 1⟩ := by
  have hdepth : usub 32 len pos > 0 := by
    rw [maxTcpoptlen] at hlen
    rw [usub_of_le (Nat.le_of_lt hpos) (by omega)]
    omega
  simp only [optionStep, readByte_bind, run_ite, optionAt]
  generalize start + (pos : ℤ) = addr
  by_cases hmax : f.mem.byte addr ≥ tcpoptMax
  · -- an unknown kind
    have hkind : 2 ≤ f.mem.byte addr := le_trans (by decide) hmax
    rw [if_pos hmax, if_neg (not_not.mpr hdepth), if_neg (Nat.not_lt.mpr hmax)]
    refine ⟨[⟨f.call, addr, 1⟩, ⟨f.call, addr + 1, 1⟩],
      { s with reads := s.reads ++ [⟨f.call, addr, 1⟩] ++ [⟨f.call, addr + 1, 1⟩] }, ?_, rfl,
      ⟨?_, ?_, rfl, rfl, rfl⟩, fun r => ?_⟩
    · rw [optJump, if_pos hmax]
      split_ifs <;> rfl
    · rw [List.append_assoc]
      rfl
    · rw [List.append_nil]
    · simp [hkind]
  · -- a known kind
    rw [if_neg hmax, if_pos (Nat.not_le.mp hmax)]
    obtain ⟨l, s', hlens, hpacket, heff, hmem⟩ := optionLens_spec (f := f)
      (s := { s with reads := s.reads ++ [⟨f.call, addr, 1⟩] ++ [⟨f.call, addr, 1⟩] })
      (Nat.not_le.mp hmax) hdepth
    have hkind : Effect s { s with reads := s.reads ++ [⟨f.call, addr, 1⟩] ++ [⟨f.call, addr, 1⟩] }
        [⟨f.call, addr, 1⟩, ⟨f.call, addr, 1⟩] [] s.packet.payload s.packet.paysize :=
      ⟨by rw [List.append_assoc]; rfl, (List.append_nil _).symm, rfl, rfl, rfl⟩
    rw [bind_of_some hlens]
    cases optJump f.mem len addr with
    | none =>
        refine ⟨_, s', rfl, hpacket, hkind.trans heff, fun r => ?_⟩
        rw [List.mem_append, hmem]
        simp
    | some jump =>
        have hadd : Effect s' (addOption addr (f.mem.byte addr)
            (optLen (f.mem.byte addr) jump) f
            { s' with reads := s'.reads ++ [⟨f.call, addr, 1⟩] }).2 [⟨f.call, addr, 1⟩] []
            s.packet.payload s.packet.paysize :=
          ⟨rfl, (List.append_nil _).symm, rfl, heff.payload, heff.paysize⟩
        refine ⟨_, _, rfl, congrArg (Packet.addOption · _) hpacket,
          (hkind.trans heff).trans hadd, fun r => ?_⟩
        rw [List.mem_append, List.mem_append, hmem]
        simp only [List.mem_cons, List.not_mem_nil, or_false]
        tauto

/-- The position after `pos`, as the loop computes it. -/
lemma uadd_jump {jump : ℕ} (hpos : pos < len) (hlen : len ≤ maxTcpoptlen) {addr : ℤ}
    (hjump : optJump f.mem len addr = some jump) : uadd 32 pos jump = pos + jump := by
  have hlt := f.mem.byte_lt (addr + 1)
  rw [maxTcpoptlen] at hlen
  refine uadd_of_lt ?_
  rcases optJump_cases f.mem addr len with
    ⟨-, h⟩ | ⟨-, h⟩ | ⟨-, h⟩ | ⟨-, h⟩
  · rw [h, Option.ite_none_right_eq_some, Option.some_inj] at hjump
    omega
  · rw [h, Option.some_inj] at hjump
    omega
  · rw [h, Option.some_inj] at hjump
    omega
  · rw [h, Option.ite_none_right_eq_some, Option.some_inj] at hjump
    omega

/-- **The loop**: it ends as the chain of positions does, and reads the kind
and, past `NOP`, the length at every one of them. -/
lemma optionLoop_spec (start : ℤ) (hlen : len ≤ maxTcpoptlen) (fuel pos : ℕ) :
    ∃ l, let out := optionLoop start len fuel (start + pos) pos f s
      (out.1 ≠ none ↔ Stops (optNext f.mem start len) fuel pos) ∧
      Effect s out.2 l [] s.packet.payload s.packet.paysize ∧
      ∀ r, r ∈ l ↔ ∃ q ∈ chain (optNext f.mem start len) fuel pos, q < len ∧
        (r = ⟨f.call, start + q, 1⟩ ∨
          2 ≤ f.mem.byte (start + q) ∧ r = ⟨f.call, start + q + 1, 1⟩) := by
  induction fuel generalizing pos s with
  | zero =>
      refine ⟨[], ?_, .refl, fun r => ?_⟩
      · exact iff_of_false (not_not.mpr rfl) id
      · simp [chain]
  | succ fuel ih =>
      rw [optionLoop, run_ite]
      by_cases hpos : pos < len
      · rw [if_pos (by omega)]
        obtain ⟨l, s', hstep, -, heff, hmem⟩ := optionStep_spec (f := f) (s := s) start
          hpos hlen
        rw [bind_of_some hstep]
        cases hjump : optJump f.mem len (start + pos) with
        | none =>
            have hnext : optNext f.mem start len pos = none := by
              rw [optNext, if_pos hpos, hjump, Option.map_none]
            refine ⟨l, ?_, heff, fun r => ?_⟩
            · refine iff_of_true (Option.some_ne_none _) fun b hb => ?_
              rw [hnext] at hb
              cases hb
            · rw [chain_succ_none hnext, hmem]
              simp [hpos]
        | some jump =>
            have hnext : optNext f.mem start len pos = some (pos + jump) := by
              rw [optNext, if_pos hpos, hjump, Option.map_some]
            obtain ⟨l', hiff, heff', hmem'⟩ := ih (s := s') (pos + jump)
            have haddr : start + (pos : ℤ) + (jump : ℤ) = start + ((pos + jump : ℕ) : ℤ) := by
              push_cast
              ring
            dsimp only
            rw [uadd_jump hpos hlen hjump, haddr]
            rw [heff.payload, heff.paysize] at heff'
            refine ⟨l ++ l', ?_, heff.trans heff', fun r => ?_⟩
            · rw [hiff]
              constructor
              · intro h b hb
                rw [hnext] at hb
                exact Option.some.inj hb ▸ h
              · intro h
                exact h _ hnext
            · rw [chain_succ_some hnext, List.mem_append, hmem, hmem']
              simp [hpos]
      · have hnext : optNext f.mem start len pos = none := by rw [optNext, if_neg hpos]
        rw [if_neg (by omega)]
        refine ⟨[], ?_, .refl, fun r => ?_⟩
        · refine iff_of_true (Option.some_ne_none _) fun b hb => ?_
          rw [hnext] at hb
          cases hb
        · rw [chain_succ_none hnext]
          simp [hpos]

end Rounds

/-! ### The options of a header -/

namespace Call

variable (mem : Memory) (c : Call)

/-- `start` of the options of a TCP header. -/
def optStart : ℤ := c.pkt + c.tcpHlen mem - c.tcpOptlen mem

/-- The position after `pos` in the options of a TCP header. -/
def optNext (pos : ℕ) : Option ℕ := CLibrary.optNext mem (c.optStart mem) (c.tcpOptlen mem) pos

/-- The loop over the options is entered. -/
def LoopsOptions : Prop :=
  sizeofTcphdr ≤ c.len ∧ c.tcpOptlen mem ≠ 0 ∧ c.tcpOptlen mem ≤ maxTcpoptlen

end Call

/-- **A TCP header** that is not too short: the decoder returns 0 if the loop
over the options ends. -/
lemma decodeTcp_spec {mem : Memory} {c : Call} {s : Decoding} (h : sizeofTcphdr ≤ c.len)
    (fuel : ℕ) :
    ∃ l, let out := decodeTcp fuel c.pkt c.len ⟨mem, c⟩ s
      (out.1 = none ∨ out.1 = some (.ret 0)) ∧
      (out.1 ≠ none ↔ (c.LoopsOptions mem → Stops (c.optNext mem) fuel 0)) ∧
      Effect s out.2 ([⟨c, c.pkt + 12, 1⟩, ⟨c, c.pkt, 2⟩, ⟨c, c.pkt + 2, 2⟩] ++ l)
        [(s.packet.paysize, c.tcpHlen mem)] (s.packet.payload + c.tcpHlen mem)
        (usub 32 s.packet.paysize (c.tcpHlen mem)) ∧
      ∀ r, r ∈ l ↔ c.LoopsOptions mem ∧ ∃ q ∈ chain (c.optNext mem) fuel 0,
        q < c.tcpOptlen mem ∧ (r = ⟨c, c.optStart mem + q, 1⟩ ∨
          2 ≤ mem.byte (c.optStart mem + q) ∧ r = ⟨c, c.optStart mem + q + 1, 1⟩) := by
  obtain ⟨s', htcp, heff⟩ := decodeTcp_long mem (s := s) fuel h
  rw [htcp]
  by_cases hloop : c.LoopsOptions mem
  · obtain ⟨-, hne, hle⟩ := hloop
    obtain ⟨l, hiff, heff', hmem⟩ := optionLoop_spec (f := ⟨mem, c⟩) (s := s')
      (c.optStart mem) hle fuel 0
    have hopt : decodeTcpOptions fuel (c.pkt + c.tcpHlen mem - c.tcpOptlen mem) (c.tcpOptlen mem)
        ⟨mem, c⟩ s' = optionLoop (c.optStart mem) (c.tcpOptlen mem) fuel
          (c.optStart mem + (0 : ℕ)) 0 ⟨mem, c⟩ s' := by
      rw [decodeTcpOptions, if_neg (Nat.not_lt.mpr hle), Nat.cast_zero, add_zero]
      rfl
    rw [if_pos hne, hopt]
    generalize optionLoop (c.optStart mem) (c.tcpOptlen mem) fuel (c.optStart mem + (0 : ℕ)) 0
      ⟨mem, c⟩ s' = out at hiff heff'
    rw [heff.payload, heff.paysize] at heff'
    refine ⟨l, ?_, ?_, heff.trans heff', fun r => ?_⟩
    · rcases out with ⟨_ | _, s''⟩
      · exact Or.inl rfl
      · exact Or.inr rfl
    · rw [ne_eq, Option.map_eq_none_iff]
      exact hiff.trans ⟨fun hstop _ => hstop, fun hstop => hstop ⟨h, hne, hle⟩⟩
    · exact (hmem r).trans ⟨fun hr => ⟨⟨h, hne, hle⟩, hr⟩, And.right⟩
  · -- no options, or more than fit
    have hopt : (if c.tcpOptlen mem ≠ 0 then
          let r := decodeTcpOptions fuel (c.pkt + c.tcpHlen mem - c.tcpOptlen mem) (c.tcpOptlen mem)
            ⟨mem, c⟩ s'
          (r.1.map fun _ => Outcome.ret 0, r.2)
        else (some (.ret 0), s')) = (some (.ret 0), s') := by
      split_ifs with hne
      · have hlong : c.tcpOptlen mem > maxTcpoptlen := by
          by_contra hle
          exact hloop ⟨h, hne, Nat.not_lt.mp hle⟩
        rw [decodeTcpOptions, if_pos hlong]
        rfl
      · rfl
    rw [hopt]
    refine ⟨[], Or.inr rfl, ?_, ?_, fun r => ?_⟩
    · exact iff_of_true (Option.some_ne_none _) fun hl => absurd hl hloop
    · rwa [List.append_nil]
    · exact iff_of_false List.not_mem_nil fun hr => hloop hr.1

end CLibrary
