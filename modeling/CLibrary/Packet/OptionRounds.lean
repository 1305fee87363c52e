import CLibrary.Packet.Fill

/-!
The loop of `decode_tcp_options`, round by round.

* `OptionState`, `optionRound`: the loop between two rounds, and a round of it.
  The chain of `optionRound` is the list of states the loop goes through
  (`optionLoop_of_round`, `optionLoop_returns_iff`), and `map_depth_rounds` says
  that their depths are the positions of `optNext`.
* `OptionsEnd`: the loop returns, and every round that does not end it moves on.
* `options_end_iff`: the areas on which it does.
* `sack_of_no_length`: four bytes of options on which it does not.
-/

namespace CLibrary

open Decode

/-- The loop over the options between two rounds. -/
structure OptionState where
  optStart : ℤ
  depth : ℕ
  decoding : Decoding

/-- The state behind a round, unless the loop ends in front of it or in it. -/
def optionRound (f : Frame) (start : ℤ) (len : ℕ) (q : OptionState) : Option OptionState :=
  if q.optStart < start + len then
    match optionStep len q.optStart q.depth f q.decoding with
    | (some (some jmpLen), s) => some ⟨q.optStart + jmpLen, uadd 32 q.depth jmpLen, s⟩
    | _ => none
  else none

section Rounds

variable {f : Frame} {start : ℤ} {len : ℕ} {q q' : OptionState} {s : Decoding}

/-- **The loop makes the rounds**, one for each unit of fuel. -/
lemma optionLoop_of_round (h : optionRound f start len q = some q') (fuel : ℕ) :
    optionLoop start len (fuel + 1) q.optStart q.depth f q.decoding =
      optionLoop start len fuel q'.optStart q'.depth f q'.decoding := by
  rw [optionRound, Option.ite_none_right_eq_some] at h
  obtain ⟨hlt, h⟩ := h
  rw [optionLoop, run_ite, if_pos hlt]
  split at h
  · next jmpLen s hstep =>
      obtain rfl := Option.some.inj h
      rw [bind_of_some hstep]
  · cases h

/-- `opt_start` is `depth` bytes behind the start of the area. -/
def OptionState.At (start : ℤ) (q : OptionState) : Prop := q.optStart = start + q.depth

/-- A round moves on by `optJump` and records `optionAt`. -/
lemma optionRound_spec (hq : q.At start) (hlen : len ≤ maxTcpoptlen) (hlt : q.depth < len) :
    ∃ s, optionRound f start len q = (optJump f.mem len (start + q.depth)).map
        (fun jump => ⟨start + (q.depth + jump : ℕ), q.depth + jump, s⟩) ∧
      s.packet = (optionAt f.mem len (start + q.depth)).elim q.decoding.packet
        q.decoding.packet.addOption := by
  obtain ⟨l, s, hstep, hpacket, -, -⟩ := optionStep_spec (f := f) (s := q.decoding) start hlt hlen
  refine ⟨s, ?_, hpacket⟩
  rw [OptionState.At] at hq
  rw [optionRound, hq, if_pos (by omega), hstep]
  cases hjump : optJump f.mem len (start + q.depth) with
  | none => rfl
  | some jump =>
      dsimp only
      rw [uadd_jump hlt hlen hjump, Option.map_some, Nat.cast_add, add_assoc]

/-- Behind the area there is no round. -/
lemma optionRound_of_le (hq : q.At start) (hle : len ≤ q.depth) :
    optionRound f start len q = none := by
  rw [OptionState.At] at hq
  rw [optionRound, if_neg (by omega)]

/-- A round leads from a position to the next one. -/
lemma optNext_depth (hq : q.At start) (hlen : len ≤ maxTcpoptlen) :
    optNext f.mem start len q.depth = (optionRound f start len q).map OptionState.depth := by
  by_cases hlt : q.depth < len
  · obtain ⟨s, hround, -⟩ := optionRound_spec (f := f) hq hlen hlt
    rw [hround, optNext, if_pos hlt, Option.map_map]
    rfl
  · rw [optionRound_of_le hq (Nat.not_lt.mp hlt), optNext, if_neg hlt, Option.map_none]

/-- Every round ends `depth` bytes behind the start of the area. -/
lemma at_of_round (hlen : len ≤ maxTcpoptlen) (hq : q.At start)
    (h : optionRound f start len q = some q') : q'.At start := by
  by_cases hlt : q.depth < len
  · obtain ⟨s, hround, -⟩ := optionRound_spec (f := f) hq hlen hlt
    rw [hround, Option.map_eq_some_iff] at h
    obtain ⟨jump, -, rfl⟩ := h
    exact rfl
  · rw [optionRound_of_le hq (Nat.not_lt.mp hlt)] at h
    cases h

variable (f start s) in
/-- The states the loop goes through, from its first round on. -/
def optionRounds (len n : ℕ) : List OptionState :=
  chain (optionRound f start len) n ⟨start, 0, s⟩

lemma at_start : (⟨start, 0, s⟩ : OptionState).At start := by
  rw [OptionState.At, Nat.cast_zero, add_zero]

/-- The states are all in the area or right behind it. -/
lemma at_of_mem_rounds (hlen : len ≤ maxTcpoptlen) {n : ℕ}
    (hq : q ∈ optionRounds f start s len n) : q.At start :=
  forall_chain (p := OptionState.At start) at_start (fun _ _ hq h => at_of_round hlen hq h) n q hq

/-- **The depths of the states** are the positions of the options. -/
lemma map_depth_rounds (hlen : len ≤ maxTcpoptlen) (n : ℕ) :
    (optionRounds f start s len n).map OptionState.depth = chain (optNext f.mem start len) n 0 :=
  map_chain (I := OptionState.At start) at_start (fun _ _ hq h => at_of_round hlen hq h)
    (fun _ hq => optNext_depth hq hlen) n

/-- Where no round leads on the loop returns. -/
lemma optionLoop_of_last (hlen : len ≤ maxTcpoptlen) (hq : q.At start)
    (h : optionRound f start len q = none) (fuel : ℕ) :
    (optionLoop start len (fuel + 1) q.optStart q.depth f q.decoding).1 ≠ none := by
  rw [optionLoop, run_ite]
  rw [OptionState.At] at hq
  split_ifs with hlt
  · obtain ⟨l, s, hstep, -, -, -⟩ :=
      optionStep_spec (f := f) (s := q.decoding) start (by omega : q.depth < len) hlen
    rw [← hq] at hstep
    rw [bind_of_some hstep]
    rw [optionRound, if_pos hlt, hstep] at h
    cases hjump : optJump f.mem len q.optStart with
    | none => exact Option.some_ne_none ()
    | some jump => rw [hjump] at h; cases h
  · exact Option.some_ne_none ()

/-- **The loop returns when its rounds come to an end**, by induction on the fuel. -/
lemma optionLoop_returns_iff (hlen : len ≤ maxTcpoptlen) (hq : q.At start) (n : ℕ) :
    (optionLoop start len n q.optStart q.depth f q.decoding).1 ≠ none ↔
      Stops (optionRound f start len) n q := by
  induction n generalizing q with
  | zero => exact iff_of_false (not_not.mpr rfl) id
  | succ n ih =>
      cases hround : optionRound f start len q with
      | none =>
          refine iff_of_true (optionLoop_of_last hlen hq hround n) fun q' hq' => ?_
          rw [hround] at hq'
          cases hq'
      | some q' =>
          rw [optionLoop_of_round hround, ih (at_of_round hlen hq hround)]
          refine ⟨fun h b hb => ?_, fun h => h q' hround⟩
          rw [hround] at hb
          exact Option.some.inj hb ▸ h

/-- The rounds come to an end where the positions do. -/
lemma stops_optionRound_iff (hlen : len ≤ maxTcpoptlen) (hq : q.At start) (n : ℕ) :
    Stops (optionRound f start len) n q ↔ Stops (optNext f.mem start len) n q.depth :=
  stops_map_iff (I := OptionState.At start) hq (fun _ _ hq h => at_of_round hlen hq h)
    (fun _ hq => optNext_depth hq hlen) n

/-- `decode_tcp_options` returns when the positions come to an end. -/
lemma decodeTcpOptions_returns_iff (hlen : len ≤ maxTcpoptlen) (n : ℕ) :
    (decodeTcpOptions n start len f s).1 ≠ none ↔ Stops (optNext f.mem start len) n 0 := by
  rw [decodeTcpOptions, if_neg (Nat.not_lt.mpr hlen)]
  exact (optionLoop_returns_iff (q := ⟨start, 0, s⟩) hlen at_start n).trans
    (stops_optionRound_iff hlen at_start n)

/-- An area that is too long is not looked at. -/
lemma decodeTcpOptions_of_gt (hlen : maxTcpoptlen < len) (n : ℕ) :
    decodeTcpOptions n start len f s = (some (), s) := by
  rw [decodeTcpOptions, if_pos hlen, pure_apply]

end Rounds

/-! ### Termination -/

/-- `decode_tcp_options` returns, and every round of its loop that does not end
it moves `opt_start` on. -/
structure OptionsEnd (f : Frame) (start : ℤ) (len : ℕ) (s : Decoding) : Prop where
  returns : ∃ n, (decodeTcpOptions n start len f s).1 ≠ none
  advances : len ≤ maxTcpoptlen → ∀ n, ∀ q ∈ optionRounds f start s len n, ∀ q',
    optionRound f start len q = some q' → q.optStart + 1 ≤ q'.optStart

/-- **When the option loop ends**: on every area, exactly if it is too long to be
looked at or its options lead to none of the variable length kind with length
byte zero. -/
theorem options_end_iff (f : Frame) (start : ℤ) (len : ℕ) (s : Decoding) :
    OptionsEnd f start len s ↔
      (len ≤ maxTcpoptlen → ∀ n, ∀ pos ∈ chain (optNext f.mem start len) n 0, pos < len →
        ¬ (f.mem.byte (start + pos) = tcpoptSack ∧ f.mem.byte (start + pos + 1) = 0)) := by
  constructor
  · rintro ⟨hret, -⟩ hlen
    simp only [decodeTcpOptions_returns_iff hlen] at hret
    exact optStops_iff.mp hret
  · intro h
    by_cases hlen : len ≤ maxTcpoptlen
    · refine ⟨?_, fun _ n q hq q' hround => ?_⟩
      · simp only [decodeTcpOptions_returns_iff hlen]
        exact optStops_iff.mpr (h hlen)
      · -- the position the round leads to is not the one it comes from
        have hat := at_of_mem_rounds hlen hq
        have hpos : q.depth ∈ chain (optNext f.mem start len) n 0 := by
          rw [← map_depth_rounds (s := s) hlen]
          exact List.mem_map_of_mem hq
        by_cases hlt : q.depth < len
        · obtain ⟨s', hspec, -⟩ := optionRound_spec (f := f) hat hlen hlt
          rw [hspec, Option.map_eq_some_iff] at hround
          obtain ⟨jump, hjump, rfl⟩ := hround
          have hne : jump ≠ 0 := by
            rintro rfl
            exact h hlen n q.depth hpos hlt (optJump_eq_zero_iff.mp hjump)
          rw [OptionState.At] at hat
          rw [hat]
          push_cast
          omega
        · rw [optionRound_of_le hat (Nat.not_lt.mp hlt)] at hround
          cases hround
    · exact ⟨⟨0, by rw [decodeTcpOptions_of_gt (Nat.not_le.mp hlen)]; exact Option.some_ne_none _⟩,
        fun hle => absurd hle hlen⟩

/-- A TCP header with four bytes of options, the first of variable length zero. -/
def sackOfNoLength : Memory :=
  Memory.ofList [0, 7, 0, 8, 0, 0, 0, 1, 0, 0, 0, 0, 0x60, 0, 0, 0, 0, 0, 0, 0, 5, 0, 0, 0]

/-- **Options that never end**: neither `decode_tcp_options` nor `decode_tcp`
returns. -/
theorem sack_of_no_length :
    (∀ n, (decodeTcp n 0 24 ⟨sackOfNoLength, ⟨.tcp, 0, 24⟩⟩ (.start default default)).1 = none) ∧
      ¬ OptionsEnd ⟨sackOfNoLength, ⟨.tcp, 0, 24⟩⟩ 20 4 (.start default default) := by
  have hstuck : ∀ n, ¬ Stops (optNext sackOfNoLength 20 4) n 0 := by
    intro n hstop
    exact hstop.ne_self (by decide +kernel)
  constructor
  · intro n
    obtain ⟨l, -, hiff, -⟩ := @decodeTcp_spec sackOfNoLength ⟨.tcp, 0, 24⟩
      (.start default default) (by decide) n
    have hstart : (⟨.tcp, 0, 24⟩ : Call).optStart sackOfNoLength = 20 := by decide +kernel
    have hlen : (⟨.tcp, 0, 24⟩ : Call).tcpOptlen sackOfNoLength = 4 := by decide +kernel
    have hnext : (⟨.tcp, 0, 24⟩ : Call).optNext sackOfNoLength = optNext sackOfNoLength 20 4 := by
      funext pos
      rw [Call.optNext, hstart, hlen]
    have hloop : (⟨.tcp, 0, 24⟩ : Call).LoopsOptions sackOfNoLength := by decide +kernel
    by_contra hret
    exact hstuck n (hnext ▸ hiff.mp hret hloop)
  · rintro ⟨⟨n, hret⟩, -⟩
    exact hstuck n ((decodeTcpOptions_returns_iff (by decide) n).mp hret)

end CLibrary
