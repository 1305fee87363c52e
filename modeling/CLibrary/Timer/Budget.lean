import CLibrary.Timer.Queue
import CLibrary.Timer.Rounds

/-!
The callback budget of a check.

* `Postpones`: two checks at one time with budgets `m` and `n` come to the one
  check with budget `m + n`.
* `queue_postpones`: a queue timer always postpones what its budget does not
  cover.
* `wheel_drops_ticks`: a wheel does not.  The check that stops at its budget
  still sets `last_check_relative_tick` to the present, so the rounds it did not
  make are lost.
* `budget_postpones_iff`: a wheel postpones exactly when the first check is not
  stopped, or the second one has no budget.
-/

namespace CLibrary

open TimerWheel

variable {ε : Type*}

/-- Two checks at `current_time` with budgets `m` and `n` run what the one with
budget `m + n` runs, in the same order, and leave the same timer. -/
def Postpones {τ : Type*} (check : τ → ℕ → ℕ → Option (List (TimerElem ε) × τ)) (timer : τ)
    (currentTime m n : ℕ) : Prop :=
  checkThen (fun timer => check timer currentTime m) (fun timer => check timer currentTime n)
    timer = check timer currentTime (m + n)

/-! ### The queue -/

/-- One callback of the count and one of the budget make no difference. -/
lemma queueLoop_shift (currentTime maxCbTimes : ℕ) (q : List (TimerElem ε)) (cbCnt : ℕ) :
    ZxTimer.queueLoop currentTime (maxCbTimes + 1) q (cbCnt + 1) =
      ZxTimer.queueLoop currentTime maxCbTimes q cbCnt := by
  induction q generalizing cbCnt with
  | nil => rfl
  | cons e rest ih =>
      rw [ZxTimer.queueLoop, ZxTimer.queueLoop, ih]
      simp only [ge_iff_le, Nat.add_le_add_iff_right]

/-- The loop without budget. -/
lemma queueLoop_zero (currentTime : ℕ) (q : List (TimerElem ε)) :
    ZxTimer.queueLoop currentTime 0 q 0 = (q, []) := by
  cases q with
  | nil => rfl
  | cons e rest =>
      rw [ZxTimer.queueLoop]
      exact if_pos (Nat.zero_le 0)

/-- The loop with budget, at its head. -/
lemma queueLoop_succ (currentTime m : ℕ) (e : TimerElem ε) (rest : List (TimerElem ε)) :
    ZxTimer.queueLoop currentTime (m + 1) (e :: rest) 0 =
      if currentTime < e.expire then (e :: rest, [])
      else
        let r := ZxTimer.queueLoop currentTime m rest 0
        (r.1, e :: r.2) := by
  rw [ZxTimer.queueLoop, queueLoop_shift]
  exact if_neg (by omega)

/-- The loop stopped at its budget goes on where it stopped. -/
lemma queueLoop_add (currentTime m n : ℕ) (q : List (TimerElem ε)) :
    ZxTimer.queueLoop currentTime (m + n) q 0 =
      let r := ZxTimer.queueLoop currentTime m q 0
      let r' := ZxTimer.queueLoop currentTime n r.1 0
      (r'.1, r.2 ++ r'.2) := by
  induction q generalizing m with
  | nil => rfl
  | cons e rest ih =>
      cases m with
      | zero =>
          rw [Nat.zero_add, queueLoop_zero]
          rfl
      | succ m =>
          rw [show m + 1 + n = m + n + 1 by omega, queueLoop_succ, queueLoop_succ]
          split_ifs with hexp
          · -- the head is not due, for the second check as for the first
            dsimp only
            cases n with
            | zero => rw [queueLoop_zero, List.nil_append]
            | succ n => rw [queueLoop_succ, if_pos hexp, List.nil_append]
          · rw [ih]
            rfl

/-- **A queue timer postpones** whatever its budget does not cover. -/
lemma queue_postpones (timer : ZxTimer (TimerQueue ε)) (currentTime m n : ℕ) :
    Postpones (fun timer t k => some (ZxTimer.checkQueue timer t k)) timer currentTime m n := by
  rw [Postpones, checkThen, Option.bind_some, Option.map_some, ZxTimer.checkQueue_eq,
    ZxTimer.checkQueue_eq, ZxTimer.checkQueue_eq, queueLoop_add]
  dsimp only
  rw [ZxTimer.countDown_iterate_with, List.length_append, Nat.add_comm,
    Function.iterate_add_apply]

/-! ### The wheel -/

/-- A second check adds nothing, so two checks come to the first one. -/
lemma checkThen_wheel {timer : ZxTimer (TimerWheel ε)}
    (hspoke : timer.inner.spokeIndex < timer.inner.wheelSize) (currentTime m n : ℕ) :
    checkThen (fun timer => timer.checkWheel currentTime m)
      (fun timer => timer.checkWheel currentTime n) timer = timer.checkWheel currentTime m := by
  rw [checkThen]
  cases hr : timer.checkWheel currentTime m with
  | none => rfl
  | some r =>
      rw [Option.bind_some, ZxTimer.checkWheel_again hspoke hr n, Option.map_some,
        List.append_nil]

/-- **A wheel drops ticks**: of two elements due at once, the check that stops
after the first leaves the second for a tick that no later check makes. -/
theorem wheel_drops_ticks :
    ∃ (timer : ZxTimer (TimerWheel Unit)) (s : WheelRun Unit),
      ZxTimer.createWheel 1 = some timer ∧
      Run WheelOp.step (fun _ a => a.InRange) (WheelRun.start timer) [.add 0 0 (), .add 0 0 ()] s ∧
      s.wheel.lastCheckTime ≤ 1 ∧ ¬ Postpones ZxTimer.checkWheel s.timer 1 1 1 := by
  have hcreate : ZxTimer.createWheel (ε := Unit) 1 =
      some ⟨⟨1, ulongMax, 0, ulongMax, fun _ => []⟩, 0, 80⟩ := by
    rfl
  have hrun : (exec (fun s a => if WheelOp.InRange a then WheelOp.step s a else none)
      (WheelRun.start ⟨⟨1, ulongMax, 0, ulongMax, fun _ => []⟩, 0, 80⟩)
      [.add 0 0 (), .add 0 0 ()]).map
      (fun s => (s.wheel.lastCheckTime,
        (checkThen (fun timer => timer.checkWheel 1 1) (fun timer => timer.checkWheel 1 1)
          s.timer).map fun r => r.1.map TimerElem.id,
        (s.timer.checkWheel 1 2).map fun r => r.1.map TimerElem.id)) =
        some (0, some [0], some [0, 1]) := by
    decide +kernel
  obtain ⟨s, hs, heq⟩ := Option.map_eq_some_iff.mp hrun
  rw [Prod.mk.injEq, Prod.mk.injEq] at heq
  obtain ⟨hlast, htwice, honce⟩ := heq
  refine ⟨_, s, hcreate, run_of_exec_guarded hs, hlast.le.trans zero_le_one, fun h => ?_⟩
  rw [Postpones] at h
  rw [h, honce] at htwice
  exact absurd htwice (by decide)

/-- The first check is not stopped, or the second one has no budget. -/
def Spent (wheel : TimerWheel ε) (currentTime m n : ℕ) : Prop :=
  wheel.createTime = ulongMax ∨ n = 0 ∨
    wheel.dueBy 0 (min (wheel.tickCnt currentTime) (2 ^ 31)) ≤ m

/-- **A wheel postpones exactly when nothing is left to postpone.** -/
lemma wheel_postpones_iff {timer : ZxTimer (TimerWheel ε)} (h : WheelOk timer.inner)
    (currentTime m n : ℕ) :
    Postpones ZxTimer.checkWheel timer currentTime m n ↔ Spent timer.inner currentTime m n := by
  rw [Postpones, checkThen_wheel h.spoke, Spent]
  by_cases hcreate : timer.inner.createTime = ulongMax
  · -- a wheel that is not started does nothing
    refine iff_of_true ?_ (Or.inl hcreate)
    rw [ZxTimer.checkWheel, ZxTimer.checkWheel]
    dsimp only
    rw [if_pos hcreate, if_pos hcreate]
  · have hdue := rounds_length (k := 0) (min (timer.inner.tickCnt currentTime) (2 ^ 31)) h.spoke
      h.size_lt
    rw [Nat.zero_add] at hdue
    rw [← hdue]
    constructor
    · intro heq
      by_contra hcon
      rw [not_or, not_or, not_le] at hcon
      obtain ⟨-, hn, hlt⟩ := hcon
      obtain ⟨r, hr, hlen⟩ := ZxTimer.checkWheel_of_lt hcreate hlt
      rw [hr] at heq
      rcases Nat.lt_or_ge (m + n)
        (rounds (min (timer.inner.tickCnt currentTime) (2 ^ 31)) timer.inner).2.length with
        hmn | hmn
      · -- both are stopped, with different budgets spent
        obtain ⟨r', hr', hlen'⟩ := ZxTimer.checkWheel_of_lt hcreate hmn
        rw [hr'] at heq
        obtain rfl := Option.some.inj heq
        omega
      · -- the single check makes all its rounds
        rw [ZxTimer.checkWheel_of_le hcreate hmn] at heq
        split_ifs at heq with hint
        obtain rfl := Option.some.inj heq
        rw [ZxTimer.caughtUp, ← min_eq_left (le_of_lt (not_le.mp hint))] at hlen
        dsimp only at hlen
        omega
    · rintro (hnot | rfl | hle)
      · exact absurd hnot hcreate
      · rfl
      · rw [ZxTimer.checkWheel_of_le hcreate hle, ZxTimer.checkWheel_of_le hcreate (by omega)]

/-- **The budget of a check**: a queue timer postpones whatever its budget does
not cover.  A wheel does so exactly when it is not started, the second check has
no budget, or no more than `m` elements are due in the ticks up to
`current_time`. -/
theorem budget_postpones_iff :
    (∀ (timer : ZxTimer (TimerQueue ε)) (currentTime m n : ℕ),
      Postpones (fun timer t k => some (ZxTimer.checkQueue timer t k)) timer currentTime m n) ∧
    ∀ (wheelSize : ℕ) (timer : ZxTimer (TimerWheel ε)) (as : List (WheelOp ε)) (s : WheelRun ε),
      ZxTimer.createWheel wheelSize = some timer →
      Run WheelOp.step (fun _ a => a.InRange) (WheelRun.start timer) as s →
      ∀ currentTime m n : ℕ,
        Postpones ZxTimer.checkWheel s.timer currentTime m n ↔ Spent s.wheel currentTime m n :=
  ⟨queue_postpones, fun _ _ _ _ hcreate hrun => wheel_postpones_iff (wheelOk_of_run hcreate hrun)⟩

/-- Two elements due at once, and a budget for both. -/
theorem budget_postpones_two :
    ∃ (timer : ZxTimer (TimerWheel Unit)) (s : WheelRun Unit),
      ZxTimer.createWheel 1 = some timer ∧
      Run WheelOp.step (fun _ a => a.InRange) (WheelRun.start timer) [.add 0 0 (), .add 0 0 ()] s ∧
      Postpones ZxTimer.checkWheel s.timer 1 2 5 := by
  have hcreate : ZxTimer.createWheel (ε := Unit) 1 =
      some ⟨⟨1, ulongMax, 0, ulongMax, fun _ => []⟩, 0, 80⟩ := by
    rfl
  have hrun : (exec (fun s a => if WheelOp.InRange a then WheelOp.step s a else none)
      (WheelRun.start ⟨⟨1, ulongMax, 0, ulongMax, fun _ => []⟩, 0, 80⟩)
      [.add 0 0 (), .add 0 0 ()]).map
      (fun s => s.wheel.dueBy 0 (min (s.wheel.tickCnt 1) (2 ^ 31))) = some 2 := by
    decide +kernel
  obtain ⟨s, hs, hdue⟩ := Option.map_eq_some_iff.mp hrun
  have hreach := run_of_exec_guarded hs
  exact ⟨_, s, hcreate, hreach,
    (budget_postpones_iff.2 1 _ _ s hcreate hreach 1 2 5).mpr (Or.inr (Or.inr hdue.le))⟩

end CLibrary
