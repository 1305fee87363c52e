import CLibrary.Timer.Rounds

/-!
Catching up equals ticking.

* `queueLoop_of_le`, `checkQueue_catchUp`: a queue whose budget suffices runs
  the front of its list that has timed out, so an earlier check on the way makes
  no difference.
* `caughtUp_then`, `checkWheel_catchUp`: a wheel whose budget suffices makes all
  its rounds, and the rounds up to `t₂` are those up to `t₁` and those from
  there.
* `catch_up_eq_ticking`: for both timers, a check at `t₁` and one at `t₂` come
  to the one at `t₂`.
-/

namespace CLibrary

open TimerWheel

variable {ε : Type*}

/-! ### The queue -/

/-- The budget suffices: the loop takes what has timed out off the front. -/
lemma queueLoop_of_le {maxCbTimes : ℕ} (currentTime : ℕ) {q : List (TimerElem ε)} {cbCnt : ℕ}
    (h : cbCnt + q.length ≤ maxCbTimes) :
    ZxTimer.queueLoop currentTime maxCbTimes q cbCnt =
      (q.dropWhile fun e => e.expire ≤ currentTime,
        q.takeWhile fun e => e.expire ≤ currentTime) := by
  induction q generalizing cbCnt with
  | nil => rfl
  | cons e rest ih =>
      rw [List.length_cons] at h
      rw [ZxTimer.queueLoop, if_neg (by omega), ih (by omega), List.dropWhile_cons,
        List.takeWhile_cons]
      by_cases hexp : currentTime < e.expire
      · simp only [hexp, if_true, not_le.mpr hexp, decide_false, Bool.false_eq_true, if_false]
      · simp only [hexp, if_false, not_lt.mp hexp, decide_true, if_true]

section Front

variable {α : Type*} {p p' : α → Bool}

/-- The front that meets the weaker condition, taken in two parts. -/
lemma takeWhile_append_takeWhile (h : ∀ e, p e = true → p' e = true) (q : List α) :
    q.takeWhile p ++ (q.dropWhile p).takeWhile p' = q.takeWhile p' := by
  induction q with
  | nil => rfl
  | cons e rest ih =>
      cases hp : p e with
      | false => rw [List.takeWhile_cons_of_neg (by simp [hp]),
          List.dropWhile_cons_of_neg (by simp [hp]), List.nil_append]
      | true => rw [List.takeWhile_cons_of_pos hp, List.dropWhile_cons_of_pos hp,
          List.takeWhile_cons_of_pos (h e hp), List.cons_append, ih]

lemma dropWhile_dropWhile (h : ∀ e, p e = true → p' e = true) (q : List α) :
    (q.dropWhile p).dropWhile p' = q.dropWhile p' := by
  induction q with
  | nil => rfl
  | cons e rest ih =>
      cases hp : p e with
      | false => rw [List.dropWhile_cons_of_neg (by simp [hp])]
      | true => rw [List.dropWhile_cons_of_pos hp, List.dropWhile_cons_of_pos (h e hp), ih]

end Front

/-- **The queue catches up**: a check on the way to `t₂` makes no difference. -/
lemma checkQueue_catchUp {timer : ZxTimer (TimerQueue ε)} {t₁ t₂ m₁ m₂ m : ℕ} (ht : t₁ ≤ t₂)
    (h₁ : timer.inner.queue.length ≤ m₁)
    (h₂ : (timer.checkQueue t₁ m₁).2.inner.queue.length ≤ m₂)
    (h : timer.inner.queue.length ≤ m) :
    checkThen (fun timer => some (timer.checkQueue t₁ m₁))
      (fun timer => some (timer.checkQueue t₂ m₂)) timer = some (timer.checkQueue t₂ m) := by
  have himp : ∀ e : TimerElem ε, decide (e.expire ≤ t₁) = true → decide (e.expire ≤ t₂) = true := by
    intro e he
    rw [decide_eq_true_eq] at he ⊢
    omega
  rw [ZxTimer.checkQueue_eq, queueLoop_of_le t₁ (by omega)] at h₂
  rw [checkThen, Option.bind_some, Option.map_some, ZxTimer.checkQueue_eq,
    ZxTimer.checkQueue_eq, ZxTimer.checkQueue_eq, queueLoop_of_le t₁ (by omega),
    queueLoop_of_le t₂ (by rw [Nat.zero_add]; exact h₂), queueLoop_of_le t₂ (by omega)]
  dsimp only
  rw [ZxTimer.countDown_iterate_with, takeWhile_append_takeWhile himp, dropWhile_dropWhile himp,
    ← Function.iterate_add_apply, Nat.add_comm, ← List.length_append,
    takeWhile_append_takeWhile himp]

/-! ### The wheel -/

/-- The rounds up to `t₁` and the rounds from there to `t₂`. -/
lemma caughtUp_then {timer : ZxTimer (TimerWheel ε)} {t₁ t₂ : ℕ} (h : WheelOk timer.inner)
    (hlast : timer.inner.lastCheckTime ≤ t₁) (ht : t₁ ≤ t₂) (hmax : t₂ ≤ ulongMax) :
    timer.caughtUp t₂ =
      ((timer.caughtUp t₁).1 ++ ((timer.caughtUp t₁).2.caughtUp t₂).1,
        ((timer.caughtUp t₁).2.caughtUp t₂).2) := by
  have hcount : timer.inner.tickCnt t₂ = timer.inner.tickCnt t₁ + (t₂ - t₁) := by
    rw [tickCnt_eq h (hlast.trans ht) hmax, tickCnt_eq h hlast (ht.trans hmax)]
    omega
  have hrest := tickCnt_caughtUp h (timer.inner.tickCnt t₁) ht hmax
  simp only [ZxTimer.caughtUp, hcount, hrest, rounds_add, rounds_checkedAt, checkedAt_checkedAt,
    ZxTimer.countDown_iterate_with, List.length_append]
  rw [Nat.add_comm, Function.iterate_add_apply]

/-- The elements a check runs were linked. -/
lemma rounds_length_le {wheel : TimerWheel ε} (h : WheelOk wheel) (n : ℕ) :
    (rounds n wheel).2.length ≤ wheel.linked.length := by
  calc (rounds n wheel).2.length = wheel.dueBy 0 (0 + n) := rounds_length n h.spoke h.size_lt
    _ ≤ wheel.linked.length := dueBy_le_linked wheel 0 (0 + n)

/-- A check with a budget for all linked elements. -/
lemma checkWheel_of_linked {timer : ZxTimer (TimerWheel ε)} {currentTime maxCbTimes : ℕ}
    (h : WheelOk timer.inner) (hcreate : timer.inner.createTime ≠ ulongMax)
    (hint : timer.inner.tickCnt currentTime < 2 ^ 31)
    (hbudget : timer.inner.linked.length ≤ maxCbTimes) :
    timer.checkWheel currentTime maxCbTimes = some (timer.caughtUp currentTime) := by
  rw [ZxTimer.checkWheel_of_le hcreate ((rounds_length_le h _).trans hbudget),
    if_neg (not_le.mpr hint)]

/-- **The wheel catches up**: a check on the way to `t₂` makes no difference. -/
lemma checkWheel_catchUp {timer : ZxTimer (TimerWheel ε)} {t₁ t₂ m₁ m₂ m : ℕ}
    (h : WheelOk timer.inner)
    (hlast : timer.inner.createTime ≠ ulongMax → timer.inner.lastCheckTime ≤ t₁) (ht : t₁ ≤ t₂)
    (hmax : t₂ ≤ ulongMax)
    (hint : timer.inner.createTime ≠ ulongMax → timer.inner.tickCnt t₂ < 2 ^ 31)
    (h₁ : timer.inner.linked.length ≤ m₁)
    (h₂ : ∀ r, timer.checkWheel t₁ m₁ = some r → r.2.inner.linked.length ≤ m₂)
    (h' : timer.inner.linked.length ≤ m) :
    checkThen (fun timer => timer.checkWheel t₁ m₁) (fun timer => timer.checkWheel t₂ m₂) timer =
      timer.checkWheel t₂ m ∧ (timer.checkWheel t₂ m).isSome := by
  by_cases hcreate : timer.inner.createTime = ulongMax
  · -- a wheel that is not started stays as it is
    have hidle : ∀ t b, timer.checkWheel t b = some ([], timer) := by
      intro t b
      rw [ZxTimer.checkWheel]
      exact if_pos hcreate
    rw [checkThen, hidle, hidle, Option.bind_some, hidle, Option.map_some]
    exact ⟨rfl, rfl⟩
  · replace hlast := hlast hcreate
    replace hint := hint hcreate
    have hcount := tickCnt_eq h (hlast.trans ht) hmax
    have hint₁ : timer.inner.tickCnt t₁ < 2 ^ 31 := by
      rw [tickCnt_eq h hlast (ht.trans hmax)]
      omega
    have hfirst := checkWheel_of_linked h hcreate hint₁ h₁
    have hok := h.check hfirst
    have hrest : (timer.caughtUp t₁).2.inner.tickCnt t₂ = t₂ - t₁ :=
      tickCnt_caughtUp h (timer.inner.tickCnt t₁) ht hmax
    have hcreate₁ : (timer.caughtUp t₁).2.inner.createTime ≠ ulongMax := by
      rw [ZxTimer.caughtUp, checkedAt_createTime, rounds_createTime]
      exact hcreate
    have hsecond := checkWheel_of_linked hok hcreate₁ (by rw [hrest]; omega) (h₂ _ hfirst)
    rw [checkThen, hfirst, Option.bind_some, hsecond, Option.map_some,
      checkWheel_of_linked h hcreate hint h', caughtUp_then h hlast ht hmax]
    exact ⟨rfl, rfl⟩

/-- **Catching up equals ticking**: for both timers, in every state, a check at
`t₁` and a check at `t₂` run what the check at `t₂` runs, in the same order, and
leave the same timer, when every budget covers the elements linked and the ticks
fit in an `int`. -/
theorem catch_up_eq_ticking :
    (∀ (timer : ZxTimer (TimerQueue ε)) (t₁ t₂ m₁ m₂ m : ℕ), t₁ ≤ t₂ →
      timer.inner.queue.length ≤ m₁ → (timer.checkQueue t₁ m₁).2.inner.queue.length ≤ m₂ →
      timer.inner.queue.length ≤ m →
      checkThen (fun timer => some (timer.checkQueue t₁ m₁))
        (fun timer => some (timer.checkQueue t₂ m₂)) timer = some (timer.checkQueue t₂ m)) ∧
    ∀ (wheelSize : ℕ) (timer : ZxTimer (TimerWheel ε)) (as : List (WheelOp ε)) (s : WheelRun ε),
      ZxTimer.createWheel wheelSize = some timer →
      Run WheelOp.step (fun _ a => a.InRange) (WheelRun.start timer) as s →
      ∀ t₁ t₂ m₁ m₂ m : ℕ,
        (s.wheel.createTime ≠ ulongMax → s.wheel.lastCheckTime ≤ t₁) → t₁ ≤ t₂ →
        t₂ ≤ ulongMax → (s.wheel.createTime ≠ ulongMax → s.wheel.tickCnt t₂ < 2 ^ 31) →
        s.wheel.linked.length ≤ m₁ →
        (∀ r, s.timer.checkWheel t₁ m₁ = some r → r.2.inner.linked.length ≤ m₂) →
        s.wheel.linked.length ≤ m →
        checkThen (fun timer => timer.checkWheel t₁ m₁) (fun timer => timer.checkWheel t₂ m₂)
          s.timer = s.timer.checkWheel t₂ m ∧ (s.timer.checkWheel t₂ m).isSome :=
  ⟨fun _ _ _ _ _ _ => checkQueue_catchUp, fun _ _ _ _ hcreate hrun _ _ _ _ _ =>
    checkWheel_catchUp (wheelOk_of_run hcreate hrun)⟩

/-- A queue of one element, and a wheel of six spokes with an element in its
first turn and one in its second. -/
theorem catch_up_of_six :
    checkThen (fun timer => some (ZxTimer.checkQueue timer 3 1))
        (fun timer => some (ZxTimer.checkQueue timer 9 1))
        (⟨⟨5, [⟨0, 5, 0, 0, ()⟩]⟩, 1, 112⟩ : ZxTimer (TimerQueue Unit)) =
      some (ZxTimer.checkQueue ⟨⟨5, [⟨0, 5, 0, 0, ()⟩]⟩, 1, 112⟩ 9 1) ∧
    ∃ (timer : ZxTimer (TimerWheel Unit)) (s : WheelRun Unit),
      ZxTimer.createWheel 6 = some timer ∧
      Run WheelOp.step (fun _ a => a.InRange) (WheelRun.start timer) [.add 0 2 (), .add 0 8 ()] s ∧
      s.wheel.linked.length = 2 ∧
      checkThen (fun timer => timer.checkWheel 3 2) (fun timer => timer.checkWheel 9 2) s.timer =
        s.timer.checkWheel 9 2 := by
  have hrun : (exec (fun s a => if WheelOp.InRange a then WheelOp.step s a else none)
      (WheelRun.start wheelOfSix)
      [.add 0 2 (), .add 0 8 ()]).map
      (fun s => (s.wheel.linked.length, s.wheel.lastCheckTime, s.wheel.tickCnt 9,
        (s.timer.checkWheel 3 2).map fun r => r.2.inner.linked.length)) =
        some (2, 0, 9, some 1) := by
    decide +kernel
  obtain ⟨s, hs, heq⟩ := Option.map_eq_some_iff.mp hrun
  rw [Prod.mk.injEq, Prod.mk.injEq, Prod.mk.injEq] at heq
  obtain ⟨hlinked, hlast, hticks, hrest⟩ := heq
  have hreach := run_of_exec_guarded hs
  refine ⟨catch_up_eq_ticking.1 _ 3 9 1 1 1 (by omega) (by decide) (by decide) (by decide),
    _, s, createWheel_six, hreach, hlinked, ?_⟩
  refine (catch_up_eq_ticking.2 6 _ _ s createWheel_six hreach 3 9 2 2 2 (fun _ => by omega)
    (by omega) (by decide) (fun _ => by rw [hticks]; decide) hlinked.le (fun r hr => ?_)
    hlinked.le).1
  rw [hr, Option.map_some, Option.some_inj] at hrest
  omega

end CLibrary
