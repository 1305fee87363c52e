import CLibrary.Timer.Wheel

/-!
The rounds of a wheel check, with no budget in the way.

* `rounds`: what a number of rounds leaves and runs when nothing cuts them.
  Rounds compose (`rounds_add`).
* `tickLoop_of_le`, `tickLoop_of_lt`: the loop of `zx_timer_check` makes all its
  rounds when its budget covers what they run, and is cut with its budget spent
  when it does not.
* `dueBy`: how many linked elements are due before a tick, read off their spokes
  and rotation counts.  `rounds_length`: as many as the rounds run.
* `WheelOk`, `wheelOk_of_run`: the bounds that hold in every state of every run
  whose arguments are of type `unsigned long`.
* `checkThen`: two checks in a row.
-/

namespace CLibrary

variable {ε : Type*}

namespace TimerWheel

/-! ### Rounds -/

/-- The elements of a spoke that a visit runs. -/
def due (l : List (TimerElem ε)) : List (TimerElem ε) := l.filter fun e => e.rotationCnt = 0

/-- The elements of a spoke that a visit passes over, after it. -/
def later (l : List (TimerElem ε)) : List (TimerElem ε) :=
  (l.filter fun e => e.rotationCnt ≠ 0).map decr

/-- One round: the spoke visited loses what is due. -/
def round (wheel : TimerWheel ε) : TimerWheel ε :=
  wheel.ticked (later (wheel.spokes wheel.spokeIndex))

/-- `n` rounds: the wheel after them and the elements run. -/
def rounds : ℕ → TimerWheel ε → TimerWheel ε × List (TimerElem ε)
  | 0, wheel => (wheel, [])
  | n + 1, wheel =>
      let r := rounds n wheel.round
      (r.1, due (wheel.spokes wheel.spokeIndex) ++ r.2)

@[simp] lemma round_wheelSize (wheel : TimerWheel ε) : wheel.round.wheelSize = wheel.wheelSize :=
  ticked_wheelSize

@[simp] lemma round_createTime (wheel : TimerWheel ε) :
    wheel.round.createTime = wheel.createTime := ticked_createTime

@[simp] lemma rounds_wheelSize (n : ℕ) (wheel : TimerWheel ε) :
    (rounds n wheel).1.wheelSize = wheel.wheelSize := by
  induction n generalizing wheel with
  | zero => rfl
  | succ n ih => rw [rounds, ih, round_wheelSize]

@[simp] lemma rounds_createTime (n : ℕ) (wheel : TimerWheel ε) :
    (rounds n wheel).1.createTime = wheel.createTime := by
  induction n generalizing wheel with
  | zero => rfl
  | succ n ih => rw [rounds, ih, round_createTime]

/-- **Rounds compose**: `a` rounds and then `b` rounds run what `a + b` rounds
run, in the same order, and leave the same wheel. -/
lemma rounds_add (a b : ℕ) (wheel : TimerWheel ε) :
    rounds (a + b) wheel =
      ((rounds b (rounds a wheel).1).1, (rounds a wheel).2 ++ (rounds b (rounds a wheel).1).2) := by
  induction a generalizing wheel with
  | zero => rw [Nat.zero_add, rounds, List.nil_append]
  | succ a ih => rw [Nat.succ_add, rounds, ih, rounds, List.append_assoc]

/-- The wheel with its last check at `current_time`. -/
def checkedAt (wheel : TimerWheel ε) (currentTime : ℕ) : TimerWheel ε :=
  { wheel with lastCheckRelativeTick := usub 64 currentTime wheel.createTime }

@[simp] lemma checkedAt_createTime (wheel : TimerWheel ε) (t : ℕ) :
    (wheel.checkedAt t).createTime = wheel.createTime := rfl

@[simp] lemma checkedAt_checkedAt (wheel : TimerWheel ε) (t t' : ℕ) :
    (wheel.checkedAt t).checkedAt t' = wheel.checkedAt t' := rfl

/-- The rounds do not read when the last check was. -/
lemma rounds_checkedAt (n t : ℕ) (wheel : TimerWheel ε) :
    rounds n (wheel.checkedAt t) = ((rounds n wheel).1.checkedAt t, (rounds n wheel).2) := by
  induction n generalizing wheel with
  | zero => rfl
  | succ n ih =>
      have hround : (wheel.checkedAt t).round = wheel.round.checkedAt t := rfl
      rw [rounds, rounds, hround, ih]
      rfl

/-! ### The loop and its budget -/

/-- A walk whose budget does not cover what is due is cut with the budget
spent. -/
lemma walkSpoke_of_lt {maxCbTimes : ℕ} {l : List (TimerElem ε)} {cbCnt : ℕ}
    (hle : cbCnt ≤ maxCbTimes) (h : maxCbTimes < cbCnt + (due l).length) :
    (walkSpoke maxCbTimes l cbCnt).cut = true ∧
      cbCnt + (walkSpoke maxCbTimes l cbCnt).fired.length = maxCbTimes := by
  induction l generalizing cbCnt with
  | nil => exact absurd h (by rw [due, List.filter_nil, List.length_nil]; omega)
  | cons e rest ih =>
      rw [walkSpoke]
      by_cases he : e.rotationCnt = 0
      · rw [if_neg (not_not.mpr he)]
        rw [due, List.filter_cons_of_pos (by simpa using he), List.length_cons] at h
        split_ifs with hcut
        · exact ⟨rfl, by rw [List.length_nil]; omega⟩
        · have hrest : maxCbTimes < cbCnt + 1 + (due rest).length := by
            rw [due]
            omega
          obtain ⟨hc, hl⟩ := ih (by omega) hrest
          exact ⟨hc, by rw [List.length_cons]; omega⟩
      · rw [if_pos he]
        rw [due, List.filter_cons_of_neg (by simpa using he)] at h
        exact ih hle h

/-- A round whose spoke the budget covers. -/
lemma tickLoop_succ_of_le {maxCbTimes n : ℕ} {wheel : TimerWheel ε} {cbCnt : ℕ}
    (h : cbCnt + (due (wheel.spokes wheel.spokeIndex)).length ≤ maxCbTimes) :
    tickLoop maxCbTimes (n + 1) wheel cbCnt =
      let r := tickLoop maxCbTimes n wheel.round
        (cbCnt + (due (wheel.spokes wheel.spokeIndex)).length)
      { r with fired := due (wheel.spokes wheel.spokeIndex) ++ r.fired } := by
  rw [tickLoop, walkSpoke_uncut h]
  rfl

/-- The budget covers what the rounds run: the loop makes them all. -/
lemma tickLoop_of_le {maxCbTimes : ℕ} (n : ℕ) {wheel : TimerWheel ε} {cbCnt : ℕ}
    (h : cbCnt + (rounds n wheel).2.length ≤ maxCbTimes) :
    tickLoop maxCbTimes n wheel cbCnt = ⟨(rounds n wheel).1, (rounds n wheel).2, false⟩ := by
  induction n generalizing wheel cbCnt with
  | zero => rfl
  | succ n ih =>
      rw [rounds, List.length_append] at h
      have hrest : cbCnt + (due (wheel.spokes wheel.spokeIndex)).length +
          (rounds n wheel.round).2.length ≤ maxCbTimes := by omega
      rw [tickLoop_succ_of_le (by omega), ih hrest, rounds]

/-- The budget does not cover what the rounds run: the loop is cut with the
budget spent. -/
lemma tickLoop_of_lt {maxCbTimes : ℕ} (n : ℕ) {wheel : TimerWheel ε} {cbCnt : ℕ}
    (hle : cbCnt ≤ maxCbTimes) (h : maxCbTimes < cbCnt + (rounds n wheel).2.length) :
    (tickLoop maxCbTimes n wheel cbCnt).cut = true ∧
      cbCnt + (tickLoop maxCbTimes n wheel cbCnt).fired.length = maxCbTimes := by
  induction n generalizing wheel cbCnt with
  | zero => exact absurd h (by rw [rounds, List.length_nil]; omega)
  | succ n ih =>
      rw [rounds, List.length_append] at h
      by_cases hspoke : cbCnt + (due (wheel.spokes wheel.spokeIndex)).length ≤ maxCbTimes
      · -- this spoke is walked to its end, and a later one is not
        have hrest : maxCbTimes < cbCnt + (due (wheel.spokes wheel.spokeIndex)).length +
            (rounds n wheel.round).2.length := by omega
        obtain ⟨hc, hl⟩ := ih hspoke hrest
        rw [tickLoop_succ_of_le hspoke]
        exact ⟨hc, by rw [List.length_append]; omega⟩
      · obtain ⟨hc, hl⟩ := walkSpoke_of_lt hle (not_le.mp hspoke)
        rw [tickLoop, if_pos hc]
        exact ⟨rfl, hl⟩

/-! ### How many elements are due -/

/-- How many linked elements are due before tick `t`, when tick `k` is the next
one. -/
def dueBy (wheel : TimerWheel ε) (k t : ℕ) : ℕ :=
  ∑ c ∈ Finset.range wheel.wheelSize,
    (wheel.spokes c).countP fun e => 0 ≤ e.rotationCnt ∧ wheel.dueTick k c e < t

/-- No more elements are due than are linked. -/
lemma dueBy_le_linked (wheel : TimerWheel ε) (k t : ℕ) : wheel.dueBy k t ≤ wheel.linked.length := by
  calc wheel.dueBy k t ≤ ∑ c ∈ Finset.range wheel.wheelSize, (wheel.spokes c).length :=
        Finset.sum_le_sum fun c _ => List.countP_le_length
    _ = wheel.linked.length := by rw [linked, List.length_flatMap]; rfl

section Due

variable {wheel : TimerWheel ε} {k t : ℕ}

/-- On the spoke visited: what is due now, and what is due later. -/
lemma countP_visited (hspoke : wheel.spokeIndex < wheel.wheelSize)
    (hsize : wheel.wheelSize < 2 ^ 64) (ht : k < t) (l : List (TimerElem ε)) :
    (l.countP fun e => 0 ≤ e.rotationCnt ∧ wheel.dueTick k wheel.spokeIndex e < t) =
      (due l).length + (later l).countP fun e =>
        0 ≤ e.rotationCnt ∧ wheel.round.dueTick (k + 1) wheel.spokeIndex e < t := by
  induction l with
  | nil => rfl
  | cons e rest ih =>
      rw [List.countP_cons, ih, due, later, due, later]
      rcases lt_trichotomy e.rotationCnt 0 with hneg | hzero | hpos
      · -- a negative count never comes to zero
        have hd : ¬ 0 ≤ (decr e).rotationCnt := by
          change ¬ 0 ≤ e.rotationCnt - 1
          omega
        rw [List.filter_cons_of_neg (by simpa using hneg.ne),
          List.filter_cons_of_pos (by simpa using hneg.ne), List.map_cons, List.countP_cons]
        simp [hneg.not_ge, hd]
      · have hnow : wheel.dueTick k wheel.spokeIndex e = k :=
          (dueTick_self_iff hspoke hzero.ge).mpr hzero
        rw [List.filter_cons_of_pos (by simpa using hzero),
          List.filter_cons_of_neg (by simpa using hzero), List.length_cons, hnow]
        simp only [hzero.ge, ht, and_self, decide_true, if_true]
        omega
      · have hd : 0 ≤ (decr e).rotationCnt := by
          change 0 ≤ e.rotationCnt - 1
          omega
        have htick : wheel.round.dueTick (k + 1) wheel.spokeIndex (decr e) =
            wheel.dueTick k wheel.spokeIndex e := dueTick_next_self hspoke hsize hpos
        rw [List.filter_cons_of_neg (by simpa using hpos.ne'),
          List.filter_cons_of_pos (by simpa using hpos.ne'), List.map_cons, List.countP_cons,
          htick]
        simp only [hpos.le, hd, true_and]
        omega

/-- A round runs the elements due in its tick, and leaves the others due when
they were. -/
lemma dueBy_round (hspoke : wheel.spokeIndex < wheel.wheelSize) (hsize : wheel.wheelSize < 2 ^ 64)
    (ht : k < t) :
    wheel.dueBy k t =
      (due (wheel.spokes wheel.spokeIndex)).length + wheel.round.dueBy (k + 1) t := by
  have hmem : wheel.spokeIndex ∈ Finset.range wheel.wheelSize := Finset.mem_range.mpr hspoke
  have hself : wheel.round.spokes wheel.spokeIndex = later (wheel.spokes wheel.spokeIndex) := by
    rw [round, ticked_spokes, walked_spokes_self]
  have hother : ∀ c ∈ (Finset.range wheel.wheelSize).erase wheel.spokeIndex,
      ((wheel.spokes c).countP fun e => 0 ≤ e.rotationCnt ∧ wheel.dueTick k c e < t) =
        (wheel.round.spokes c).countP fun e =>
          0 ≤ e.rotationCnt ∧ wheel.round.dueTick (k + 1) c e < t := by
    intro c hc
    rw [Finset.mem_erase, Finset.mem_range] at hc
    rw [round, ticked_spokes, walked_spokes_of_ne hc.1]
    refine List.countP_congr fun e _ => ?_
    rw [dueTick_next_of_ne hspoke hsize hc.2 hc.1]
  rw [dueBy, dueBy, round_wheelSize, ← Finset.add_sum_erase _ _ hmem,
    ← Finset.add_sum_erase _ _ hmem, Finset.sum_congr rfl hother, hself,
    countP_visited hspoke hsize ht]
  omega

/-- Nothing is due before the next tick. -/
lemma dueBy_self : wheel.dueBy k k = 0 := by
  refine Finset.sum_eq_zero fun c _ => List.countP_eq_zero.mpr fun e _ => ?_
  rw [decide_eq_true_eq, not_and, not_lt, dueTick]
  intro _
  omega

lemma round_spokeIndex_lt (hspoke : wheel.spokeIndex < wheel.wheelSize) :
    wheel.round.spokeIndex < wheel.round.wheelSize := by
  rw [round_wheelSize]
  exact Nat.mod_lt _ (by rw [walked_wheelSize]; omega)

/-- The rounds keep the index on the wheel. -/
lemma rounds_spokeIndex_lt (n : ℕ) (hspoke : wheel.spokeIndex < wheel.wheelSize) :
    (rounds n wheel).1.spokeIndex < wheel.wheelSize := by
  induction n generalizing wheel with
  | zero => exact hspoke
  | succ n ih =>
      rw [rounds, ← round_wheelSize wheel]
      exact ih (round_spokeIndex_lt hspoke)

/-- **The rounds run exactly what is due**: `n` rounds run as many elements as
are due in the next `n` ticks. -/
lemma rounds_length (n : ℕ) (hspoke : wheel.spokeIndex < wheel.wheelSize)
    (hsize : wheel.wheelSize < 2 ^ 64) : (rounds n wheel).2.length = wheel.dueBy k (k + n) := by
  induction n generalizing wheel k with
  | zero => rw [rounds, Nat.add_zero, dueBy_self, List.length_nil]
  | succ n ih =>
      rw [rounds, List.length_append, dueBy_round hspoke hsize (by omega),
        ih (k := k + 1) (round_spokeIndex_lt hspoke) (by rwa [round_wheelSize])]
      congr 2
      omega

end Due

/-! ### The bounds of a wheel -/

/-- The bounds the fields of a wheel keep. -/
structure WheelOk (wheel : TimerWheel ε) : Prop where
  size_lt : wheel.wheelSize < 2 ^ 64
  spoke : wheel.spokeIndex < wheel.wheelSize
  create : wheel.createTime < 2 ^ 64
  last : wheel.lastCheckRelativeTick < 2 ^ 64

/-- A round that is cut has not moved the index, and one that is not has moved
it to the next spoke. -/
lemma tickLoop_frame (maxCbTimes n cbCnt : ℕ) {wheel : TimerWheel ε}
    (hspoke : wheel.spokeIndex < wheel.wheelSize) :
    let r := tickLoop maxCbTimes n wheel cbCnt
    r.wheel.wheelSize = wheel.wheelSize ∧ r.wheel.createTime = wheel.createTime ∧
      r.wheel.spokeIndex < wheel.wheelSize := by
  induction n generalizing wheel cbCnt with
  | zero => exact ⟨rfl, rfl, hspoke⟩
  | succ n ih =>
      rw [tickLoop]
      dsimp only
      split_ifs with hcut
      · exact ⟨rfl, rfl, hspoke⟩
      · exact ih _ (Nat.mod_lt _ (by rw [walked_wheelSize]; omega))

namespace WheelOk

variable {wheel : TimerWheel ε} {currentTime timeout : ℕ} {elem : TimerElem ε}

lemma startAt (h : WheelOk wheel) (hlt : currentTime ≤ ulongMax) :
    WheelOk (wheel.startAt currentTime) := by
  have hsize := h.size_lt
  have hspoke := h.spoke
  have := ulongMax_lt
  rw [TimerWheel.startAt]
  split_ifs
  · exact ⟨hsize, by change 0 < wheel.wheelSize; omega, by change currentTime < 2 ^ 64; omega,
      by change 0 < 2 ^ 64; omega⟩
  · exact h

lemma insertElem (h : WheelOk wheel) : WheelOk (wheel.insertElem elem currentTime timeout) :=
  ⟨h.size_lt, h.spoke, h.create, h.last⟩

lemma removeElem (h : WheelOk wheel) : WheelOk (wheel.removeElem elem) :=
  ⟨h.size_lt, h.spoke, h.create, h.last⟩

lemma check {timer : ZxTimer (TimerWheel ε)} (h : WheelOk timer.inner) {maxCbTimes : ℕ}
    {r : List (TimerElem ε) × ZxTimer (TimerWheel ε)}
    (hr : timer.checkWheel currentTime maxCbTimes = some r) : WheelOk r.2.inner := by
  rcases ZxTimer.checkWheel_spec hr with ⟨-, rfl⟩ | ⟨-, rfl⟩
  · exact h
  · obtain ⟨hws, hct, hsp⟩ := tickLoop_frame maxCbTimes
      (min (timer.inner.tickCnt currentTime) (2 ^ 31)) 0 h.spoke
    rw [ZxTimer.countDown_iterate_inner]
    refine ⟨?_, ?_, ?_, usub_lt⟩
    · exact hws.symm ▸ h.size_lt
    · exact lt_of_lt_of_eq hsp hws.symm
    · exact hct.symm ▸ h.create

/-- A wheel just created. -/
lemma start {wheelSize : ℕ} {timer : ZxTimer (TimerWheel ε)}
    (hcreate : ZxTimer.createWheel wheelSize = some timer) : WheelOk timer.inner := by
  obtain ⟨hpos, hlt, rfl⟩ := ZxTimer.createWheel_spec hcreate
  exact ⟨hlt, hpos, ulongMax_lt, ulongMax_lt⟩

end WheelOk

end TimerWheel

namespace WheelOp

/-- The times and timeouts are of type `unsigned long`. -/
def InRange : WheelOp ε → Prop
  | .add currentTime timeout _ | .reset _ currentTime timeout =>
      currentTime ≤ ulongMax ∧ timeout ≤ ulongMax
  | .del _ => True
  | .check currentTime _ => currentTime ≤ ulongMax

instance : ∀ a : WheelOp ε, Decidable (InRange a)
  | .add _ _ _ => inferInstanceAs (Decidable (_ ∧ _))
  | .del _ => isTrue trivial
  | .reset _ _ _ => inferInstanceAs (Decidable (_ ∧ _))
  | .check _ _ => inferInstanceAs (Decidable (_ ≤ _))

end WheelOp

open TimerWheel

/-- One call keeps the bounds. -/
lemma wheelOk_step {s s' : WheelRun ε} {a : WheelOp ε} (h : WheelOk s.wheel) (ha : a.InRange)
    (hs : a.step s = some s') : WheelOk s'.wheel := by
  cases a with
  | add currentTime timeout event =>
      obtain rfl := Option.some.inj hs
      rw [WheelRun.wheel, ZxTimer.addWheel_inner]
      exact (h.startAt ha.1).insertElem
  | del id =>
      obtain ⟨r, hr, rfl⟩ := Option.map_eq_some_iff.mp hs
      obtain ⟨elem, -, rfl⟩ := ZxTimer.delWheel_spec hr
      rw [WheelRun.wheel, ZxTimer.countDown_inner]
      exact h.removeElem
  | reset id currentTime timeout =>
      obtain ⟨timer, hr, rfl⟩ := Option.map_eq_some_iff.mp hs
      obtain ⟨elem, -, rfl⟩ := ZxTimer.resetWheel_spec hr
      exact (h.removeElem.startAt ha.1).insertElem
  | check currentTime maxCbTimes =>
      obtain ⟨r, hr, rfl⟩ := WheelOp.step_check hs
      exact h.check hr

/-- **Every state of every run keeps the bounds.** -/
theorem wheelOk_of_run {wheelSize : ℕ} {timer : ZxTimer (TimerWheel ε)}
    (hcreate : ZxTimer.createWheel wheelSize = some timer) {as : List (WheelOp ε)} {s : WheelRun ε}
    (hrun : Run WheelOp.step (fun _ a => a.InRange) (WheelRun.start timer) as s) :
    WheelOk s.wheel :=
  hrun.invariant (I := fun _ s => WheelOk s.wheel) (WheelOk.start hcreate)
    fun _ _ _ _ h ha hs => wheelOk_step h ha hs

/-! ### Checks -/

/-- Two checks in a row: the callbacks of both, and the timer after. -/
def checkThen {τ β : Type*} (first second : τ → Option (List β × τ)) (timer : τ) :
    Option (List β × τ) :=
  (first timer).bind fun r => (second r.2).map fun r' => (r.1 ++ r'.1, r'.2)

namespace TimerWheel

/-- The time of the last check, or of the first add if there was none since. -/
def lastCheckTime (wheel : TimerWheel ε) : ℕ :=
  uadd 64 wheel.createTime wheel.lastCheckRelativeTick

lemma lastCheckTime_checkedAt {wheel : TimerWheel ε} {currentTime : ℕ}
    (hcreate : wheel.createTime < 2 ^ 64) (hmax : currentTime ≤ ulongMax) :
    (wheel.checkedAt currentTime).lastCheckTime = currentTime := by
  rw [ulongMax] at hmax
  rw [lastCheckTime, checkedAt, uadd, usub]
  dsimp only
  omega

/-- The bounds after rounds and the end of the check. -/
lemma WheelOk.caughtUp {wheel : TimerWheel ε} (h : WheelOk wheel) (n currentTime : ℕ) :
    WheelOk ((rounds n wheel).1.checkedAt currentTime) := by
  refine ⟨?_, ?_, ?_, usub_lt⟩
  · exact (rounds_wheelSize n wheel).symm ▸ h.size_lt
  · exact (rounds_spokeIndex_lt n h.spoke).trans_eq (rounds_wheelSize n wheel).symm
  · exact (rounds_createTime n wheel).symm ▸ h.create

/-- From the last check on, the rounds of a check are the ticks since. -/
lemma tickCnt_eq {wheel : TimerWheel ε} {currentTime : ℕ} (h : WheelOk wheel)
    (hlast : wheel.lastCheckTime ≤ currentTime) (hmax : currentTime ≤ ulongMax) :
    wheel.tickCnt currentTime = currentTime - wheel.lastCheckTime := by
  have hcreate := h.create
  have hrel := h.last
  rw [ulongMax] at hmax
  rw [lastCheckTime, uadd] at hlast ⊢
  rw [tickCnt, usub, usub]
  omega

/-- The ticks from a check to the next one. -/
lemma tickCnt_caughtUp {wheel : TimerWheel ε} {t₁ t₂ : ℕ} (h : WheelOk wheel) (n : ℕ)
    (ht : t₁ ≤ t₂) (hmax : t₂ ≤ ulongMax) :
    ((rounds n wheel).1.checkedAt t₁).tickCnt t₂ = t₂ - t₁ := by
  have hlast := lastCheckTime_checkedAt ((rounds_createTime n wheel).symm ▸ h.create)
    (ht.trans hmax)
  rw [tickCnt_eq (h.caughtUp n t₁) (hlast.le.trans ht) hmax, hlast]

end TimerWheel

namespace ZxTimer

/-- Freeing elements does not touch what is linked. -/
lemma countDown_iterate_with {τ : Type*} (timer : ZxTimer τ) (n : ℕ) (x : τ) :
    countDown^[n] { timer with inner := x } = { countDown^[n] timer with inner := x } := by
  induction n generalizing timer with
  | zero => rfl
  | succ n ih =>
      rw [Function.iterate_succ_apply, Function.iterate_succ_apply, ← ih]
      rfl

/-- A check of a queue, its counters apart from what it links. -/
lemma checkQueue_eq (timer : ZxTimer (TimerQueue ε)) (currentTime maxCbTimes : ℕ) :
    timer.checkQueue currentTime maxCbTimes =
      let r := queueLoop currentTime maxCbTimes timer.inner.queue 0
      (r.2, { countDown^[r.2.length] timer with
        inner := { timer.inner with queue := r.1 } }) := by
  rw [checkQueue, countDown_iterate_with]

variable {timer : ZxTimer (TimerWheel ε)} {currentTime maxCbTimes : ℕ}

/-- What a check at `current_time` comes to when none of its rounds is cut. -/
def caughtUp (timer : ZxTimer (TimerWheel ε)) (currentTime : ℕ) :
    List (TimerElem ε) × ZxTimer (TimerWheel ε) :=
  let r := rounds (timer.inner.tickCnt currentTime) timer.inner
  (r.2, { countDown^[r.2.length] timer with inner := r.1.checkedAt currentTime })

/-- A check whose budget covers what is due. -/
lemma checkWheel_of_le (hcreate : timer.inner.createTime ≠ ulongMax)
    (h : (rounds (min (timer.inner.tickCnt currentTime) (2 ^ 31)) timer.inner).2.length ≤
      maxCbTimes) :
    timer.checkWheel currentTime maxCbTimes =
      if timer.inner.tickCnt currentTime ≥ 2 ^ 31 then none
      else some (timer.caughtUp currentTime) := by
  rw [checkWheel]
  dsimp only
  rw [if_neg hcreate, tickLoop_of_le _ (by rwa [Nat.zero_add])]
  by_cases hint : timer.inner.tickCnt currentTime ≥ 2 ^ 31
  · rw [if_pos ⟨hint, rfl⟩, if_pos hint]
  · rw [if_neg fun hand => hint hand.1, if_neg hint, min_eq_left (by omega),
      countDown_iterate_with, caughtUp, checkedAt, rounds_createTime]

/-- A check whose budget does not cover what is due spends it. -/
lemma checkWheel_of_lt (hcreate : timer.inner.createTime ≠ ulongMax)
    (h : maxCbTimes <
      (rounds (min (timer.inner.tickCnt currentTime) (2 ^ 31)) timer.inner).2.length) :
    ∃ r, timer.checkWheel currentTime maxCbTimes = some r ∧ r.1.length = maxCbTimes := by
  rw [← Nat.zero_add (List.length _)] at h
  obtain ⟨hcut, hlen⟩ := tickLoop_of_lt _ (Nat.zero_le maxCbTimes) h
  rw [checkWheel]
  dsimp only
  rw [if_neg hcreate, if_neg fun hand => Bool.false_ne_true (hand.2.symm.trans hcut)]
  exact ⟨_, rfl, by rwa [Nat.zero_add] at hlen⟩

/-- **A second check at the same time** finds nothing to do, whatever the first
one left. -/
lemma checkWheel_again {r : List (TimerElem ε) × ZxTimer (TimerWheel ε)}
    (hspoke : timer.inner.spokeIndex < timer.inner.wheelSize)
    (hr : timer.checkWheel currentTime maxCbTimes = some r) (n : ℕ) :
    r.2.checkWheel currentTime n = some ([], r.2) := by
  rcases checkWheel_spec hr with ⟨hcreate, rfl⟩ | ⟨hcreate, rfl⟩
  · rw [checkWheel]
    exact if_pos hcreate
  · dsimp only
    generalize (tickLoop maxCbTimes _ timer.inner 0).fired.length = k
    obtain ⟨-, hct, -⟩ := tickLoop_frame maxCbTimes
      (min (timer.inner.tickCnt currentTime) (2 ^ 31)) 0 hspoke
    generalize tickLoop maxCbTimes _ timer.inner 0 = ticks at hct
    rw [countDown_iterate_with]
    have hzero : tickCnt { ticks.wheel with
        lastCheckRelativeTick := usub 64 currentTime timer.inner.createTime } currentTime = 0 := by
      change usub 64 (usub 64 currentTime ticks.wheel.createTime)
        (usub 64 currentTime timer.inner.createTime) = 0
      rw [hct, usub_of_le le_rfl usub_lt, Nat.sub_self]
    rw [checkWheel]
    dsimp only
    rw [if_neg (hct.symm ▸ hcreate), hzero, Nat.zero_min, tickLoop, if_neg (by simp), hct]
    rfl

end ZxTimer

end CLibrary
