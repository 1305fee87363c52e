import CLibrary.Library.Runs
import CLibrary.Timer.Basic

/-!
Runs of the queue timer, and which adds it accepts.

* `QueueRun`, `QueueOp.step`, `QueueOp.Timely`: the calls on one timer, at times
  that do not decrease and with `current_time + timeout` not wrapping.
* `AddsInOrder`: an add is refused only for an element linked with a larger
  expire.
* `queue_add_refuses_first`: a fresh queue refuses its first add, since
  `last_expire_time` is unsigned and its `-1` larger than any expire.
* `Stuck`, `queue_add_iff`: in every reachable state `last_expire_time` is still
  `-1`, so an add is in order exactly when its expire is `-1` too or an element
  is linked, whose expire is then `-1` as well.
-/

namespace CLibrary

variable {ε : Type*}

/-! ### Runs -/

/-- A queue timer, the number of the next element, and the time of the last
call. -/
structure QueueRun (ε : Type*) where
  timer : ZxTimer (TimerQueue ε)
  next : ℕ
  now : ℕ

/-- The calls; `del` and `reset` name a linked element. -/
inductive QueueOp (ε : Type*) where
  | add (currentTime timeout : ℕ) (event : ε)
  | del (id : ℕ)
  | reset (id currentTime timeout : ℕ)
  | check (currentTime maxCbTimes : ℕ)

/-- A queue timer just created. -/
def QueueRun.start : QueueRun ε := ⟨ZxTimer.createQueue, 0, 0⟩

namespace QueueOp

/-- One call. -/
def step (s : QueueRun ε) : QueueOp ε → Option (QueueRun ε)
  | .add currentTime timeout event =>
      some ⟨(s.timer.addQueue s.next currentTime timeout event).2, s.next + 1, currentTime⟩
  | .del id => (s.timer.delQueue id).map fun r => { s with timer := r.2 }
  | .reset id currentTime timeout =>
      (s.timer.resetQueue id currentTime timeout).map fun r =>
        { s with timer := r.2, now := currentTime }
  | .check currentTime maxCbTimes =>
      some { s with timer := (s.timer.checkQueue currentTime maxCbTimes).2, now := currentTime }

/-- Time does not go back, and no expire wraps. -/
def Timely (s : QueueRun ε) : QueueOp ε → Prop
  | .add currentTime timeout _ | .reset _ currentTime timeout =>
      s.now ≤ currentTime ∧ currentTime + timeout ≤ ulongMax
  | .del _ => True
  | .check currentTime _ => s.now ≤ currentTime

instance (s : QueueRun ε) : ∀ a, Decidable (Timely s a)
  | .add _ _ _ => inferInstanceAs (Decidable (_ ∧ _))
  | .del _ => isTrue trivial
  | .reset _ _ _ => inferInstanceAs (Decidable (_ ∧ _))
  | .check _ _ => inferInstanceAs (Decidable (_ ≤ _))

end QueueOp

/-- Unless some linked element has a larger expire, the add returns 0 and links
the element at the tail. -/
def AddsInOrder (timer : ZxTimer (TimerQueue ε)) (id currentTime timeout : ℕ) (event : ε) : Prop :=
  (∀ e ∈ timer.inner.queue, ¬ currentTime + timeout < e.expire) →
    (timer.addQueue id currentTime timeout event).1 = 0 ∧
      (timer.addQueue id currentTime timeout event).2.inner.queue =
        timer.inner.queue ++ [⟨id, currentTime + timeout, 0, 0, event⟩]

/-- **A fresh queue timer refuses its first add.** -/
theorem queue_add_refuses_first :
    ((ZxTimer.createQueue : ZxTimer (TimerQueue Unit)).addQueue 0 5 5 ()).1 = -1 ∧
      ¬ AddsInOrder (ZxTimer.createQueue : ZxTimer (TimerQueue Unit)) 0 5 5 () := by
  have hret : ((ZxTimer.createQueue : ZxTimer (TimerQueue Unit)).addQueue 0 5 5 ()).1 = -1 := by
    decide
  refine ⟨hret, fun h => ?_⟩
  have hok := (h fun e he => by cases he).1
  rw [hret] at hok
  cases hok

/-! ### The sentinel stays -/

/-- `last_expire_time` is `-1`, and so is every expire. -/
structure Stuck (queue : TimerQueue ε) : Prop where
  last : queue.lastExpireTime = ulongMax
  all : ∀ e ∈ queue.queue, e.expire = ulongMax

/-- The tail's expire, or `-1` when there is no tail. -/
lemma tailExpire_eq {q : List (TimerElem ε)} (h : ∀ e ∈ q, e.expire = ulongMax) :
    ZxTimer.tailExpire q = ulongMax := by
  rw [ZxTimer.tailExpire]
  cases hq : q.getLast? with
  | none => rfl
  | some tail => exact h tail (List.mem_of_getLast? hq)

lemma unlink_subset (q : List (TimerElem ε)) (id : ℕ) : unlink q id ⊆ q := List.eraseP_subset

/-- The elements `zx_timer_check` leaves were linked before. -/
lemma queueLoop_subset (currentTime maxCbTimes : ℕ) (q : List (TimerElem ε)) (cbCnt : ℕ) :
    (ZxTimer.queueLoop currentTime maxCbTimes q cbCnt).1 ⊆ q := by
  induction q generalizing cbCnt with
  | nil => exact List.Subset.refl _
  | cons elem rest ih =>
      rw [ZxTimer.queueLoop]
      split_ifs
      · exact List.Subset.refl _
      · exact List.Subset.refl _
      · exact List.Subset.trans (ih _) (List.subset_cons_self _ _)

namespace Stuck

variable {timer : ZxTimer (TimerQueue ε)} {id currentTime timeout : ℕ}

/-- What an add does. -/
lemma addQueue_eq (h : Stuck timer.inner) (hwrap : currentTime + timeout ≤ ulongMax) (event : ε) :
    timer.addQueue id currentTime timeout event =
      if currentTime + timeout < ulongMax then (-1, timer)
      else (0, ZxTimer.countUp { timer with
        inner := ⟨currentTime + timeout,
          timer.inner.queue ++ [⟨id, currentTime + timeout, 0, 0, event⟩]⟩ }) := by
  rw [ZxTimer.addQueue, uadd_of_le_ulongMax hwrap, h.last]

/-- An add keeps the sentinel. -/
lemma addQueue (h : Stuck timer.inner) (hwrap : currentTime + timeout ≤ ulongMax) (event : ε) :
    Stuck (timer.addQueue id currentTime timeout event).2.inner := by
  rw [h.addQueue_eq hwrap]
  split_ifs with hlt
  · exact h
  · have hexp : currentTime + timeout = ulongMax := by omega
    refine ⟨hexp, fun e he => ?_⟩
    rcases List.mem_append.mp he with he | he
    · exact h.all e he
    · rw [List.mem_singleton.mp he]
      exact hexp

/-- Unlinking an element keeps the sentinel. -/
lemma unlinked (h : Stuck timer.inner) (id : ℕ) :
    Stuck (⟨ZxTimer.tailExpire (unlink timer.inner.queue id), unlink timer.inner.queue id⟩ :
      TimerQueue ε) := by
  have hall : ∀ e ∈ unlink timer.inner.queue id, e.expire = ulongMax :=
    fun e he => h.all e (unlink_subset _ _ he)
  exact ⟨tailExpire_eq hall, hall⟩

/-- A del keeps the sentinel. -/
lemma delQueue (h : Stuck timer.inner) {r : ℕ × ZxTimer (TimerQueue ε)}
    (hr : timer.delQueue id = some r) : Stuck r.2.inner := by
  rw [ZxTimer.delQueue_spec hr]
  exact h.unlinked id

/-- A reset keeps the sentinel, accepted or refused. -/
lemma resetQueue (h : Stuck timer.inner) (hwrap : currentTime + timeout ≤ ulongMax)
    {r : ℤ × ZxTimer (TimerQueue ε)} (hr : timer.resetQueue id currentTime timeout = some r) :
    Stuck r.2.inner := by
  have hun := h.unlinked id
  have hlast : ZxTimer.tailExpire (unlink timer.inner.queue id) = ulongMax := hun.last
  obtain ⟨e, he⟩ := ZxTimer.resetQueue_linked hr
  rw [ZxTimer.resetQueue_of_linked he, uadd_of_le_ulongMax hwrap] at hr
  obtain rfl := Option.some.inj hr
  split_ifs with hlt
  · exact hun
  · have hexp : currentTime + timeout = ulongMax := by omega
    refine ⟨hexp, fun e he => ?_⟩
    rcases List.mem_append.mp he with he | he
    · exact hun.all e he
    · rw [List.mem_singleton.mp he]
      exact hexp

/-- A check keeps the sentinel. -/
lemma checkQueue (h : Stuck timer.inner) (maxCbTimes : ℕ) :
    Stuck (timer.checkQueue currentTime maxCbTimes).2.inner := by
  rw [ZxTimer.checkQueue, ZxTimer.countDown_iterate_inner]
  exact ⟨h.last, fun e he => h.all e (queueLoop_subset _ _ _ _ he)⟩

/-- **Every call keeps the sentinel.** -/
lemma step {s s' : QueueRun ε} {a : QueueOp ε} (h : Stuck s.timer.inner) (hok : a.Timely s)
    (hs : a.step s = some s') : Stuck s'.timer.inner := by
  cases a with
  | add currentTime timeout event =>
      obtain rfl := Option.some.inj hs
      exact h.addQueue hok.2 event
  | del id =>
      obtain ⟨r, hr, rfl⟩ := Option.map_eq_some_iff.mp hs
      exact h.delQueue hr
  | reset id currentTime timeout =>
      obtain ⟨r, hr, rfl⟩ := Option.map_eq_some_iff.mp hs
      exact h.resetQueue hok.2 hr
  | check currentTime maxCbTimes =>
      obtain rfl := Option.some.inj hs
      exact h.checkQueue maxCbTimes

end Stuck

/-- **Which adds are in order**: in every reachable state, exactly those whose
expire is `ULONG_MAX` and those made while an element is linked. -/
theorem queue_add_iff {as : List (QueueOp ε)} {s : QueueRun ε}
    (hrun : Run QueueOp.step QueueOp.Timely QueueRun.start as s) {currentTime timeout : ℕ}
    (hwrap : currentTime + timeout ≤ ulongMax) (event : ε) :
    AddsInOrder s.timer s.next currentTime timeout event ↔
      currentTime + timeout = ulongMax ∨ s.timer.inner.queue ≠ [] := by
  have h : Stuck s.timer.inner := by
    refine hrun.invariant (I := fun _ s => Stuck s.timer.inner) ⟨rfl, fun e he => by cases he⟩ ?_
    intro as s a s' h hok hs
    exact h.step hok hs
  rw [AddsInOrder, h.addQueue_eq hwrap]
  constructor
  · intro hadd
    by_contra hnone
    rw [not_or, not_ne_iff] at hnone
    have hret := (hadd fun e he => by rw [hnone.2] at he; cases he).1
    rw [if_pos (by omega)] at hret
    cases hret
  · rintro hcond hall
    have hexp : currentTime + timeout = ulongMax := by
      rcases hcond with hcond | hcond
      · exact hcond
      · -- a linked element has the largest expire there is
        obtain ⟨e, he⟩ := List.exists_mem_of_ne_nil _ hcond
        have h1 := hall e he
        rw [h.all e he] at h1
        omega
    rw [if_neg (by omega)]
    exact ⟨rfl, by rw [ZxTimer.countUp_inner]⟩

/-- After an add that the queue accepts, a second one with the largest expire is
accepted too. -/
theorem queue_add_after_one :
    ∃ s : QueueRun Unit,
      Run QueueOp.step QueueOp.Timely QueueRun.start [.add 7 (2 ^ 64 - 8) ()] s ∧
      s.timer.inner.queue ≠ [] ∧ AddsInOrder s.timer s.next 9 (2 ^ 64 - 10) () ∧
      (s.timer.addQueue s.next 9 (2 ^ 64 - 10) ()).1 = 0 := by
  have hrun : (exec (fun s a => if QueueOp.Timely s a then QueueOp.step s a else none)
      QueueRun.start [.add 7 (2 ^ 64 - 8) ()]).map
      (fun s => s.timer.inner.queue.map TimerElem.expire) = some [2 ^ 64 - 1] := by
    decide +kernel
  obtain ⟨s, hs, hexpire⟩ := Option.map_eq_some_iff.mp hrun
  have hne : s.timer.inner.queue ≠ [] := by
    intro hnil
    rw [hnil] at hexpire
    cases hexpire
  have hle : ∀ e ∈ s.timer.inner.queue, ¬ 9 + (2 ^ 64 - 10) < e.expire := by
    intro e he
    have hmem := List.mem_map_of_mem (f := TimerElem.expire) he
    rw [hexpire, List.mem_singleton] at hmem
    omega
  have hadd := (queue_add_iff (run_of_exec_guarded hs)
    (by decide : 9 + (2 ^ 64 - 10) ≤ ulongMax) ()).mpr (Or.inr hne)
  exact ⟨s, run_of_exec_guarded hs, hne, hadd, (hadd hle).1⟩

end CLibrary
