import CLibrary.Timer.Queue

/-!
The order of the queue timer.

* `InOrder`: the elements are sorted by their expire, and `last_expire_time` is
  that of the last.
* `InOrder.step`: every call keeps this, a refused reset too.
* `queueLoop_eq_take`, `queue_check_exact`: so a check may stop at the first
  element that is not due, and runs exactly the elements that are.
* `ResetLeaves`: a refused reset leaves the timer as it was, and an accepted one
  moves the element to the end.
* `queue_reset_loses`: a refused reset has unlinked the element.
* `queue_reset_iff`: so it leaves the timer exactly when it is not refused.
-/

namespace CLibrary

open ZxTimer

variable {ε : Type*}

/-! ### Sorted queues -/

/-- The elements are sorted by their expire, and if there are any,
`last_expire_time` is the expire of the last. -/
structure InOrder (queue : TimerQueue ε) : Prop where
  sorted : queue.queue.Pairwise fun x y => x.expire ≤ y.expire
  last : queue.queue ≠ [] → queue.lastExpireTime = tailExpire queue.queue

lemma tailExpire_append (q : List (TimerElem ε)) (e : TimerElem ε) :
    tailExpire (q ++ [e]) = e.expire := by
  rw [tailExpire, List.getLast?_concat]

/-- The tail expires last. -/
lemma le_tailExpire {q : List (TimerElem ε)}
    (h : q.Pairwise fun x y => x.expire ≤ y.expire) {e : TimerElem ε} (he : e ∈ q) :
    e.expire ≤ tailExpire q := by
  induction q using List.reverseRecOn with
  | nil => cases he
  | append_singleton front tail _ =>
      rw [tailExpire_append]
      rcases List.mem_append.mp he with he | he
      · exact (List.pairwise_append.mp h).2.2 e he tail (List.mem_singleton_self tail)
      · rw [List.mem_singleton.mp he]

namespace InOrder

variable {timer : ZxTimer (TimerQueue ε)} {q : List (TimerElem ε)} {id currentTime timeout : ℕ}

/-- Linking an element that expires last. -/
lemma append {e : TimerElem ε} (h : q.Pairwise fun x y => x.expire ≤ y.expire)
    (hle : q ≠ [] → tailExpire q ≤ e.expire) : InOrder ⟨e.expire, q ++ [e]⟩ := by
  refine ⟨List.pairwise_append.mpr ⟨h, List.pairwise_singleton _ _, fun f hf g hg => ?_⟩,
    fun _ => (tailExpire_append q e).symm⟩
  rw [List.mem_singleton.mp hg]
  exact (le_tailExpire h hf).trans (hle (List.ne_nil_of_mem hf))

/-- Unlinking an element. -/
lemma unlinked (h : q.Pairwise fun x y => x.expire ≤ y.expire) (id : ℕ) :
    InOrder ⟨tailExpire (unlink q id), unlink q id⟩ :=
  ⟨h.sublist List.eraseP_sublist, fun _ => rfl⟩

/-- An add keeps the order, accepted or refused. -/
lemma addQueue (h : InOrder timer.inner) (id currentTime timeout : ℕ) (event : ε) :
    InOrder (timer.addQueue id currentTime timeout event).2.inner := by
  rw [ZxTimer.addQueue]
  dsimp only
  split_ifs with hlt
  · exact h
  · rw [countUp_inner]
    refine append (e := ⟨id, uadd 64 currentTime timeout, 0, 0, event⟩) h.sorted fun hne => ?_
    rw [← h.last hne]
    exact not_lt.mp hlt

/-- A del keeps the order. -/
lemma delQueue (h : InOrder timer.inner) {r : ℕ × ZxTimer (TimerQueue ε)}
    (hr : timer.delQueue id = some r) : InOrder r.2.inner := by
  rw [delQueue_spec hr]
  exact unlinked h.sorted id

/-- A reset keeps the order, accepted or refused. -/
lemma resetQueue (h : InOrder timer.inner) {r : ℤ × ZxTimer (TimerQueue ε)}
    (hr : timer.resetQueue id currentTime timeout = some r) : InOrder r.2.inner := by
  obtain ⟨e, he⟩ := resetQueue_linked hr
  rw [resetQueue_of_linked he] at hr
  obtain rfl := Option.some.inj hr
  have hun := unlinked h.sorted id
  split_ifs with hlt
  · exact hun
  · exact append (e := { e with expire := uadd 64 currentTime timeout }) hun.sorted
      fun _ => not_lt.mp hlt

end InOrder

/-- **What a check runs**: of a sorted queue the elements that are due are the
first, and the loop takes them as far as its budget goes. -/
lemma queueLoop_eq_take {q : List (TimerElem ε)}
    (h : q.Pairwise fun x y => x.expire ≤ y.expire) (now m cbCnt : ℕ) :
    queueLoop now m q cbCnt =
      (q.drop (min (m - cbCnt) (q.countP fun e => e.expire ≤ now)),
        q.take (min (m - cbCnt) (q.countP fun e => e.expire ≤ now))) := by
  induction q generalizing cbCnt with
  | nil => rw [queueLoop, List.drop_nil, List.take_nil]
  | cons e rest ih =>
      obtain ⟨hhead, hrest⟩ := List.pairwise_cons.mp h
      rw [queueLoop]
      split_ifs with hbudget hdue
      · rw [Nat.sub_eq_zero_of_le hbudget, Nat.zero_min, List.drop_zero, List.take_zero]
      · -- no later element is due if the head is not
        have hnone : (e :: rest).countP (fun e => e.expire ≤ now) = 0 := by
          refine List.countP_eq_zero.mpr fun f hf => ?_
          rw [decide_eq_true_eq, not_le]
          rcases List.mem_cons.mp hf with rfl | hf
          · exact hdue
          · exact hdue.trans_le (hhead f hf)
        rw [hnone, Nat.min_zero, List.drop_zero, List.take_zero]
      · have hone : (e :: rest).countP (fun e => e.expire ≤ now) =
            rest.countP (fun e => e.expire ≤ now) + 1 :=
          List.countP_cons_of_pos (by rw [decide_eq_true_eq]; exact not_lt.mp hdue)
        have hmin : min (m - cbCnt) (rest.countP (fun e => e.expire ≤ now) + 1) =
            min (m - (cbCnt + 1)) (rest.countP fun e => e.expire ≤ now) + 1 := by omega
        rw [hone, hmin, ih hrest, List.drop_succ_cons, List.take_succ_cons]

/-- A check runs the first elements that are due, and leaves the others. -/
lemma checkQueue_spec {timer : ZxTimer (TimerQueue ε)} (h : InOrder timer.inner) (now m : ℕ) :
    (timer.checkQueue now m).1 =
        timer.inner.queue.take (min m (timer.inner.queue.countP fun e => e.expire ≤ now)) ∧
      (timer.checkQueue now m).2.inner = ⟨timer.inner.lastExpireTime,
        timer.inner.queue.drop (min m (timer.inner.queue.countP fun e => e.expire ≤ now))⟩ := by
  rw [checkQueue, countDown_iterate_inner, queueLoop_eq_take h.sorted, Nat.sub_zero]
  exact ⟨rfl, rfl⟩

/-- A check keeps the order. -/
lemma InOrder.checkQueue {timer : ZxTimer (TimerQueue ε)} (h : InOrder timer.inner) (now m : ℕ) :
    InOrder (timer.checkQueue now m).2.inner := by
  rw [(checkQueue_spec h now m).2]
  refine ⟨h.sorted.sublist (List.drop_sublist _ _), fun hne => ?_⟩
  dsimp only at hne ⊢
  rw [ne_eq, List.drop_eq_nil_iff, not_le] at hne
  rw [h.last (List.ne_nil_of_length_pos (by omega)), tailExpire, tailExpire, List.getLast?_drop,
    if_neg (not_le.mpr hne)]

/-! ### Every call -/

/-- **Every call keeps the order.** -/
lemma InOrder.step {s s' : QueueRun ε} {a : QueueOp ε} (h : InOrder s.timer.inner)
    (hs : a.step s = some s') : InOrder s'.timer.inner := by
  cases a with
  | add currentTime timeout event =>
      obtain rfl := Option.some.inj hs
      exact h.addQueue _ _ _ event
  | del id =>
      obtain ⟨r, hr, rfl⟩ := Option.map_eq_some_iff.mp hs
      exact h.delQueue hr
  | reset id currentTime timeout =>
      obtain ⟨r, hr, rfl⟩ := Option.map_eq_some_iff.mp hs
      exact h.resetQueue hr
  | check currentTime maxCbTimes =>
      obtain rfl := Option.some.inj hs
      exact h.checkQueue _ _

/-- **The early exit misses nothing**: any calls take a queue in order to a queue
in order, and there a check with budget `m` runs the first `min m k` elements of
the `k` that are due, in their order, and unlinks exactly those. -/
theorem queue_check_exact {as : List (QueueOp ε)} {s s' : QueueRun ε} (h : InOrder s.timer.inner)
    (hrun : Run QueueOp.step (fun _ _ => True) s as s') :
    InOrder s'.timer.inner ∧ ∀ now m,
      let n := min m (s'.timer.inner.queue.countP fun e => e.expire ≤ now)
      (s'.timer.checkQueue now m).1 = s'.timer.inner.queue.take n ∧
        (s'.timer.checkQueue now m).2.inner.queue = s'.timer.inner.queue.drop n := by
  have h' : InOrder s'.timer.inner :=
    hrun.invariant (I := fun _ s => InOrder s.timer.inner) h fun _ _ _ _ h _ hs => h.step hs
  refine ⟨h', fun now m => ?_⟩
  obtain ⟨hran, hleft⟩ := checkQueue_spec h' now m
  exact ⟨hran, by rw [hleft]⟩

/-- A queue of two, of which a refused reset unlinks the last; the check that follows an
add has a budget for one of the two that are due. -/
theorem queue_of_two_check_exact :
    ∃ s s' : QueueRun Unit, InOrder s.timer.inner ∧
      Run QueueOp.step (fun _ _ => True) s [.reset 1 0 5, .add 8 4 ()] s' ∧
      InOrder s'.timer.inner ∧
      (s'.timer.checkQueue 12 1).1.map TimerElem.id = [0] ∧
      (s'.timer.checkQueue 12 1).2.inner.queue.map TimerElem.id = [2] := by
  have h : InOrder (⟨20, [⟨0, 10, 0, 0, ()⟩, ⟨1, 20, 0, 0, ()⟩]⟩ : TimerQueue Unit) :=
    ⟨by simp, fun _ => rfl⟩
  have hrun : (exec QueueOp.step
      ⟨⟨⟨20, [⟨0, 10, 0, 0, ()⟩, ⟨1, 20, 0, 0, ()⟩]⟩, 2, 160⟩, 2, 0⟩
      ([.reset 1 0 5, .add 8 4 ()] : List (QueueOp Unit))).map (fun s =>
        (s.timer.inner.queue.map TimerElem.id,
          s.timer.inner.queue.countP fun e => e.expire ≤ 12)) = some ([0, 2], 2) := by
    decide +kernel
  obtain ⟨s', hs', heq⟩ := Option.map_eq_some_iff.mp hrun
  rw [Prod.mk.injEq] at heq
  obtain ⟨hids, hdue⟩ := heq
  obtain ⟨horder, hcheck⟩ := queue_check_exact h (run_of_exec hs')
  obtain ⟨hran, hleft⟩ := hcheck 12 1
  rw [hdue] at hran hleft
  refine ⟨_, s', h, run_of_exec hs', horder, ?_, ?_⟩
  · rw [hran, List.map_take, hids]
    rfl
  · rw [hleft, List.map_drop, hids]
    rfl

/-! ### Refused resets -/

section Reset

variable {timer : ZxTimer (TimerQueue ε)} {q : List (TimerElem ε)} {id currentTime timeout : ℕ}

/-- A reset that returns -1 leaves the timer as it was, and one that returns 0
links the element with its new expire at the tail, behind the others. -/
def ResetLeaves (timer : ZxTimer (TimerQueue ε)) (id currentTime timeout : ℕ) : Prop :=
  ∀ r, timer.resetQueue id currentTime timeout = some r →
    (r.1 = -1 → r.2 = timer) ∧
    (r.1 = 0 → ∃ e, elemOf timer.inner.queue id = some e ∧
      r.2.inner.queue = timer.inner.queue.filter (fun f => f.id ≠ id) ++
        [{ e with expire := uadd 64 currentTime timeout }])

/-- **A refused reset loses the element**, here the only one that is linked. -/
theorem queue_reset_loses :
    ∃ s : QueueRun Unit,
      Run QueueOp.step QueueOp.Timely QueueRun.start [.add 7 (2 ^ 64 - 8) ()] s ∧
      InOrder s.timer.inner ∧ s.timer.elemCnt = s.timer.inner.queue.length ∧
      (elemOf s.timer.inner.queue 0).isSome = true ∧ ¬ ResetLeaves s.timer 0 8 5 := by
  have hrun : (exec (fun s a => if QueueOp.Timely s a then QueueOp.step s a else none)
      QueueRun.start ([.add 7 (2 ^ 64 - 8) ()] : List (QueueOp Unit))).map (fun s =>
        (s.timer.elemCnt, s.timer.inner.queue.length, (elemOf s.timer.inner.queue 0).isSome,
          (s.timer.resetQueue 0 8 5).map fun r => (r.1, r.2.inner.queue.length))) =
      some (1, 1, true, some (-1, 0)) := by
    decide +kernel
  obtain ⟨s, hs, heq⟩ := Option.map_eq_some_iff.mp hrun
  simp only [Prod.mk.injEq] at heq
  obtain ⟨hcnt, hlen, hlinked, hreset⟩ := heq
  obtain ⟨r, hr, hrefused⟩ := Option.map_eq_some_iff.mp hreset
  rw [Prod.mk.injEq] at hrefused
  have horder : InOrder s.timer.inner :=
    (run_of_exec_guarded hs).invariant (I := fun _ s => InOrder s.timer.inner)
      ⟨List.Pairwise.nil, fun h => absurd rfl h⟩ fun _ _ _ _ h _ hs => h.step hs
  refine ⟨s, run_of_exec_guarded hs, horder, hcnt.trans hlen.symm, hlinked, fun h => ?_⟩
  rw [(h r hr).1 hrefused.1, hlen] at hrefused
  exact absurd hrefused.2 (by decide)

lemma tailExpire_le_iff (h : q.Pairwise fun x y => x.expire ≤ y.expire) (hne : q ≠ []) {x : ℕ} :
    tailExpire q ≤ x ↔ ∀ e ∈ q, e.expire ≤ x := by
  refine ⟨fun hle e he => (le_tailExpire h he).trans hle, fun hall => ?_⟩
  induction q using List.reverseRecOn with
  | nil => exact absurd rfl hne
  | append_singleton front tail _ =>
      rw [tailExpire_append]
      exact hall tail (List.mem_append_right front (List.mem_singleton_self tail))

/-- **When a reset is refused** because of the others: one of them expires later,
or there are none and the new expire is not `ULONG_MAX`. -/
lemma tailExpire_unlink_le_iff (h : q.Pairwise fun x y => x.expire ≤ y.expire)
    (hnodup : (q.map TimerElem.id).Nodup) {x : ℕ} (hx : x ≤ ulongMax) :
    tailExpire (unlink q id) ≤ x ↔
      (∀ f ∈ q, f.id ≠ id → f.expire ≤ x) ∧ ((∀ f ∈ q, f.id = id) → x = ulongMax) := by
  have hmem : ∀ f, f ∈ unlink q id ↔ f ∈ q ∧ f.id ≠ id := by
    intro f
    rw [unlink_eq_filter hnodup, List.mem_filter, decide_eq_true_eq]
  have hnil : unlink q id = [] ↔ ∀ f ∈ q, f.id = id := by
    simp only [List.eq_nil_iff_forall_not_mem, hmem, not_and, not_not]
  by_cases hempty : unlink q id = []
  · have honly := hnil.mp hempty
    rw [hempty, show tailExpire ([] : List (TimerElem ε)) = ulongMax from rfl]
    constructor
    · exact fun hle => ⟨fun f hf hne => absurd (honly f hf) hne, fun _ => le_antisymm hx hle⟩
    · exact fun hcond => (hcond.2 honly).ge
  · have hsorted : (unlink q id).Pairwise fun x y => x.expire ≤ y.expire :=
      h.sublist List.eraseP_sublist
    rw [tailExpire_le_iff hsorted hempty]
    constructor
    · exact fun hle => ⟨fun f hf hne => hle f ((hmem f).mpr ⟨hf, hne⟩),
        fun honly => absurd (hnil.mpr honly) hempty⟩
    · exact fun hcond f hf => hcond.1 f ((hmem f).mp hf).1 ((hmem f).mp hf).2

/-- Unlinking an element that is linked makes the queue shorter. -/
lemma unlink_ne {e : TimerElem ε} (he : elemOf q id = some e) : unlink q id ≠ q := by
  obtain ⟨hmem, hid⟩ := elemOf_spec he
  have hlen : (unlink q id).length = q.length - 1 :=
    List.length_eraseP_of_mem hmem (by simp [hid])
  have hpos := List.length_pos_of_mem hmem
  intro heq
  rw [heq] at hlen
  omega

/-- **When a reset leaves the timer**: exactly when no other linked element
expires after the new expire and, if there is no other, that is `ULONG_MAX`. -/
theorem queue_reset_iff (h : InOrder timer.inner)
    (hnodup : (timer.inner.queue.map TimerElem.id).Nodup) {e : TimerElem ε}
    (he : elemOf timer.inner.queue id = some e) (currentTime timeout : ℕ) :
    ResetLeaves timer id currentTime timeout ↔
      (∀ f ∈ timer.inner.queue, f.id ≠ id → f.expire ≤ uadd 64 currentTime timeout) ∧
        ((∀ f ∈ timer.inner.queue, f.id = id) → uadd 64 currentTime timeout = ulongMax) := by
  have hx : uadd 64 currentTime timeout ≤ ulongMax := by
    have hlt : uadd 64 currentTime timeout < 2 ^ 64 := Nat.mod_lt _ (by positivity)
    rw [ulongMax]
    omega
  rw [← tailExpire_unlink_le_iff h.sorted hnodup hx, ← not_lt, ResetLeaves,
    resetQueue_of_linked he]
  constructor
  · intro hleaves hlt
    rw [if_pos hlt] at hleaves
    have hsame := (hleaves _ rfl).1 rfl
    exact unlink_ne he (congrArg (fun t : ZxTimer (TimerQueue ε) => t.inner.queue) hsame)
  · intro hlt r hr
    rw [if_neg hlt] at hr
    obtain rfl := Option.some.inj hr
    refine ⟨fun hret => absurd hret (show (0 : ℤ) ≠ -1 by decide), fun _ => ⟨e, he, ?_⟩⟩
    rw [← unlink_eq_filter hnodup]

/-- The first of three elements, reset to expire last. -/
theorem queue_reset_of_three :
    ResetLeaves (⟨⟨30, [⟨0, 10, 0, 0, ()⟩, ⟨1, 20, 0, 0, ()⟩, ⟨2, 30, 0, 0, ()⟩]⟩, 3, 208⟩ :
      ZxTimer (TimerQueue Unit)) 0 25 10 := by
  have hexp : uadd 64 25 10 = 35 := uadd_of_lt (by decide)
  refine (queue_reset_iff ⟨by simp, fun _ => rfl⟩ (by simp) rfl 25 10).mpr ⟨?_, fun h => ?_⟩
  · rw [hexp]
    simp
  · simp at h

end Reset

end CLibrary
