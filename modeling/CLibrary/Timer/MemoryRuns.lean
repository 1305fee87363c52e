import CLibrary.Timer.Queue
import CLibrary.Timer.QueueMemory

/-!
Runs of timers in memory.

* `TimerCall`: the calls, where an index is an address.  An address that was freed
  can be returned by `malloc` again.
* `Addressed`: a run of a timer of lists, with the number of the element at every
  address.  `TimerCall.onWheel`, `TimerCall.onQueue`: its calls are those of
  `WheelOp` and `QueueOp`.
* `TimerCall.Fresh`, `TimerCall.Linked`: what a caller sees to.  `malloc` returns what
  is not allocated, and `del` and `reset` of a queue are handed linked elements.
* `wheel_timer_memory_safe`, `queue_timer_memory_safe`: the timers in memory do and
  return what the timers of lists do, so what holds of these holds of the code, and
  no call uses what was freed.
-/

namespace CLibrary

variable {ι π ε : Type}

/-- The calls on a timer.  `malloc` returns `elem`, with `junk` in it. -/
inductive TimerCall (ι π ε : Type)
  | add (elem : π) (junk : Cell π (Slot ι π) (ElemFields ε)) (currentTime timeout : ℕ) (event : ε)
  | del (elem : π)
  | reset (elem : π) (currentTime timeout : ℕ)
  | check (currentTime maxCbTimes : ℕ)

/-- A run, and the number of the element that is allocated at an address. -/
structure Addressed (σ π : Type) where
  run : σ
  name : π → Option ℕ

namespace TimerCall

variable [DecidableEq π]

/-- `malloc` returns what is not allocated. -/
def Fresh {σ : Type} (a : Addressed σ π) : TimerCall ι π ε → Prop
  | .add elem _ _ _ _ => a.name elem = none
  | .del _ | .reset _ _ _ | .check _ _ => True

omit [DecidableEq π] in
instance {σ : Type} (a : Addressed σ π) : ∀ call : TimerCall ι π ε, Decidable (call.Fresh a)
  | .add elem _ _ _ _ => inferInstanceAs (Decidable (a.name elem = none))
  | .del _ | .reset _ _ _ | .check _ _ => inferInstanceAs (Decidable True)

/-- `del` and `reset` are handed the index of an element that is in the queue.  One
that a refused reset has unlinked is allocated still, but its links are stale. -/
def Linked (a : Addressed (QueueRun ε) π) : TimerCall Unit π ε → Prop
  | .del elem | .reset elem _ _ => ∃ e ∈ a.run.timer.inner.queue, a.name elem = some e.id
  | .add _ _ _ _ _ | .check _ _ => True

omit [DecidableEq π] in
instance (a : Addressed (QueueRun ε) π) : ∀ call : TimerCall Unit π ε, Decidable (call.Linked a)
  | .del elem | .reset elem _ _ => inferInstanceAs
      (Decidable (∃ e ∈ a.run.timer.inner.queue, a.name elem = some e.id))
  | .add _ _ _ _ _ | .check _ _ => inferInstanceAs (Decidable True)

/-- What the caller of a queue sees to. -/
def Careful (a : Addressed (QueueRun ε) π) (call : TimerCall Unit π ε) : Prop :=
  call.Fresh a ∧ call.Linked a

omit [DecidableEq π] in
instance (a : Addressed (QueueRun ε) π) (call : TimerCall Unit π ε) :
    Decidable (call.Careful a) :=
  inferInstanceAs (Decidable (_ ∧ _))

/-- A call of a wheel: what it returns, the events its callbacks are called with, and
the run after it. -/
def onWheel (a : Addressed (WheelRun ε) π) :
    TimerCall ℕ π ε → Option ((ℕ × List ε) × Addressed (WheelRun ε) π)
  | .add elem _ currentTime timeout event => do
      let run ← WheelOp.step a.run (.add currentTime timeout event)
      return ((0, []), ⟨run, Function.update a.name elem (some a.run.next)⟩)
  | .del elem => do
      let n ← a.name elem
      let r ← a.run.timer.delWheel n
      let run ← WheelOp.step a.run (.del n)
      return ((r.1, []), ⟨run, Function.update a.name elem none⟩)
  | .reset elem currentTime timeout => do
      let n ← a.name elem
      let run ← WheelOp.step a.run (.reset n currentTime timeout)
      return ((0, []), ⟨run, a.name⟩)
  | .check currentTime maxCbTimes => do
      let r ← a.run.timer.checkWheel currentTime maxCbTimes
      let run ← WheelOp.step a.run (.check currentTime maxCbTimes)
      return ((r.1.length, r.1.map TimerElem.event),
        ⟨run, forget a.name (r.1.map TimerElem.id)⟩)

/-- A call of a queue; it has no result for an element that is not linked. -/
def onQueue (a : Addressed (QueueRun ε) π) :
    TimerCall Unit π ε → Option ((ℤ × List ε) × Addressed (QueueRun ε) π)
  | .add elem _ currentTime timeout event => do
      let r := a.run.timer.addQueue a.run.next currentTime timeout event
      let run ← QueueOp.step a.run (.add currentTime timeout event)
      return ((r.1, []),
        ⟨run, if r.1 = 0 then Function.update a.name elem (some a.run.next) else a.name⟩)
  | .del elem => do
      let n ← a.name elem
      let r ← a.run.timer.delQueue n
      let run ← QueueOp.step a.run (.del n)
      return ((r.1, []), ⟨run, Function.update a.name elem none⟩)
  | .reset elem currentTime timeout => do
      let n ← a.name elem
      let r ← a.run.timer.resetQueue n currentTime timeout
      let run ← QueueOp.step a.run (.reset n currentTime timeout)
      return ((r.1, []), ⟨run, a.name⟩)
  | .check currentTime maxCbTimes => do
      let r := a.run.timer.checkQueue currentTime maxCbTimes
      let run ← QueueOp.step a.run (.check currentTime maxCbTimes)
      return ((r.1.length, r.1.map TimerElem.event),
        ⟨run, forget a.name (r.1.map TimerElem.id)⟩)

/-- A call that is handed a linked element, if any, returns. -/
lemma Linked.returns {a : Addressed (QueueRun ε) π} {call : TimerCall Unit π ε}
    (h : call.Linked a) : ∃ r b, call.onQueue a = some (r, b) := by
  have hfind : ∀ e ∈ a.run.timer.inner.queue, ∃ f, elemOf a.run.timer.inner.queue e.id = some f :=
    fun e he => Option.isSome_iff_exists.mp (List.find?_isSome.mpr ⟨e, he, by simp⟩)
  cases call with
  | add elem junk currentTime timeout event => exact ⟨_, _, rfl⟩
  | del elem =>
      obtain ⟨e, he, hname⟩ := h
      obtain ⟨f, hf⟩ := hfind e he
      obtain ⟨r, hr⟩ : ∃ r, a.run.timer.delQueue e.id = some r := by
        rw [ZxTimer.delQueue, hf]
        exact ⟨_, rfl⟩
      exact ⟨_, _, by simp [onQueue, hname, QueueOp.step, hr]; exact ⟨rfl, rfl⟩⟩
  | reset elem currentTime timeout =>
      obtain ⟨e, he, hname⟩ := h
      obtain ⟨f, hf⟩ := hfind e he
      obtain ⟨r, hr⟩ : ∃ r, a.run.timer.resetQueue e.id currentTime timeout = some r :=
        ⟨_, ZxTimer.resetQueue_of_linked hf currentTime timeout⟩
      exact ⟨_, _, by simp [onQueue, hname, QueueOp.step, hr]; exact ⟨rfl, rfl⟩⟩
  | check currentTime maxCbTimes => exact ⟨_, _, rfl⟩

end TimerCall

namespace TimerMem

variable [DecidableEq π]

/-- A call of a wheel in memory. -/
def stepWheel (fuel : ℕ) (timer : ZxTimer (WheelMem π ε)) :
    TimerCall ℕ π ε → Option ((ℕ × List ε) × ZxTimer (WheelMem π ε))
  | .add elem junk currentTime timeout event =>
      (addWheel timer elem junk currentTime timeout event).map fun timer => ((0, []), timer)
  | .del elem => (delWheel timer elem).map fun r => ((r.1, []), r.2)
  | .reset elem currentTime timeout =>
      (resetWheel timer elem currentTime timeout).map fun timer => ((0, []), timer)
  | .check currentTime maxCbTimes =>
      (checkWheel fuel timer currentTime maxCbTimes).map fun r => ((r.1.length, r.1), r.2)

/-- A call of a queue in memory. -/
def stepQueue (fuel : ℕ) (timer : ZxTimer (QueueMem π ε)) :
    TimerCall Unit π ε → Option ((ℤ × List ε) × ZxTimer (QueueMem π ε))
  | .add elem junk currentTime timeout event =>
      (addQueue timer elem junk currentTime timeout event).map fun r => ((r.1, []), r.2)
  | .del elem => (delQueue timer elem).map fun r => ((r.1, []), r.2)
  | .reset elem currentTime timeout =>
      (resetQueue timer elem currentTime timeout).map fun r => ((r.1, []), r.2)
  | .check currentTime maxCbTimes =>
      (checkQueue fuel timer currentTime maxCbTimes).map fun r => ((r.1.length, r.1), r.2)

end TimerMem

/-! ### The wheel -/

/-- A run of the wheel, and its memory. -/
structure WheelKept (timer : ZxTimer (WheelMem π ε)) (a : Addressed (WheelRun ε) π) : Prop where
  held : ∃ m shelf home, timer = a.run.timer.inMem m ∧
    WheelHeld m a.run.timer.inner a.name shelf home none
  fresh : ∀ p n, a.name p = some n → n < a.run.next

namespace WheelKept

variable [DecidableEq π] {timer : ZxTimer (WheelMem π ε)} {a b : Addressed (WheelRun ε) π}

/-- **One call.** -/
lemma step (h : WheelKept timer a) {fuel : ℕ} (hfuel : a.run.next < fuel) {call : TimerCall ℕ π ε}
    (hfresh : call.Fresh a) {r : ℕ × List ε} (hs : call.onWheel a = some (r, b)) :
    (∃ timer', TimerMem.stepWheel fuel timer call = some (r, timer') ∧ WheelKept timer' b) ∧
      b.run.next ≤ a.run.next + 1 ∧ ∃ op, WheelOp.step a.run op = some b.run := by
  obtain ⟨⟨m, shelf, home, rfl, hheld⟩, hnext⟩ := h
  cases call with
  | add elem junk currentTime timeout event =>
      obtain ⟨rfl, rfl⟩ := Prod.mk.inj (Option.some.inj hs)
      have hnew : ∀ x, a.name x ≠ some a.run.next := fun x hx =>
        absurd (hnext x _ hx) (Nat.lt_irrefl _)
      obtain ⟨m', shelf', home', hm', h'⟩ :=
        hheld.addWheel hfresh hnew junk currentTime timeout event
      refine ⟨⟨_, by rw [TimerMem.stepWheel, hm']; rfl, ⟨m', shelf', home', rfl, h'⟩, ?_⟩, le_rfl,
        .add currentTime timeout event, rfl⟩
      intro p n hp
      dsimp only at hp ⊢
      by_cases hpe : p = elem
      · rw [hpe, Function.update_self, Option.some_inj] at hp
        omega
      · rw [Function.update_of_ne hpe] at hp
        exact Nat.lt_succ_of_lt (hnext p n hp)
  | del elem =>
      obtain ⟨n, hn, hs⟩ := Option.bind_eq_some_iff.mp hs
      obtain ⟨r', hr', hs⟩ := Option.bind_eq_some_iff.mp hs
      obtain ⟨run, hrun, hs⟩ := Option.bind_eq_some_iff.mp hs
      obtain ⟨rfl, rfl⟩ := Prod.mk.inj (Option.some.inj hs)
      have hstep := hrun
      rw [WheelOp.step, hr', Option.map_some, Option.some_inj] at hrun
      subst hrun
      obtain ⟨m', shelf', home', hm', h'⟩ := hheld.delWheel hn hr'
      refine ⟨⟨_, by rw [TimerMem.stepWheel, hm']; rfl, ⟨m', shelf', home', rfl, h'⟩, ?_⟩,
        Nat.le_succ _, .del n, hstep⟩
      intro p k hp
      dsimp only at hp ⊢
      by_cases hpe : p = elem
      · rw [hpe, Function.update_self] at hp
        cases hp
      · rw [Function.update_of_ne hpe] at hp
        exact hnext p k hp
  | reset elem currentTime timeout =>
      obtain ⟨n, hn, hs⟩ := Option.bind_eq_some_iff.mp hs
      obtain ⟨run, hrun, hs⟩ := Option.bind_eq_some_iff.mp hs
      obtain ⟨rfl, rfl⟩ := Prod.mk.inj (Option.some.inj hs)
      have hstep := hrun
      obtain ⟨t, ht, rfl⟩ := Option.map_eq_some_iff.mp hrun
      obtain ⟨m', shelf', home', hm', h'⟩ := hheld.resetWheel hn ht
      exact ⟨⟨_, by rw [TimerMem.stepWheel, hm']; rfl, ⟨m', shelf', home', rfl, h'⟩, hnext⟩,
        Nat.le_succ _, .reset n currentTime timeout, hstep⟩
  | check currentTime maxCbTimes =>
      obtain ⟨r', hr', hs⟩ := Option.bind_eq_some_iff.mp hs
      obtain ⟨run, hrun, hs⟩ := Option.bind_eq_some_iff.mp hs
      obtain ⟨rfl, rfl⟩ := Prod.mk.inj (Option.some.inj hs)
      have hstep := hrun
      obtain ⟨r'', hr'', rfl⟩ := WheelOp.step_check hrun
      obtain rfl := Option.some.inj (hr'.symm.trans hr'')
      obtain ⟨m', shelf', home', hm', h'⟩ := hheld.checkWheel hnext hfuel hr'
      refine ⟨⟨_, ?_, ⟨m', shelf', home', rfl, h'⟩, ?_⟩, Nat.le_succ _,
        .check currentTime maxCbTimes, hstep⟩
      · rw [TimerMem.stepWheel, hm', Option.map_some, List.length_map]
      · exact fun p k hp => hnext p k (forget_eq_some.mp hp).1

end WheelKept

/-- A run of the queue, and its memory. -/
structure QueueKept (timer : ZxTimer (QueueMem π ε)) (a : Addressed (QueueRun ε) π) : Prop where
  held : ∃ m q home, timer = a.run.timer.queueInMem m ∧
    QueueHeld m a.run.timer.inner.queue a.name q home
  fresh : ∀ p n, a.name p = some n → n < a.run.next

namespace QueueKept

variable [DecidableEq π] {timer : ZxTimer (QueueMem π ε)} {a b : Addressed (QueueRun ε) π}

/-- **One call.** -/
lemma step (h : QueueKept timer a) {fuel : ℕ} (hfuel : a.run.next < fuel)
    {call : TimerCall Unit π ε} (hfresh : call.Fresh a) {r : ℤ × List ε}
    (hs : call.onQueue a = some (r, b)) :
    (∃ timer', TimerMem.stepQueue fuel timer call = some (r, timer') ∧ QueueKept timer' b) ∧
      b.run.next ≤ a.run.next + 1 ∧ ∃ op, QueueOp.step a.run op = some b.run := by
  obtain ⟨⟨m, q, home, rfl, hheld⟩, hnext⟩ := h
  cases call with
  | add elem junk currentTime timeout event =>
      obtain ⟨rfl, rfl⟩ := Prod.mk.inj (Option.some.inj hs)
      have hnew : ∀ x, a.name x ≠ some a.run.next := fun x hx =>
        absurd (hnext x _ hx) (Nat.lt_irrefl _)
      obtain ⟨m', q', home', hm', h'⟩ :=
        hheld.addQueue hfresh hnew junk currentTime timeout event
      refine ⟨⟨_, by rw [TimerMem.stepQueue, hm']; rfl, ⟨m', q', home', rfl, h'⟩, ?_⟩, le_rfl,
        .add currentTime timeout event, rfl⟩
      intro p n hp
      dsimp only at hp ⊢
      split_ifs at hp
      · by_cases hpe : p = elem
        · rw [hpe, Function.update_self, Option.some_inj] at hp
          omega
        · rw [Function.update_of_ne hpe] at hp
          exact Nat.lt_succ_of_lt (hnext p n hp)
      · exact Nat.lt_succ_of_lt (hnext p n hp)
  | del elem =>
      obtain ⟨n, hn, hs⟩ := Option.bind_eq_some_iff.mp hs
      obtain ⟨r', hr', hs⟩ := Option.bind_eq_some_iff.mp hs
      obtain ⟨run, hrun, hs⟩ := Option.bind_eq_some_iff.mp hs
      obtain ⟨rfl, rfl⟩ := Prod.mk.inj (Option.some.inj hs)
      have hstep := hrun
      rw [QueueOp.step, hr', Option.map_some, Option.some_inj] at hrun
      subst hrun
      obtain ⟨m', q', home', hm', h'⟩ := hheld.delQueue hn hr'
      refine ⟨⟨_, by rw [TimerMem.stepQueue, hm']; rfl, ⟨m', q', home', rfl, h'⟩, ?_⟩,
        Nat.le_succ _, .del n, hstep⟩
      intro p k hp
      dsimp only at hp ⊢
      by_cases hpe : p = elem
      · rw [hpe, Function.update_self] at hp
        cases hp
      · rw [Function.update_of_ne hpe] at hp
        exact hnext p k hp
  | reset elem currentTime timeout =>
      obtain ⟨n, hn, hs⟩ := Option.bind_eq_some_iff.mp hs
      obtain ⟨r', hr', hs⟩ := Option.bind_eq_some_iff.mp hs
      obtain ⟨run, hrun, hs⟩ := Option.bind_eq_some_iff.mp hs
      obtain ⟨rfl, rfl⟩ := Prod.mk.inj (Option.some.inj hs)
      have hstep := hrun
      rw [QueueOp.step, hr', Option.map_some, Option.some_inj] at hrun
      subst hrun
      obtain ⟨m', q', home', hm', h'⟩ := hheld.resetQueue hn hr'
      exact ⟨⟨_, by rw [TimerMem.stepQueue, hm']; rfl, ⟨m', q', home', rfl, h'⟩, hnext⟩,
        Nat.le_succ _, .reset n currentTime timeout, hstep⟩
  | check currentTime maxCbTimes =>
      obtain ⟨rfl, rfl⟩ := Prod.mk.inj (Option.some.inj hs)
      have hroom : q.length < fuel :=
        lt_of_le_of_lt (Tracked.length_le hheld hnext (i := ()) rfl) hfuel
      obtain ⟨m', q', home', hm', h'⟩ := hheld.checkQueue hroom currentTime maxCbTimes
      refine ⟨⟨_, ?_, ⟨m', q', home', rfl, h'⟩, ?_⟩, Nat.le_succ _,
        .check currentTime maxCbTimes, rfl⟩
      · rw [TimerMem.stepQueue, hm', Option.map_some, List.length_map]
      · exact fun p k hp => hnext p k (forget_eq_some.mp hp).1

end QueueKept

/-- **The queue timer uses no freed memory**, if `del` and `reset` are handed linked
elements: its calls return, and its callbacks get, what the calls on lists do, in a
run of `QueueOp`, and after them every such call returns again.  A destroy frees the
elements that are linked, so what it leaves allocated are the elements that a refused
reset has unlinked. -/
theorem queue_timer_memory_safe [DecidableEq π] {calls : List (TimerCall Unit π ε)} {fuel : ℕ}
    (hfuel : calls.length < fuel) {t : Addressed (QueueRun ε) π × List (ℤ × List ε)}
    (h : Run (traced TimerCall.onQueue) (fun s call => call.Careful s.1)
      (⟨QueueRun.start, fun _ => none⟩, []) calls t) :
    (∃ ops, Run QueueOp.step (fun _ _ => True) QueueRun.start ops t.1.run) ∧
      ∃ timer elems, Run (traced (TimerMem.stepQueue fuel)) (fun _ _ => True)
          (TimerMem.createQueue, []) calls (timer, t.2) ∧
        (∀ call : TimerCall Unit π ε, call.Careful t.1 →
          ∃ r b timer', call.onQueue t.1 = some (r, b) ∧
            TimerMem.stepQueue fuel timer call = some (r, timer')) ∧
        (∀ p, (timer.inner.queue.elems p).isSome = (t.1.name p).isSome) ∧
        TimerMem.destroyQueue fuel timer = some elems ∧
        ∀ p, (elems p).isSome = true ↔
          ∃ n, t.1.name p = some n ∧ n ∉ t.1.run.timer.inner.queue.map TimerElem.id := by
  obtain ⟨timer, hrun, hnext, hops, hkept⟩ :=
    h.simulates_counted (R := fun n a timer => a.run.next ≤ n ∧
      (∃ ops, Run QueueOp.step (fun _ _ => True) QueueRun.start ops a.run) ∧ QueueKept timer a)
      le_rfl
      ⟨le_rfl, ⟨[], .nil⟩, ⟨TqMem.tailqInit TqMem.start (), [], _, rfl, QueueHeld.create⟩,
        fun p n hp => by cases hp⟩
      fun n a timer call r b hn ⟨hnext, ⟨ops, hops⟩, hkept⟩ hcall hs => by
        obtain ⟨⟨timer', htimer', hkept'⟩, hnext', op, hop⟩ :=
          hkept.step (hnext.trans_lt (hn.trans hfuel)) hcall.1 hs
        exact ⟨timer', htimer', by omega, ⟨ops ++ [op], hops.snoc trivial hop⟩, hkept'⟩
  have hnext' := hnext.trans_lt hfuel
  have hreturns : ∀ call : TimerCall Unit π ε, call.Careful t.1 →
      ∃ r b timer', call.onQueue t.1 = some (r, b) ∧
        TimerMem.stepQueue fuel timer call = some (r, timer') := by
    intro call ⟨hfresh, hlinked⟩
    obtain ⟨r, b, hs⟩ := hlinked.returns
    obtain ⟨⟨timer', htimer', -⟩, -⟩ := hkept.step hnext' hfresh hs
    exact ⟨r, b, timer', hs, htimer'⟩
  obtain ⟨⟨m, q, home, rfl, hheld⟩, hfresh⟩ := hkept
  have hroom : q.length < fuel := by
    have hle := Tracked.length_le hheld hfresh (i := ()) rfl
    omega
  obtain ⟨elems, hdestroy, hleft⟩ := hheld.destroyQueue hroom
  exact ⟨hops, _, elems, hrun, hreturns, hheld.alloc, hdestroy, hleft⟩

/-- Two elements; the first is unlinked by a reset that is refused, and stays when the
second is run and freed. -/
def resetRefused : List (TimerCall Unit ℕ ℕ) :=
  [.add 100 ⟨.next 7, some 7, ⟨1, 2, 3, 4⟩⟩ ulongMax 0 55,
    .add 200 ⟨.next 7, none, ⟨1, 2, 3, 4⟩⟩ ulongMax 0 66, .reset 100 0 5, .check ulongMax 9]

/-- The run, and what a destroy leaves. -/
theorem queue_timer_memory_safe_run : ∃ (timer : ZxTimer (QueueMem ℕ ℕ))
    (elems : Cells ℕ (Slot Unit ℕ) (ElemFields ℕ)),
    Run (traced (TimerMem.stepQueue 9)) (fun _ _ => True) (TimerMem.createQueue, []) resetRefused
        (timer, [(0, []), (0, []), (-1, []), (1, [66])]) ∧
      TimerMem.destroyQueue 9 timer = some elems ∧ (elems 100).isSome = true := by
  have hexec : (exec (fun (s : Addressed (QueueRun ℕ) ℕ × List (ℤ × List ℕ)) call =>
        if call.Careful s.1 then traced TimerCall.onQueue s call else none)
      (⟨QueueRun.start, fun _ => none⟩, []) resetRefused).map
      (fun t => (t.2, t.1.name 100, t.1.run.timer.inner.queue.map TimerElem.id)) =
      some ([(0, []), (0, []), (-1, []), (1, [66])], some 0, []) := by
    decide +kernel
  obtain ⟨t, ht, hout⟩ := Option.map_eq_some_iff.mp hexec
  obtain ⟨hrs, hrest⟩ := Prod.mk.inj hout
  obtain ⟨hname, hids⟩ := Prod.mk.inj hrest
  obtain ⟨-, timer, elems, hrun, -, -, hdestroy, hleft⟩ := queue_timer_memory_safe
    (show _ < 9 by decide) (run_of_exec_guarded ht)
  refine ⟨timer, elems, by rw [← hrs]; exact hrun, hdestroy, (hleft 100).mpr ⟨0, hname, ?_⟩⟩
  rw [hids]
  exact List.not_mem_nil

/-- A `del` of the first follows its link to the second, which was freed. -/
example : exec (traced (TimerMem.stepQueue 9)) (TimerMem.createQueue, [])
    (resetRefused ++ [.del 100]) = none := by decide +kernel

end CLibrary
