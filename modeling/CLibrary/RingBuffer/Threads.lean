import CLibrary.RingBuffer.Wakeup

/-!
Every operation of `ring_buffer.c`, called by any number of threads.

A step is one load or store of `start`, `end` or a slot, or one operation on a
lock, a mutex or a condition variable, in both modes of the ring.

* `RingCall`: the calls, each with its `side`, its `lock` and its `work`.  The
  three say all there is to the differences between the operations.
* `RingPc`, `RingFrame`: where a call is, and its locals.  `turns` counts how often
  the test of a wait loop has sent it round.
* `RingState.move`, `RingState.step`: the step relation over an arbitrary type
  of threads.
* `StepShape`, `RingState.move_shape`: what a step can do to the calls and to
  the spin locks.
* `LockInv`: the calls behind a lock are those that hold it.

`Linear`, `Wakeup` and `Bulk` write the steps of some of the calls out once more, with
what their invariants speak of; `Modes` and `Parts` find them in the runs of this module.
-/

namespace CLibrary

open ZxRingbuffer (BulkCall bulkError nbReady)

variable {τ α : Type*}

/-! ### The operations -/

/-- How an operation keeps its peers out: not at all, by `LOCK` or by
`TRY_LOCK`. -/
inductive LockUse where
  | alone | lock | tryLock
  deriving DecidableEq, Repr

/-- What an operation does between its locks, with its locals: one element,
after a test of its own if it `tries`, or a bulk.  `value` is what is to be
written, or the variable a read leaves its result in. -/
inductive Work (α : Type*) where
  | one (tries : Bool) (value : α)
  | bulk (c : BulkCall α)

/-- A call of one of the operations.  The `value` of a read is what its
variable holds beforehand. -/
inductive RingCall (α : Type*) where
  | write (value : α)
  | writeBulk (values : ℕ → α) (nbBuffers minNbBuffers : UInt64)
  | tryWrite (value : α)
  | read (value : α)
  | readBulk (values : ℕ → α) (nbBuffers minNbBuffers : UInt64)
  | tryRead (value : α)
  | swrite (value : α)
  | swriteBulk (values : ℕ → α) (nbBuffers minNbBuffers : UInt64)
  | trySwrite (value : α)
  | trySwriteBl (value : α)
  | sread (value : α)
  | sreadBulk (values : ℕ → α) (nbBuffers minNbBuffers : UInt64)
  | trySread (value : α)
  | trySreadBl (value : α)

namespace RingCall

/-- The index it stores. -/
def side : RingCall α → Side
  | .write _ | .writeBulk _ _ _ | .tryWrite _ | .swrite _ | .swriteBulk _ _ _ | .trySwrite _
  | .trySwriteBl _ => .write
  | .read _ | .readBulk _ _ _ | .tryRead _ | .sread _ | .sreadBulk _ _ _ | .trySread _
  | .trySreadBl _ => .read

/-- `LOCK`, `TRY_LOCK` or neither. -/
def lock : RingCall α → LockUse
  | .write _ | .writeBulk _ _ _ | .tryWrite _ | .read _ | .readBulk _ _ _ | .tryRead _ => .alone
  | .swrite _ | .swriteBulk _ _ _ | .trySwriteBl _ | .sread _ | .sreadBulk _ _ _
  | .trySreadBl _ => .lock
  | .trySwrite _ | .trySread _ => .tryLock

/-- The operation it is, or calls between its locks. -/
def work : RingCall α → Work α
  | .write value | .swrite value | .read value | .sread value => .one false value
  | .tryWrite value | .trySwrite value | .trySwriteBl value | .tryRead value | .trySread value
  | .trySreadBl value => .one true value
  | .writeBulk values nb mn | .swriteBulk values nb mn | .readBulk values nb mn
  | .sreadBulk values nb mn => .bulk ⟨values, nb.toNat, mn.toNat, 0⟩

end RingCall

namespace Side

/-- `rb->elements[e] = value` on the writing side. -/
def storeSlot (rb : ZxRingbuffer α) (e : ℕ) (value : α) : Side → ZxRingbuffer α
  | .write => { rb with elements := Function.update rb.elements e value }
  | .read => rb

/-- `value = rb->elements[e]` on the reading side. -/
def loadSlot (rb : ZxRingbuffer α) (e : ℕ) : Side → Option α
  | .write => none
  | .read => some (rb.elements e)

/-- The condition of `nb_empty`, after `start` was loaded as `x`, and of
`nb_full`, after `end` was. -/
def nearAt (rb : ZxRingbuffer α) (x : ℕ) : Side → Bool
  | .write => x ≤ rb.endIdx
  | .read => x < rb.start

/-- The first branch of `nb_empty`, of `nb_full`. -/
def nearCount (rb : ZxRingbuffer α) (x : ℕ) : Side → ℕ
  | .write => usub 64 (usub 64 (uadd 64 x rb.size) rb.endIdx) 1
  | .read => usub 64 (uadd 64 x rb.size) rb.start

/-- Their `else` branch. -/
def farCount (rb : ZxRingbuffer α) (x : ℕ) : Side → ℕ
  | .write => usub 64 (usub 64 x rb.endIdx) 1
  | .read => usub 64 x rb.start

/-- The copy of one element of a bulk, as the call sees it. -/
def copied (rb : ZxRingbuffer α) (c : BulkCall α) (e : ℕ) : Side → BulkCall α
  | .write => { c with i := c.i + 1 }
  | .read =>
      { c with values := Function.update c.values c.i (rb.elements e), i := c.i + 1 }

end Side

/-! ### The step relation -/

/-- Where a call is; `x` is what the first load of a test has loaded, `v` the
local `value` of `zx_ringbuffer_read`. -/
inductive RingPc (α : Type*) where
  /-- `USE_CHECK_EARLY`: `is_full`, `is_empty` before the lock. -/
  | early1
  | early2 (x : ℕ)
  /-- `LOCK(w)`, `TRY_LOCK(w, …)` and those of `r`. -/
  | lock
  /-- `is_full`, `is_empty` of a `try` operation, or of a bulk that may move
  nothing. -/
  | full1
  | full2 (x : ℕ)
  /-- `wait_for_empty`, `wait_for_full` in blocking mode: the mutex, the test,
  `pthread_cond_wait` and the way out of it, the mutex. -/
  | enter
  | test1
  | test2 (x : ℕ)
  | wait
  | wake
  | leave
  /-- The loop of the polling mode. -/
  | poll1
  | poll2 (x : ℕ)
  /-- The slot of a single element: the load of the index, then the access. -/
  | index
  | slot (e : ℕ)
  /-- The index moves on: the load, then the store. -/
  | next (v : Option α)
  | store (v : Option α) (e : ℕ)
  /-- `nb_empty`, `nb_full`: the condition and its two branches. -/
  | count1
  | count2 (x : ℕ)
  | near1
  | near2 (x : ℕ)
  | far1
  | far2 (x : ℕ)
  /-- `end = rb->end`, `start = rb->start`, and the `for` loop with its
  register and the store behind it. -/
  | base (ready : ℕ)
  | copy (ready e : ℕ)
  /-- `notify_full`, `notify_empty`. -/
  | notify (v : Option α)
  | broadcast (v : Option α)
  | release (v : Option α)
  /-- The result of a read goes to its variable. -/
  | assign (v : α)
  /-- `UNLOCK(w)`, `UNLOCK(r)` if there was a lock, and the return of `r`; an
  operation without a result returns 1. -/
  | ret (r : ℕ)

/-- A call that is under way. -/
structure RingFrame (α : Type*) where
  call : RingCall α
  work : Work α
  pc : RingPc α
  turns : ℕ

/-- The ring with its locks, the calls under way, and those that have returned
with their results.  `spin` and `cond` are as in `WaitState`. -/
structure RingState (τ α : Type*) where
  ring : ZxRingbuffer α
  spin : Side → Option τ
  cond : Side → Monitor τ
  frame : τ → Option (RingFrame α)
  done : List (RingFrame α × ℕ)

/-- The label of a step: an idle thread calls, one inside a call moves, one
asleep wakes up by itself. -/
inductive RingAction (τ α : Type*) where
  | call (t : τ) (c : RingCall α)
  | move (t : τ)
  | spurious (t : τ) (d : Side)

/-- The beginning of `wait_for_empty`, `wait_for_full`. -/
def waitPc (rb : ZxRingbuffer α) : RingPc α :=
  if rb.mode = ZxRingbuffer.blocking then .enter else .poll1

namespace Work

/-- The operations with an early test: the `try` operations, and a bulk that
may move nothing. -/
def early : Work α → Bool
  | .one tries _ => tries
  | .bulk c => c.minNbBuffers = 0

/-- Behind the lock. -/
def body (rb : ZxRingbuffer α) : Work α → RingPc α
  | .one tries _ => if tries then .full1 else waitPc rb
  | .bulk c =>
      if c.minNbBuffers > c.nbBuffers then .ret bulkError
      else if c.minNbBuffers = 0 then .full1
      else waitPc rb

/-- Behind the wait loop. -/
def access : Work α → RingPc α
  | .one _ _ => .index
  | .bulk _ => .count1

/-- Behind the notification: a read has its result to deliver, a bulk may have
to go on. -/
def after (rb : ZxRingbuffer α) (v : Option α) : Work α → RingPc α
  | .one _ _ => match v with
      | some v => .assign v
      | none => .ret 1
  | .bulk c => if c.i < c.minNbBuffers then waitPc rb else .ret c.i

/-- Behind the store of the index. -/
def stored (rb : ZxRingbuffer α) (v : Option α) (w : Work α) : RingPc α :=
  if rb.mode = ZxRingbuffer.blocking then .notify v else w.after rb v

/-- The variable of a read gets its result. -/
def assign (v : α) : Work α → Work α
  | .one tries _ => .one tries v
  | .bulk c => .bulk c

end Work

/-- The first statement of a call. -/
def RingCall.entry (rb : ZxRingbuffer α) (c : RingCall α) : RingPc α :=
  match c.lock with
  | .alone => c.work.body rb
  | .lock | .tryLock => if c.work.early then .early1 else .lock

/-- Once more round the wait loop. -/
def RingFrame.again (f : RingFrame α) : RingFrame α := { f with turns := f.turns + 1 }

namespace RingState

/-- All threads idle on a fresh ring. -/
def start (rb : ZxRingbuffer α) : RingState τ α :=
  ⟨rb, fun _ => none, fun _ => .free, fun _ => none, []⟩

variable [DecidableEq τ]

/-- Thread `t` is in the call `f`. -/
def set (s : RingState τ α) (t : τ) (f : RingFrame α) : RingState τ α :=
  { s with frame := Function.update s.frame t (some f) }

/-- The call `f` of thread `t` goes to `pc`. -/
def goto (s : RingState τ α) (t : τ) (f : RingFrame α) (pc : RingPc α) : RingState τ α :=
  s.set t { f with pc := pc }

/-- The call `f` of thread `t` goes to `pc`, and the monitor of its side, or of
the other, changes. -/
def gotoWith (s : RingState τ α) (t : τ) (f : RingFrame α) (pc : RingPc α) (d : Side)
    (m : Monitor τ) : RingState τ α :=
  { s.goto t f pc with cond := Function.update s.cond d m }

/-- The call `f` of thread `t` returns `r`. -/
def finish (s : RingState τ α) (t : τ) (f : RingFrame α) (r : ℕ) : RingState τ α :=
  { s with frame := Function.update s.frame t none, done := s.done ++ [(f, r)] }

/-- The next step of a call that is between its wait loop and its notification
with the bulk `c`. -/
def bulkMove (s : RingState τ α) (t : τ) (f : RingFrame α) (c : BulkCall α) :
    Option (RingState τ α) :=
  let rb := s.ring
  let d := f.call.side
  match f.pc with
  | .count1 => some (s.goto t f (.count2 (d.other.index rb)))
  | .count2 x => some (s.goto t f (if d.nearAt rb x then .near1 else .far1))
  | .near1 => some (s.goto t f (.near2 (d.other.index rb)))
  | .near2 x => some (s.goto t f (.base (nbReady (d.nearCount rb x) c)))
  | .far1 => some (s.goto t f (.far2 (d.other.index rb)))
  | .far2 x => some (s.goto t f (.base (nbReady (d.farCount rb x) c)))
  | .base ready => some (s.goto t f (.copy ready (d.index rb)))
  | .copy ready e =>
      if c.i < ready then
        some { s.set t { f with
            work := .bulk (d.copied rb c e)
            pc := .copy ready (uadd 64 e 1 % rb.size) } with
          ring := d.storeSlot rb e (c.values c.i) }
      else some { s.goto t f (f.work.stored rb none) with ring := d.storeIndex rb e }
  | _ => none

/-- The next step of a thread inside a call. -/
def move (s : RingState τ α) (t : τ) : Option (RingState τ α) :=
  let rb := s.ring
  match s.frame t with
  | none => none
  | some f =>
      let d := f.call.side
      match f.pc, f.work with
      | .early1, _ => some (s.goto t f (.early2 rb.start))
      | .early2 x, _ => some (if d.blockedAt rb x then s.finish t f 0 else s.goto t f .lock)
      | .lock, w =>
          match s.spin d with
          | some _ => none
          | none => some { s.goto t f (w.body rb) with spin := Function.update s.spin d (some t) }
      | .full1, _ => some (s.goto t f (.full2 rb.start))
      | .full2 x, _ => some (s.goto t f (if d.blockedAt rb x then .ret 0 else waitPc rb))
      | .enter, _ => ((s.cond d).lock t).map (s.gotoWith t f .test1 d)
      | .test1, _ => some (s.goto t f (.test2 rb.start))
      | .test2 x, _ =>
          some (if d.blockedAt rb x then s.goto t f.again .wait else s.goto t f .leave)
      | .wait, _ => some (s.gotoWith t f .wake d ((s.cond d).wait t))
      | .wake, _ => ((s.cond d).relock t).map (s.gotoWith t f .test1 d)
      | .leave, w => some (s.gotoWith t f w.access d (s.cond d).unlock)
      | .poll1, _ => some (s.goto t f (.poll2 rb.start))
      | .poll2 x, w =>
          some (if d.blockedAt rb x then s.goto t f.again .poll1 else s.goto t f w.access)
      | .index, _ => some (s.goto t f (.slot (d.index rb)))
      | .slot e, .one _ value =>
          some { s.goto t f (.next (d.loadSlot rb e)) with ring := d.storeSlot rb e value }
      | .next v, _ => some (s.goto t f (.store v (d.index rb)))
      | .store v e, w =>
          some { s.goto t f (w.stored rb v) with
            ring := d.storeIndex rb (uadd 64 e 1 % rb.size) }
      | .notify v, _ => ((s.cond d.other).lock t).map (s.gotoWith t f (.broadcast v) d.other)
      | .broadcast v, _ =>
          some (s.gotoWith t f (.release v) d.other (s.cond d.other).broadcast)
      | .release v, w => some (s.gotoWith t f (w.after rb v) d.other (s.cond d.other).unlock)
      | .assign v, w => some (s.set t { f with work := w.assign v, pc := .ret 1 })
      | .ret r, _ =>
          some { s.finish t f r with
            spin := if f.call.lock = .alone then s.spin else Function.update s.spin d none }
      | _, .bulk c => s.bulkMove t f c
      | _, .one _ _ => none

/-- One step of one thread. -/
def step (s : RingState τ α) : RingAction τ α → Option (RingState τ α)
  | .call t c =>
      match s.frame t with
      | none => some (s.set t ⟨c, c.work, c.entry s.ring, 0⟩)
      | some _ => none
  | .move t => s.move t
  | .spurious t d =>
      if t ∈ (s.cond d).asleep then
        some { s with cond := Function.update s.cond d ((s.cond d).wake t) }
      else none

end RingState

/-! ### What a step can do -/

/-- Past the lock, if there is one, and not yet returned. -/
def RingPc.inside : RingPc α → Bool
  | .early1 | .early2 _ | .lock => false
  | _ => true

/-- The step of thread `t` from `s` to `s'`, as the other threads see it: what
becomes of its call and of the spin locks. -/
inductive StepShape [DecidableEq τ] (s s' : RingState τ α) (t : τ) : Prop
  | call {c : RingCall α} (hframe : s.frame t = none)
      (hframe' : s'.frame = Function.update s.frame t (some ⟨c, c.work, c.entry s.ring, 0⟩))
      (hspin : s'.spin = s.spin)
  /-- The first load of the early test. -/
  | look {f : RingFrame α} {x : ℕ} (hframe : s.frame t = some f) (hpc : f.pc = .early1)
      (hframe' : s'.frame = Function.update s.frame t (some { f with pc := .early2 x }))
      (hspin : s'.spin = s.spin)
  /-- The early test says no. -/
  | back {f : RingFrame α} {x : ℕ} (hframe : s.frame t = some f) (hpc : f.pc = .early2 x)
      (htest : f.call.side.blockedAt s.ring x = true)
      (hframe' : s'.frame = Function.update s.frame t none) (hspin : s'.spin = s.spin)
  /-- The early test says yes. -/
  | arrive {f : RingFrame α} {x : ℕ} (hframe : s.frame t = some f) (hpc : f.pc = .early2 x)
      (htest : f.call.side.blockedAt s.ring x = false)
      (hframe' : s'.frame = Function.update s.frame t (some { f with pc := .lock }))
      (hspin : s'.spin = s.spin)
  | acquire {f f' : RingFrame α} (hframe : s.frame t = some f) (hpc : f.pc = .lock)
      (hfree : s.spin f.call.side = none)
      (hframe' : s'.frame = Function.update s.frame t (some f'))
      (hspin : s'.spin = Function.update s.spin f.call.side (some t))
      (hcall : f'.call = f.call) (hin : f'.pc.inside = true)
  | inside {f f' : RingFrame α} (hframe : s.frame t = some f) (hpc : f.pc.inside = true)
      (hframe' : s'.frame = Function.update s.frame t (some f'))
      (hspin : s'.spin = s.spin) (hcall : f'.call = f.call) (hin : f'.pc.inside = true)
  | leave {f : RingFrame α} {r : ℕ} (hframe : s.frame t = some f) (hpc : f.pc = .ret r)
      (hframe' : s'.frame = Function.update s.frame t none)
      (hspin : s'.spin = if f.call.lock = .alone then s.spin
        else Function.update s.spin f.call.side none)

lemma inside_waitPc (rb : ZxRingbuffer α) : (waitPc rb).inside = true := by
  rw [waitPc]
  split_ifs <;> rfl

namespace Work

lemma inside_body (rb : ZxRingbuffer α) (w : Work α) : (w.body rb).inside = true := by
  cases w with
  | one tries value => cases tries <;> first | rfl | exact inside_waitPc rb
  | bulk c =>
      rw [body]
      split_ifs <;> first | rfl | exact inside_waitPc rb

lemma inside_access (w : Work α) : w.access.inside = true := by
  cases w <;> rfl

lemma inside_after (rb : ZxRingbuffer α) (v : Option α) (w : Work α) :
    (w.after rb v).inside = true := by
  cases w with
  | one tries value => cases v <;> rfl
  | bulk c =>
      rw [after]
      split_ifs
      · exact inside_waitPc rb
      · rfl

lemma inside_stored (rb : ZxRingbuffer α) (v : Option α) (w : Work α) :
    (w.stored rb v).inside = true := by
  rw [stored]
  split_ifs
  · rfl
  · exact w.inside_after rb v

end Work

namespace RingState

variable [DecidableEq τ] {s s' : RingState τ α} {t : τ}

/-- A step inside a call, to whatever point behind the lock. -/
lemma inside_goto {f : RingFrame α} {pc : RingPc α} (hframe : s.frame t = some f)
    (hpc : f.pc.inside = true) (hin : pc.inside = true) : StepShape s (s.goto t f pc) t :=
  .inside hframe hpc rfl rfl rfl hin

lemma inside_gotoWith {f : RingFrame α} {pc : RingPc α} {d : Side} {m : Monitor τ}
    (hframe : s.frame t = some f) (hpc : f.pc.inside = true) (hin : pc.inside = true) :
    StepShape s (s.gotoWith t f pc d m) t :=
  .inside hframe hpc rfl rfl rfl hin

lemma bulkMove_shape {f : RingFrame α} {c : BulkCall α} (hframe : s.frame t = some f)
    (hpc : f.pc.inside = true) (hs : s.bulkMove t f c = some s') : StepShape s s' t := by
  obtain ⟨call, work, pc, turns⟩ := f
  cases pc with
  | count1 | near1 | near2 | far1 | far2 | base =>
      obtain rfl := Option.some.inj hs
      exact inside_goto hframe hpc rfl
  | count2 x =>
      obtain rfl := Option.some.inj hs
      exact inside_goto hframe hpc (by split_ifs <;> rfl)
  | copy ready e =>
      simp only [bulkMove] at hs
      split_ifs at hs with hi <;> obtain rfl := Option.some.inj hs
      · exact .inside hframe hpc rfl rfl rfl rfl
      · exact .inside hframe hpc rfl rfl rfl (work.inside_stored s.ring none)
  | _ => simp [bulkMove] at hs

lemma step_call {c : RingCall α} (hs : s.step (.call t c) = some s') :
    s.frame t = none ∧ s' = s.set t ⟨c, c.work, c.entry s.ring, 0⟩ := by
  simp only [step] at hs
  cases hf : s.frame t with
  | some f => simp [hf] at hs
  | none =>
      rw [hf] at hs
      exact ⟨rfl, (Option.some.inj hs).symm⟩

lemma step_spurious {d : Side} (hs : s.step (.spurious t d) = some s') :
    s' = { s with cond := Function.update s.cond d ((s.cond d).wake t) } := by
  simp only [step] at hs
  split_ifs at hs
  exact (Option.some.inj hs).symm

/-- Every move of a thread has its shape. -/
lemma move_shape (hs : s.move t = some s') : StepShape s s' t := by
  rw [move] at hs
  cases hframe : s.frame t with
  | none => simp [hframe] at hs
  | some f =>
      obtain ⟨call, work, pc, turns⟩ := f
      rw [hframe] at hs
      dsimp only at hs
      cases pc with
      | early1 =>
          obtain rfl := Option.some.inj hs
          exact .look hframe rfl rfl rfl
      | early2 x =>
          obtain rfl := Option.some.inj hs
          cases htest : call.side.blockedAt s.ring x with
          | true => exact .back hframe rfl htest (by simp [finish]) (by simp [finish])
          | false => exact .arrive hframe rfl htest (by simp [goto, set]) (by simp [goto, set])
      | lock =>
          cases hfree : s.spin call.side with
          | some u => simp [hfree] at hs
          | none =>
              rw [hfree] at hs
              obtain rfl := Option.some.inj hs
              exact .acquire hframe rfl hfree rfl rfl rfl (work.inside_body s.ring)
      | full1 | test1 | poll1 | index | next v =>
          obtain rfl := Option.some.inj hs
          exact inside_goto hframe rfl rfl
      | full2 x =>
          obtain rfl := Option.some.inj hs
          refine inside_goto hframe rfl ?_
          split_ifs
          · rfl
          · exact inside_waitPc s.ring
      | enter | wake | notify v =>
          obtain ⟨m, -, rfl⟩ := Option.map_eq_some_iff.mp hs
          exact inside_gotoWith hframe rfl rfl
      | test2 x =>
          obtain rfl := Option.some.inj hs
          split_ifs <;> exact .inside hframe rfl rfl rfl rfl rfl
      | poll2 x =>
          obtain rfl := Option.some.inj hs
          split_ifs
          · exact .inside hframe rfl rfl rfl rfl rfl
          · exact inside_goto hframe rfl work.inside_access
      | wait | broadcast v =>
          obtain rfl := Option.some.inj hs
          exact inside_gotoWith hframe rfl rfl
      | leave =>
          obtain rfl := Option.some.inj hs
          exact inside_gotoWith hframe rfl work.inside_access
      | release v =>
          obtain rfl := Option.some.inj hs
          exact inside_gotoWith hframe rfl (work.inside_after s.ring v)
      | slot e =>
          cases work with
          | one tries value =>
              obtain rfl := Option.some.inj hs
              exact .inside hframe rfl rfl rfl rfl rfl
          | bulk c => exact bulkMove_shape hframe rfl hs
      | store v e =>
          obtain rfl := Option.some.inj hs
          exact .inside hframe rfl rfl rfl rfl (work.inside_stored s.ring v)
      | assign v =>
          obtain rfl := Option.some.inj hs
          exact .inside hframe rfl rfl rfl rfl rfl
      | ret r =>
          obtain rfl := Option.some.inj hs
          exact .leave hframe rfl rfl rfl
      | count1 | count2 | near1 | near2 | far1 | far2 | base | copy =>
          cases work with
          | one tries value => simp at hs
          | bulk c => exact bulkMove_shape hframe rfl hs

end RingState

/-! ### Who holds the locks -/

/-- Holding the spin lock of side `d`. -/
def holdsSpin (d : Side) : Option (RingFrame α) → Bool
  | none => false
  | some f => f.pc.inside && f.call.lock != .alone && f.call.side == d

/-- An operation without a lock is never in front of one. -/
def Passed : Option (RingFrame α) → Prop
  | none => True
  | some f => f.call.lock = .alone → f.pc.inside = true

/-- The calls behind a lock are those that hold it. -/
structure LockInv (s : RingState τ α) : Prop where
  spin_iff : ∀ d t, holdsSpin d (s.frame t) = true ↔ s.spin d = some t
  passed : ∀ t, Passed (s.frame t)

lemma holds_eq_true {d : Side} {f : RingFrame α} :
    holdsSpin d (some f) = true ↔
      f.pc.inside = true ∧ f.call.lock ≠ .alone ∧ f.call.side = d := by
  simp [holdsSpin, and_assoc]

/-- In front of the lock nothing is held. -/
lemma holds_outside {f : RingFrame α} (h : f.pc.inside = false) (d : Side) :
    holdsSpin d (some f) = false := by
  simp [holdsSpin, h]

/-- Without a lock nothing is held. -/
lemma holds_alone {f : RingFrame α} (h : f.call.lock = .alone) (d : Side) :
    holdsSpin d (some f) = false := by
  simp [holdsSpin, h]

/-- The lock of the other side is not held. -/
lemma holds_other {f : RingFrame α} {d : Side} (h : d ≠ f.call.side) :
    holdsSpin d (some f) = false := by
  simp [holdsSpin, h.symm]

/-- Behind the lock only the call matters. -/
lemma holds_inside {f f' : RingFrame α} (hcall : f'.call = f.call) (hf : f.pc.inside = true)
    (hf' : f'.pc.inside = true) (d : Side) : holdsSpin d (some f') = holdsSpin d (some f) := by
  simp [holdsSpin, hcall, hf, hf']

lemma RingCall.entry_inside (rb : ZxRingbuffer α) (c : RingCall α) :
    (c.entry rb).inside = true ↔ c.lock = .alone := by
  rw [entry]
  cases c.lock with
  | alone => simp [Work.inside_body]
  | lock | tryLock => cases c.work.early <;> simp [RingPc.inside]

namespace LockInv

variable {s s' : RingState τ α} {t : τ}

lemma start (rb : ZxRingbuffer α) : LockInv (RingState.start rb : RingState τ α) :=
  ⟨fun _ _ => by simp [holdsSpin, RingState.start], fun _ => trivial⟩

/-- A call in front of a lock is of an operation that has one. -/
lemma lock_ne (h : LockInv s) {f : RingFrame α} (hf : s.frame t = some f)
    (hpc : f.pc.inside = false) : f.call.lock ≠ .alone := by
  intro hlock
  have hin := h.passed t
  rw [hf] at hin
  exact Bool.noConfusion (hpc.symm.trans (hin hlock))

variable [DecidableEq τ]

/-- A step of a thread that neither takes nor gives back a lock. -/
lemma keep (h : LockInv s) {f' : Option (RingFrame α)}
    (hframe : s'.frame = Function.update s.frame t f') (hspin : s'.spin = s.spin)
    (hholds : ∀ d, holdsSpin d f' = holdsSpin d (s.frame t)) (hpassed : Passed f') :
    LockInv s' := by
  refine ⟨fun d u => ?_, ?_⟩
  · rw [hframe, hspin]
    exact lock_keep (h.spin_iff d) (hholds d) u
  · rw [hframe]
    exact points_update (P := fun _ => Passed) hpassed fun u _ => h.passed u

/-- **The locks are held by the calls behind them**, whatever the step. -/
theorem of_shape (h : LockInv s) (hs : StepShape s s' t) : LockInv s' := by
  cases hs with
  | @call c hf hf' hspin =>
      refine h.keep hf' hspin (fun d => ?_) (RingCall.entry_inside s.ring c).mpr
      rw [hf]
      by_cases hlock : c.lock = .alone
      · exact holds_alone hlock d
      · refine holds_outside (Bool.eq_false_iff.mpr ?_) d
        exact mt (RingCall.entry_inside s.ring c).mp hlock
  | @look f x hf hpc hf' hspin =>
      have hout : f.pc.inside = false := by rw [hpc]; rfl
      have hlock := h.lock_ne hf hout
      refine h.keep hf' hspin (fun d => ?_) fun halone => absurd halone hlock
      rw [hf, holds_outside hout, holds_outside rfl]
  | @back f x hf hpc htest hf' hspin =>
      have hout : f.pc.inside = false := by rw [hpc]; rfl
      refine h.keep hf' hspin (fun d => ?_) trivial
      rw [hf, holds_outside hout]
      rfl
  | @arrive f x hf hpc htest hf' hspin =>
      have hout : f.pc.inside = false := by rw [hpc]; rfl
      have hlock := h.lock_ne hf hout
      refine h.keep hf' hspin (fun d => ?_) fun halone => absurd halone hlock
      rw [hf, holds_outside hout, holds_outside rfl]
  | @inside f f' hf hpc hf' hspin hcall hin =>
      refine h.keep hf' hspin (fun d => ?_) fun _ => hin
      rw [hf, holds_inside hcall hpc hin]
  | @acquire f f' hf hpc hfree hf' hspin hcall hin =>
      have hout : f.pc.inside = false := by rw [hpc]; rfl
      refine ⟨fun d u => ?_, ?_⟩
      · rw [hf', hspin]
        by_cases hd : d = f.call.side
        · rw [hd, Function.update_self]
          refine lock_acquire (h.spin_iff _) hfree ?_ u
          rw [holds_eq_true, hcall]
          exact ⟨hin, h.lock_ne hf hout, rfl⟩
        · rw [Function.update_of_ne hd]
          refine lock_keep (h.spin_iff d) ?_ u
          rw [hf, holds_outside hout, holds_other (hcall ▸ hd)]
      · rw [hf']
        exact points_update (P := fun _ => Passed) (fun _ => hin) fun u _ => h.passed u
  | @leave f r hf hpc hf' hspin =>
      have hin : f.pc.inside = true := by rw [hpc]; rfl
      refine ⟨fun d u => ?_, ?_⟩
      · rw [hf', hspin]
        split_ifs with hlock
        · refine lock_keep (h.spin_iff d) ?_ u
          rw [hf, holds_alone hlock]
          rfl
        · by_cases hd : d = f.call.side
          · rw [hd, Function.update_self]
            refine lock_release (h.spin_iff _) ?_ rfl u
            rw [hf, holds_eq_true]
            exact ⟨hin, hlock, rfl⟩
          · rw [Function.update_of_ne hd]
            refine lock_keep (h.spin_iff d) ?_ u
            rw [hf, holds_other hd]
            rfl
      · rw [hf']
        exact points_update (P := fun _ => Passed) trivial fun u _ => h.passed u

/-- Every step keeps the invariant. -/
lemma step (h : LockInv s) {a : RingAction τ α} (hs : s.step a = some s') : LockInv s' := by
  cases a with
  | move t => exact h.of_shape (RingState.move_shape hs)
  | call t c =>
      obtain ⟨hf, rfl⟩ := RingState.step_call hs
      exact h.of_shape (.call hf rfl rfl)
  | spurious t d =>
      obtain rfl := RingState.step_spurious hs
      exact ⟨h.spin_iff, h.passed⟩

end LockInv

end CLibrary
