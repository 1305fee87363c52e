import CLibrary.Timer.Elements

/-!
`timer.c` in memory: the timers of `Timer/Basic.lean` with their elements allocated,
linked by the macros of `queue.h`, and freed.

* `QueueMem`, `WheelMem`: the structures, where the queues are in the memory of the
  elements.
* `TimerMem.addQueue`, `delQueue`, `checkQueue`, `resetQueue`, `destroyQueue`: the
  `TM_TYPE_QUEUE` case of every operation.
* `TimerMem.createWheel`, `addWheel`, `delWheel`, `checkWheel`, `resetWheel`,
  `destroyWheel`: the `TM_TYPE_WHEEL` case.

An index is the address of its element.  An operation has no result where the code
would follow a null pointer or one to an element that was freed, and the `while`
loops run on fuel.  An operation that runs callbacks returns the events they are
called with, in order; `destroy` returns the memory it leaves.
-/

namespace CLibrary

variable {π ε : Type}

/-- `struct _timer_queue_t`, with the memory of its elements. -/
structure QueueMem (π ε : Type) where
  lastExpireTime : ℕ
  queue : ElemMem Unit π ε

/-- `struct _timer_wheel_t`, with the memory of its elements; the heads are the
spokes. -/
structure WheelMem (π ε : Type) where
  wheelSize : ℕ
  createTime : ℕ
  spokeIndex : ℕ
  lastCheckRelativeTick : ℕ
  spokes : ElemMem ℕ π ε

namespace TimerMem

open ZxTimer

variable [DecidableEq π]

/-- The loop of `zx_timer_destroy`. -/
def freeLoop {ι : Type} : ℕ → Option π → ElemMem ι π ε → Option (ElemMem ι π ε)
  | 0, _, _ => none
  | fuel + 1, tmpElem, m =>
      match tmpElem with
      | none => some m
      | some elem => do
          let tmp ← m.tailqNext elem
          let m ← m.free elem
          freeLoop fuel tmp m

/-! ### The queue -/

/-- `zx_timer_create` of a queue. -/
def createQueue : ZxTimer (QueueMem π ε) :=
  ⟨⟨ulongMax, TqMem.tailqInit TqMem.start ()⟩, 0, sizeofInner⟩

/-- What `zx_timer_del` and `zx_timer_reset` set `last_expire_time` to. -/
def tailExpire (queue : ElemMem Unit π ε) : Option ℕ := do
  let empty ← queue.tailqEmpty ()
  if empty = false then
    let tail ← queue.tailqLast ()
    let tail ← tail
    let c ← queue.elems tail
    return c.val.expire
  else return ulongMax

/-- `zx_timer_add`; `malloc` returns `elem`, with `junk` in it. -/
def addQueue (timer : ZxTimer (QueueMem π ε)) (elem : π)
    (junk : Cell π (Slot Unit π) (ElemFields ε)) (currentTime timeout : ℕ) (event : ε) :
    Option (ℤ × ZxTimer (QueueMem π ε)) :=
  let expire := uadd 64 currentTime timeout
  if expire < timer.inner.lastExpireTime then some (-1, timer)
  else do
    let queue := timer.inner.queue.malloc elem junk
    let queue ← queue.setVal elem { junk.val with expire := expire, event := event }
    let queue ← queue.tailqInsertTail () elem
    return (0, countUp { timer with inner := ⟨expire, queue⟩ })

/-- `zx_timer_del`. -/
def delQueue (timer : ZxTimer (QueueMem π ε)) (elem : π) : Option (ℕ × ZxTimer (QueueMem π ε)) := do
  let c ← timer.inner.queue.elems elem
  let queue ← timer.inner.queue.tailqRemove () elem
  let lastExpireTime ← tailExpire queue
  let queue ← queue.free elem
  return (c.val.expire, countDown { timer with inner := ⟨lastExpireTime, queue⟩ })

/-- The loop of `zx_timer_check`. -/
def queueLoop (currentTime maxCbTimes : ℕ) :
    ℕ → Option π → ℕ → ZxTimer (QueueMem π ε) → Option (List ε × ZxTimer (QueueMem π ε))
  | 0, _, _, _ => none
  | fuel + 1, tmpElem, cbCnt, timer =>
      match tmpElem with
      | none => some ([], timer)
      | some elem =>
          if cbCnt ≥ maxCbTimes then some ([], timer)
          else do
            let c ← timer.inner.queue.elems elem
            if currentTime < c.val.expire then return ([], timer)
            let queue ← timer.inner.queue.tailqRemove () elem
            let tmp ← queue.tailqNext elem
            let queue ← queue.free elem
            let r ← queueLoop currentTime maxCbTimes fuel tmp (cbCnt + 1)
              (countDown { timer with inner := { timer.inner with queue := queue } })
            return (c.val.event :: r.1, r.2)

/-- `zx_timer_check`. -/
def checkQueue (fuel : ℕ) (timer : ZxTimer (QueueMem π ε)) (currentTime maxCbTimes : ℕ) :
    Option (List ε × ZxTimer (QueueMem π ε)) := do
  let tmpElem ← timer.inner.queue.tailqFirst ()
  queueLoop currentTime maxCbTimes fuel tmpElem 0 timer

/-- `zx_timer_reset`. -/
def resetQueue (timer : ZxTimer (QueueMem π ε)) (elem : π) (currentTime timeout : ℕ) :
    Option (ℤ × ZxTimer (QueueMem π ε)) := do
  let queue ← timer.inner.queue.tailqRemove () elem
  let lastExpireTime ← tailExpire queue
  let expire := uadd 64 currentTime timeout
  if expire < lastExpireTime then
    return (-1, { timer with inner := ⟨lastExpireTime, queue⟩ })
  else
    let c ← queue.elems elem
    let queue ← queue.setVal elem { c.val with expire := expire }
    let queue ← queue.tailqInsertTail () elem
    return (0, { timer with inner := ⟨expire, queue⟩ })

/-- `zx_timer_destroy`. -/
def destroyQueue (fuel : ℕ) (timer : ZxTimer (QueueMem π ε)) :
    Option (Cells π (Slot Unit π) (ElemFields ε)) := do
  let tmpElem ← timer.inner.queue.tailqFirst ()
  let queue ← freeLoop fuel tmpElem timer.inner.queue
  return queue.elems

/-! ### The wheel -/

/-- `zx_timer_create` of a wheel. -/
def createWheel (wheelSize : ℕ) : Option (ZxTimer (WheelMem π ε)) :=
  if wheelSize ≤ 0 ∨ wheelSize > maxWheelSize then none
  else
    let spokes : ElemMem ℕ π ε :=
      (List.range wheelSize).foldl (fun spokes i => spokes.tailqInit i) TqMem.start
    some ⟨⟨wheelSize, ulongMax, 0, ulongMax, spokes⟩, 0, uadd 64 sizeofInner (sizeofTQ * wheelSize)⟩

/-- The first add starts the wheel. -/
def startAt (wheel : WheelMem π ε) (currentTime : ℕ) : WheelMem π ε :=
  if wheel.lastCheckRelativeTick = ulongMax then
    { wheel with createTime := currentTime, spokeIndex := 0, lastCheckRelativeTick := 0 }
  else wheel

/-- The spoke of a timeout set at `current_time`. -/
def cursorOf (wheel : WheelMem π ε) (currentTime timeout : ℕ) : ℕ :=
  uadd 64 (usub 64 currentTime wheel.createTime) (timeout % wheel.wheelSize) % wheel.wheelSize

/-- The stores to the members of an element, and its insertion. -/
def insertElem (wheel : WheelMem π ε) (elem : π) (event : ε) (currentTime timeout : ℕ) :
    Option (WheelMem π ε) := do
  let cursor := cursorOf wheel currentTime timeout
  let spokes ← wheel.spokes.setVal elem
    ⟨uadd 64 currentTime timeout, toInt (timeout / wheel.wheelSize), cursor, event⟩
  let spokes ← spokes.tailqInsertTail cursor elem
  return { wheel with spokes := spokes }

/-- `zx_timer_add`; `malloc` returns `elem`, with `junk` in it. -/
def addWheel (timer : ZxTimer (WheelMem π ε)) (elem : π) (junk : Cell π (Slot ℕ π) (ElemFields ε))
    (currentTime timeout : ℕ) (event : ε) : Option (ZxTimer (WheelMem π ε)) := do
  let wheel := startAt timer.inner currentTime
  let wheel := { wheel with spokes := wheel.spokes.malloc elem junk }
  let wheel ← insertElem wheel elem event currentTime timeout
  return countUp { timer with inner := wheel }

/-- `zx_timer_del`. -/
def delWheel (timer : ZxTimer (WheelMem π ε)) (elem : π) : Option (ℕ × ZxTimer (WheelMem π ε)) := do
  let c ← timer.inner.spokes.elems elem
  let spokes ← timer.inner.spokes.tailqRemove c.val.cursor elem
  let spokes ← spokes.free elem
  return (c.val.expire, countDown { timer with inner := { timer.inner with spokes := spokes } })

/-- What a loop of `zx_timer_check` has called, whether it stopped at
`max_cb_times`, and what it leaves. -/
structure Ran (π ε : Type) where
  fired : List ε
  cut : Bool
  timer : ZxTimer (WheelMem π ε)

/-- The timer with other spokes. -/
def withSpokes (timer : ZxTimer (WheelMem π ε)) (spokes : ElemMem ℕ π ε) : ZxTimer (WheelMem π ε) :=
  { timer with inner := { timer.inner with spokes := spokes } }

/-- The inner loop of `zx_timer_check`. -/
def walkLoop (maxCbTimes spoke : ℕ) :
    ℕ → Option π → ℕ → ZxTimer (WheelMem π ε) → Option (Ran π ε)
  | 0, _, _, _ => none
  | fuel + 1, tmpElem, cbCnt, timer =>
      match tmpElem with
      | none => some ⟨[], false, timer⟩
      | some elem => do
          let c ← timer.inner.spokes.elems elem
          if c.val.rotationCnt ≠ 0 then
            let spokes ← timer.inner.spokes.setVal elem
              { c.val with rotationCnt := c.val.rotationCnt - 1 }
            let tmpElem ← spokes.tailqNext elem
            walkLoop maxCbTimes spoke fuel tmpElem cbCnt (withSpokes timer spokes)
          else if cbCnt ≥ maxCbTimes then return ⟨[], true, timer⟩
          else
            let tmp ← timer.inner.spokes.tailqNext elem
            let spokes ← timer.inner.spokes.tailqRemove spoke elem
            let spokes ← spokes.free elem
            let r ← walkLoop maxCbTimes spoke fuel tmp (cbCnt + 1)
              (countDown (withSpokes timer spokes))
            return { r with fired := c.val.event :: r.fired }

/-- The step to the next spoke. -/
def nextSpoke (timer : ZxTimer (WheelMem π ε)) : ZxTimer (WheelMem π ε) :=
  { timer with inner := { timer.inner with
    spokeIndex := uadd 64 timer.inner.spokeIndex 1 % timer.inner.wheelSize } }

/-- Rounds of the outer loop of `zx_timer_check`. -/
def tickLoop (fuel maxCbTimes : ℕ) : ℕ → ZxTimer (WheelMem π ε) → ℕ → Option (Ran π ε)
  | 0, timer, _ => some ⟨[], false, timer⟩
  | n + 1, timer, cbCnt => do
      let tmpElem ← timer.inner.spokes.tailqFirst timer.inner.spokeIndex
      let r ← walkLoop maxCbTimes timer.inner.spokeIndex fuel tmpElem cbCnt timer
      if r.cut then return r
      let r' ← tickLoop fuel maxCbTimes n (nextSpoke r.timer) (cbCnt + r.fired.length)
      return { r' with fired := r.fired ++ r'.fired }

/-- `zx_timer_check`.  A round that would take the `int` counter past its range has
no result. -/
def checkWheel (fuel : ℕ) (timer : ZxTimer (WheelMem π ε)) (currentTime maxCbTimes : ℕ) :
    Option (List ε × ZxTimer (WheelMem π ε)) :=
  if timer.inner.createTime = ulongMax then some ([], timer)
  else do
    let tickcnt :=
      usub 64 (usub 64 currentTime timer.inner.createTime) timer.inner.lastCheckRelativeTick
    let r ← tickLoop fuel maxCbTimes (min tickcnt (2 ^ 31)) timer 0
    if tickcnt ≥ 2 ^ 31 ∧ r.cut = false then none
    else
      return (r.fired, { r.timer with inner := { r.timer.inner with
        lastCheckRelativeTick := usub 64 currentTime r.timer.inner.createTime } })

/-- `zx_timer_reset`; it returns 0. -/
def resetWheel (timer : ZxTimer (WheelMem π ε)) (elem : π) (currentTime timeout : ℕ) :
    Option (ZxTimer (WheelMem π ε)) := do
  let c ← timer.inner.spokes.elems elem
  let spokes ← timer.inner.spokes.tailqRemove c.val.cursor elem
  let wheel := startAt { timer.inner with spokes := spokes } currentTime
  let wheel ← insertElem wheel elem c.val.event currentTime timeout
  return { timer with inner := wheel }

end TimerMem

end CLibrary
