import CLibrary.Library.Unsigned

/-!
`timer.c`: the queue timer and the wheel timer.

* `TimerElem`, `TimerQueue`, `TimerWheel`, `ZxTimer`: the structures.  A
  `TAILQ` is the list of its elements, first to last.
* `createQueue`, `addQueue`, `delQueue`, `checkQueue`, `resetQueue`: the
  `TM_TYPE_QUEUE` case of every operation.
* `createWheel`, `addWheel`, `delWheel`, `checkWheel`, `resetWheel`: the
  `TM_TYPE_WHEEL` case; `createWheel_spec` and the lemmas after it say what each
  of them can do.

An element is named by the number `id` of its allocation; it is what an index
points to.  The callback of an element and its argument are its `event`, and an
operation that runs callbacks returns the elements whose callbacks it ran, in
order.  Deleting or resetting an element that is not linked has no result.
`unsigned long` is 64 bits wide, and `-1` in one is `ulongMax`.
-/

namespace CLibrary

variable {ε : Type*}

/-- `ULONG_MAX`, which is what `-1` becomes. -/
def ulongMax : ℕ := 2 ^ 64 - 1

lemma ulongMax_lt : ulongMax < 2 ^ 64 := by decide

/-- An expire that does not wrap. -/
lemma uadd_of_le_ulongMax {a b : ℕ} (h : a + b ≤ ulongMax) : uadd 64 a b = a + b :=
  uadd_of_lt (lt_of_le_of_lt h ulongMax_lt)

/-- The conversion to `int`. -/
@[irreducible] def toInt (x : ℕ) : ℤ := Int.bmod x (2 ^ 32)

lemma bmod_of_lt (z : ℤ) (h0 : 0 ≤ z) (h : z < 2 ^ 31) : z.bmod (2 ^ 32) = z := by
  rw [Int.bmod_def]
  push_cast
  split_ifs <;> omega

lemma toInt_of_lt {x : ℕ} (h : x < 2 ^ 31) : toInt x = x := by
  delta toInt
  exact bmod_of_lt x (by positivity) (by exact_mod_cast h)

lemma toInt_nonneg {x : ℕ} (h : x < 2 ^ 31) : 0 ≤ toInt x :=
  (toInt_of_lt h).symm ▸ Int.natCast_nonneg x

lemma toNat_toInt {x : ℕ} (h : x < 2 ^ 31) : (toInt x).toNat = x :=
  (toInt_of_lt h).symm ▸ Int.toNat_natCast x

/-- `struct _timer_elem_t` without its links. -/
structure TimerElem (ε : Type*) where
  id : ℕ
  expire : ℕ
  rotationCnt : ℤ
  cursor : ℕ
  event : ε

/-- `struct _timer_queue_t`. -/
structure TimerQueue (ε : Type*) where
  lastExpireTime : ℕ
  queue : List (TimerElem ε)

/-- `struct _timer_wheel_t`. -/
structure TimerWheel (ε : Type*) where
  wheelSize : ℕ
  createTime : ℕ
  spokeIndex : ℕ
  lastCheckRelativeTick : ℕ
  spokes : ℕ → List (TimerElem ε)

/-- `struct _zx_timer_inner_t`; `inner` is the member of the union that `type`
selects. -/
structure ZxTimer (τ : Type*) where
  inner : τ
  elemCnt : ℕ
  memOcupy : ℕ

/-- `sizeof(timer_elem_t)`. -/
def sizeofElem : ℕ := 48

/-- `sizeof(zx_timer_inner_t)`. -/
def sizeofInner : ℕ := 64

/-- `sizeof(struct TQ)`. -/
def sizeofTQ : ℕ := 16

/-- `MAX_WHEEL_SIZE`. -/
def maxWheelSize : ℕ := 10000

namespace ZxTimer

variable {τ : Type*}

/-- The counters after an element is linked. -/
def countUp (timer : ZxTimer τ) : ZxTimer τ :=
  { timer with
    elemCnt := uadd 64 timer.elemCnt 1
    memOcupy := uadd 64 timer.memOcupy sizeofElem }

/-- The counters after an element is freed. -/
def countDown (timer : ZxTimer τ) : ZxTimer τ :=
  { timer with
    elemCnt := usub 64 timer.elemCnt 1
    memOcupy := usub 64 timer.memOcupy sizeofElem }

/-- `zx_timer_count`. -/
def count (timer : ZxTimer τ) : ℕ := timer.elemCnt

/-- `zx_timer_memsize`. -/
def memsize (timer : ZxTimer τ) : ℕ := timer.memOcupy

lemma count_countUp (timer : ZxTimer τ) : timer.countUp.count = uadd 64 timer.count 1 := by
  rw [countUp, count, count]

lemma memsize_countUp (timer : ZxTimer τ) :
    timer.countUp.memsize = uadd 64 timer.memsize sizeofElem := by
  rw [countUp, memsize, memsize]

lemma count_countDown (timer : ZxTimer τ) : timer.countDown.count = usub 64 timer.count 1 := by
  rw [countDown, count, count]

lemma memsize_countDown (timer : ZxTimer τ) :
    timer.countDown.memsize = usub 64 timer.memsize sizeofElem := by
  rw [countDown, memsize, memsize]

@[simp] lemma countUp_inner (timer : ZxTimer τ) : timer.countUp.inner = timer.inner := by
  rw [countUp]

@[simp] lemma countDown_inner (timer : ZxTimer τ) : timer.countDown.inner = timer.inner := by
  rw [countDown]

@[simp] lemma countDown_iterate_inner (timer : ZxTimer τ) (n : ℕ) :
    (countDown^[n] timer).inner = timer.inner := by
  induction n generalizing timer with
  | zero => rfl
  | succ n ih => rw [Function.iterate_succ_apply, ih, countDown_inner]

end ZxTimer

/-- `TAILQ_REMOVE` of a linked element. -/
def unlink (q : List (TimerElem ε)) (id : ℕ) : List (TimerElem ε) := q.eraseP fun e => e.id == id

/-- The linked element an index points to. -/
def elemOf (q : List (TimerElem ε)) (id : ℕ) : Option (TimerElem ε) := q.find? fun e => e.id == id

/-! ### The queue -/

namespace ZxTimer

/-- `zx_timer_create` of a queue. -/
def createQueue : ZxTimer (TimerQueue ε) := ⟨⟨ulongMax, []⟩, 0, sizeofInner⟩

/-- What `zx_timer_del` and `zx_timer_reset` set `last_expire_time` to: the
tail's expire, or `-1`. -/
def tailExpire (q : List (TimerElem ε)) : ℕ :=
  match q.getLast? with
  | some tail => tail.expire
  | none => ulongMax

/-- `zx_timer_add`, allocating element `id`; the result is its return value. -/
def addQueue (timer : ZxTimer (TimerQueue ε)) (id currentTime timeout : ℕ) (event : ε) :
    ℤ × ZxTimer (TimerQueue ε) :=
  let expire := uadd 64 currentTime timeout
  if expire < timer.inner.lastExpireTime then (-1, timer)
  else
    let elem : TimerElem ε := ⟨id, expire, 0, 0, event⟩
    let timer : ZxTimer (TimerQueue ε) :=
      { timer with inner := ⟨expire, timer.inner.queue ++ [elem]⟩ }
    (0, timer.countUp)

/-- `zx_timer_del`; the result is its return value. -/
def delQueue (timer : ZxTimer (TimerQueue ε)) (id : ℕ) : Option (ℕ × ZxTimer (TimerQueue ε)) :=
  match elemOf timer.inner.queue id with
  | none => none
  | some elem =>
      let queue := unlink timer.inner.queue id
      let timer : ZxTimer (TimerQueue ε) := { timer with inner := ⟨tailExpire queue, queue⟩ }
      some (elem.expire, timer.countDown)

/-- The loop of `zx_timer_check`: the elements left and the ones whose
callbacks ran. -/
def queueLoop (currentTime maxCbTimes : ℕ) :
    List (TimerElem ε) → ℕ → List (TimerElem ε) × List (TimerElem ε)
  | [], _ => ([], [])
  | elem :: rest, cbCnt =>
      if cbCnt ≥ maxCbTimes then (elem :: rest, [])
      else if currentTime < elem.expire then (elem :: rest, [])
      else
        let r := queueLoop currentTime maxCbTimes rest (cbCnt + 1)
        (r.1, elem :: r.2)

/-- `zx_timer_check`; it returns the number of callbacks. -/
def checkQueue (timer : ZxTimer (TimerQueue ε)) (currentTime maxCbTimes : ℕ) :
    List (TimerElem ε) × ZxTimer (TimerQueue ε) :=
  let r := queueLoop currentTime maxCbTimes timer.inner.queue 0
  (r.2, countDown^[r.2.length] { timer with inner := { timer.inner with queue := r.1 } })

/-- `zx_timer_reset`; a refused reset has unlinked the element. -/
def resetQueue (timer : ZxTimer (TimerQueue ε)) (id currentTime timeout : ℕ) :
    Option (ℤ × ZxTimer (TimerQueue ε)) :=
  match elemOf timer.inner.queue id with
  | none => none
  | some elem =>
      let queue := unlink timer.inner.queue id
      let expire := uadd 64 currentTime timeout
      if expire < tailExpire queue then
        some (-1, { timer with inner := ⟨tailExpire queue, queue⟩ })
      else
        some (0, { timer with inner := ⟨expire, queue ++ [{ elem with expire := expire }]⟩ })

end ZxTimer

/-! ### The wheel -/

namespace TimerWheel

/-- The linked elements, spoke by spoke. -/
def linked (wheel : TimerWheel ε) : List (TimerElem ε) :=
  (List.range wheel.wheelSize).flatMap wheel.spokes

/-- No rotation count has fallen below the range of `int`. -/
def CountsFit (wheel : TimerWheel ε) : Prop := ∀ e ∈ wheel.linked, -2 ^ 31 ≤ e.rotationCnt

instance (wheel : TimerWheel ε) : Decidable wheel.CountsFit :=
  inferInstanceAs (Decidable (∀ e ∈ wheel.linked, -2 ^ 31 ≤ e.rotationCnt))

/-- The first add starts the wheel. -/
def startAt (wheel : TimerWheel ε) (currentTime : ℕ) : TimerWheel ε :=
  if wheel.lastCheckRelativeTick = ulongMax then
    { wheel with createTime := currentTime, spokeIndex := 0, lastCheckRelativeTick := 0 }
  else wheel

/-- The spoke of a timeout set at `current_time`. -/
def cursorOf (wheel : TimerWheel ε) (currentTime timeout : ℕ) : ℕ :=
  uadd 64 (usub 64 currentTime wheel.createTime) (timeout % wheel.wheelSize) % wheel.wheelSize

/-- Setting the fields of an element and linking it at the tail of its spoke,
as `zx_timer_add` and `zx_timer_reset` do. -/
def insertElem (wheel : TimerWheel ε) (elem : TimerElem ε) (currentTime timeout : ℕ) :
    TimerWheel ε :=
  let cursor := wheel.cursorOf currentTime timeout
  let elem := { elem with
    expire := uadd 64 currentTime timeout
    rotationCnt := toInt (timeout / wheel.wheelSize)
    cursor := cursor }
  { wheel with spokes := Function.update wheel.spokes cursor (wheel.spokes cursor ++ [elem]) }

/-- `TAILQ_REMOVE(&(wheel->spokes[elem->cursor]), elem, ENTRYS)`. -/
def removeElem (wheel : TimerWheel ε) (elem : TimerElem ε) : TimerWheel ε :=
  { wheel with
    spokes := Function.update wheel.spokes elem.cursor
      (unlink (wheel.spokes elem.cursor) elem.id) }

/-- What a walk along a spoke leaves, the elements whose callbacks it ran, and
whether it stopped at `max_cb_times`. -/
structure Walk (ε : Type*) where
  kept : List (TimerElem ε)
  fired : List (TimerElem ε)
  cut : Bool

/-- The inner loop of `zx_timer_check`.  A rotation count that falls below zero
never runs its element, and a run ends where it falls below the range of `int`. -/
def walkSpoke (maxCbTimes : ℕ) : List (TimerElem ε) → ℕ → Walk ε
  | [], _ => ⟨[], [], false⟩
  | elem :: rest, cbCnt =>
      if elem.rotationCnt ≠ 0 then
        let r := walkSpoke maxCbTimes rest cbCnt
        { r with kept := { elem with rotationCnt := elem.rotationCnt - 1 } :: r.kept }
      else if cbCnt ≥ maxCbTimes then ⟨elem :: rest, [], true⟩
      else
        let r := walkSpoke maxCbTimes rest (cbCnt + 1)
        { r with fired := elem :: r.fired }

/-- The wheel after some ticks, the elements whose callbacks ran, and whether
the ticks stopped at `max_cb_times`. -/
structure Ticks (ε : Type*) where
  wheel : TimerWheel ε
  fired : List (TimerElem ε)
  cut : Bool

/-- `spokes[spoke_index]` after the walk. -/
def walked (wheel : TimerWheel ε) (kept : List (TimerElem ε)) : TimerWheel ε :=
  { wheel with spokes := Function.update wheel.spokes wheel.spokeIndex kept }

/-- The step to the next spoke. -/
def nextSpoke (wheel : TimerWheel ε) : TimerWheel ε :=
  { wheel with spokeIndex := uadd 64 wheel.spokeIndex 1 % wheel.wheelSize }

/-- `n` rounds of the outer loop of `zx_timer_check`. -/
def tickLoop (maxCbTimes : ℕ) : ℕ → TimerWheel ε → ℕ → Ticks ε
  | 0, wheel, _ => ⟨wheel, [], false⟩
  | n + 1, wheel, cbCnt =>
      let walk := walkSpoke maxCbTimes (wheel.spokes wheel.spokeIndex) cbCnt
      let wheel := wheel.walked walk.kept
      if walk.cut then ⟨wheel, walk.fired, true⟩
      else
        let r := tickLoop maxCbTimes n wheel.nextSpoke (cbCnt + walk.fired.length)
        { r with fired := walk.fired ++ r.fired }

/-- The number of rounds `zx_timer_check` makes unless it is cut. -/
def tickCnt (wheel : TimerWheel ε) (currentTime : ℕ) : ℕ :=
  usub 64 (usub 64 currentTime wheel.createTime) wheel.lastCheckRelativeTick

end TimerWheel

namespace ZxTimer

open TimerWheel

/-- `zx_timer_create` of a wheel. -/
def createWheel (wheelSize : ℕ) : Option (ZxTimer (TimerWheel ε)) :=
  if wheelSize ≤ 0 ∨ wheelSize > maxWheelSize then none
  else some ⟨⟨wheelSize, ulongMax, 0, ulongMax, fun _ => []⟩, 0,
    uadd 64 sizeofInner (sizeofTQ * wheelSize)⟩

/-- `zx_timer_add`, allocating element `id`; it returns 0. -/
def addWheel (timer : ZxTimer (TimerWheel ε)) (id currentTime timeout : ℕ) (event : ε) :
    ZxTimer (TimerWheel ε) :=
  let wheel := timer.inner.startAt currentTime
  let timer : ZxTimer (TimerWheel ε) :=
    { timer with inner := wheel.insertElem ⟨id, 0, 0, 0, event⟩ currentTime timeout }
  timer.countUp

/-- `zx_timer_del`; the result is its return value. -/
def delWheel (timer : ZxTimer (TimerWheel ε)) (id : ℕ) : Option (ℕ × ZxTimer (TimerWheel ε)) :=
  match elemOf timer.inner.linked id with
  | none => none
  | some elem =>
      let timer : ZxTimer (TimerWheel ε) := { timer with inner := timer.inner.removeElem elem }
      some (elem.expire, timer.countDown)

/-- `zx_timer_check`; it returns the number of callbacks.  A round that would
take the `int` counter past its range has no result. -/
def checkWheel (timer : ZxTimer (TimerWheel ε)) (currentTime maxCbTimes : ℕ) :
    Option (List (TimerElem ε) × ZxTimer (TimerWheel ε)) :=
  let wheel := timer.inner
  if wheel.createTime = ulongMax then some ([], timer)
  else
    let tickcnt := wheel.tickCnt currentTime
    let r := tickLoop maxCbTimes (min tickcnt (2 ^ 31)) wheel 0
    if tickcnt ≥ 2 ^ 31 ∧ r.cut = false then none
    else
      some (r.fired, countDown^[r.fired.length] { timer with
        inner := { r.wheel with
          lastCheckRelativeTick := usub 64 currentTime wheel.createTime } })

/-- `zx_timer_reset`; it returns 0. -/
def resetWheel (timer : ZxTimer (TimerWheel ε)) (id currentTime timeout : ℕ) :
    Option (ZxTimer (TimerWheel ε)) :=
  match elemOf timer.inner.linked id with
  | none => none
  | some elem => some { timer with
      inner := ((timer.inner.removeElem elem).startAt currentTime).insertElem elem currentTime
        timeout }

end ZxTimer

/-! ### What the calls of a queue do -/

/-- An index points to a linked element. -/
lemma elemOf_spec {q : List (TimerElem ε)} {id : ℕ} {e : TimerElem ε} (he : elemOf q id = some e) :
    e ∈ q ∧ e.id = id :=
  ⟨List.mem_of_find?_eq_some he, by simpa using List.find?_some he⟩

/-- Where no two elements have one number, unlinking leaves all others. -/
lemma unlink_eq_filter {q : List (TimerElem ε)} (hnodup : (q.map TimerElem.id).Nodup) (id : ℕ) :
    unlink q id = q.filter fun e => e.id ≠ id := by
  induction q with
  | nil => rfl
  | cons e q ih =>
      rw [List.map_cons, List.nodup_cons] at hnodup
      by_cases he : e.id = id
      · have hrest : ∀ f ∈ q, decide (f.id ≠ id) = true := by
          intro f hf
          rw [decide_eq_true_eq]
          rintro rfl
          exact hnodup.1 (he ▸ List.mem_map_of_mem hf)
        rw [unlink, List.eraseP_cons_of_pos (by simp [he]), List.filter_cons_of_neg (by simp [he]),
          List.filter_eq_self.mpr hrest]
      · rw [unlink, List.eraseP_cons_of_neg (by simp [he]), List.filter_cons_of_pos (by simp [he]),
          ← ih hnodup.2, unlink]

namespace ZxTimer

section QueueCalls

variable {timer : ZxTimer (TimerQueue ε)} {id currentTime timeout : ℕ}

/-- A del unlinks and frees the element. -/
lemma delQueue_spec {r : ℕ × ZxTimer (TimerQueue ε)} (hr : timer.delQueue id = some r) :
    r.2.inner = ⟨tailExpire (unlink timer.inner.queue id), unlink timer.inner.queue id⟩ := by
  rw [delQueue] at hr
  cases he : elemOf timer.inner.queue id with
  | none => rw [he] at hr; cases hr
  | some e =>
      rw [he] at hr
      obtain rfl := Option.some.inj hr
      rw [countDown_inner]

/-- A reset unlinks the element, and links it again unless another one expires later. -/
lemma resetQueue_of_linked {e : TimerElem ε} (he : elemOf timer.inner.queue id = some e)
    (currentTime timeout : ℕ) :
    timer.resetQueue id currentTime timeout = some (
      if uadd 64 currentTime timeout < tailExpire (unlink timer.inner.queue id) then
        (-1, { timer with
          inner := ⟨tailExpire (unlink timer.inner.queue id), unlink timer.inner.queue id⟩ })
      else
        (0, { timer with
          inner := ⟨uadd 64 currentTime timeout, unlink timer.inner.queue id ++
            [{ e with expire := uadd 64 currentTime timeout }]⟩ })) := by
  rw [resetQueue, he]
  dsimp only
  split_ifs
  · rfl
  · rfl

lemma resetQueue_linked {r : ℤ × ZxTimer (TimerQueue ε)}
    (hr : timer.resetQueue id currentTime timeout = some r) :
    ∃ e, elemOf timer.inner.queue id = some e := by
  rw [resetQueue] at hr
  cases he : elemOf timer.inner.queue id with
  | none => rw [he] at hr; cases hr
  | some e => exact ⟨e, rfl⟩

end QueueCalls

end ZxTimer

/-! ### What the calls of a wheel do -/

namespace ZxTimer

open TimerWheel

variable {timer : ZxTimer (TimerWheel ε)} {wheelSize id currentTime timeout maxCbTimes : ℕ}

/-- A wheel just created. -/
lemma createWheel_spec (hcreate : createWheel wheelSize = some timer) :
    0 < wheelSize ∧ wheelSize < 2 ^ 64 ∧
      timer = ⟨⟨wheelSize, ulongMax, 0, ulongMax, fun _ => []⟩, 0,
        uadd 64 sizeofInner (sizeofTQ * wheelSize)⟩ := by
  rw [createWheel] at hcreate
  split_ifs at hcreate with hsize
  rw [maxWheelSize] at hsize
  exact ⟨by omega, by omega, (Option.some.inj hcreate).symm⟩

lemma addWheel_inner (timer : ZxTimer (TimerWheel ε)) (id currentTime timeout : ℕ) (event : ε) :
    (timer.addWheel id currentTime timeout event).inner =
      (timer.inner.startAt currentTime).insertElem ⟨id, 0, 0, 0, event⟩ currentTime timeout := by
  rw [addWheel, countUp_inner]

/-- A del unlinks and frees the element. -/
lemma delWheel_spec {r : ℕ × ZxTimer (TimerWheel ε)} (hr : timer.delWheel id = some r) :
    ∃ e, elemOf timer.inner.linked id = some e ∧
      r = (e.expire, countDown { timer with inner := timer.inner.removeElem e }) := by
  rw [delWheel] at hr
  cases he : elemOf timer.inner.linked id with
  | none => rw [he] at hr; cases hr
  | some e =>
      rw [he] at hr
      exact ⟨e, rfl, (Option.some.inj hr).symm⟩

/-- A reset unlinks the element and links it again. -/
lemma resetWheel_spec {t : ZxTimer (TimerWheel ε)}
    (ht : timer.resetWheel id currentTime timeout = some t) :
    ∃ e, elemOf timer.inner.linked id = some e ∧
      t = { timer with
        inner := ((timer.inner.removeElem e).startAt currentTime).insertElem e currentTime
          timeout } := by
  rw [resetWheel] at ht
  cases he : elemOf timer.inner.linked id with
  | none => rw [he] at ht; cases ht
  | some e =>
      rw [he] at ht
      exact ⟨e, rfl, (Option.some.inj ht).symm⟩

/-- A check does nothing before the first add; afterwards it makes its rounds
and frees what they run. -/
lemma checkWheel_spec {r : List (TimerElem ε) × ZxTimer (TimerWheel ε)}
    (hr : timer.checkWheel currentTime maxCbTimes = some r) :
    (timer.inner.createTime = ulongMax ∧ r = ([], timer)) ∨
      timer.inner.createTime ≠ ulongMax ∧
        let ticks := tickLoop maxCbTimes (min (timer.inner.tickCnt currentTime) (2 ^ 31))
          timer.inner 0
        r = (ticks.fired, countDown^[ticks.fired.length] { timer with
          inner := { ticks.wheel with
            lastCheckRelativeTick := usub 64 currentTime timer.inner.createTime } }) := by
  rw [checkWheel] at hr
  dsimp only at hr
  split_ifs at hr with hcreate hint
  · exact Or.inl ⟨hcreate, (Option.some.inj hr).symm⟩
  · exact Or.inr ⟨hcreate, (Option.some.inj hr).symm⟩

end ZxTimer

end CLibrary
