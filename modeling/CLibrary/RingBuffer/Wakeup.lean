import CLibrary.Library.Monitor
import CLibrary.Library.Runs
import CLibrary.RingBuffer.Basic

/-!
The waiting and waking of `zx_ringbuffer_swrite` and `zx_ringbuffer_sread`.

The two functions are mirror images, and so are `wait_for_empty` and
`wait_for_full`, `notify_full` and `notify_empty`: a call has a `Side`, waits
for the condition variable of its own side and notifies that of the other.  A
step is one load or store of `start`, `end` or a slot, or one operation on a
lock, a mutex or a condition variable; a sleeper may also wake up unasked.

* `WaitPoint`, `WaitState.move`, `WaitState.step`: the step relation over an
  arbitrary type of threads.
* `WaitPoint.Knows`: what a thread goes by between its test and the end of its
  sleep.  `WaitInv` has it covered, for both condition variables.
* `no_wakeup_lost`: a thread is asleep on a ring that would let it through only
  while the broadcast that wakes it is still to come.
-/

namespace CLibrary

variable {τ α : Type*}

/-! ### The two sides -/

/-- The writing and the reading side of the ring. -/
inductive Side where
  | write | read
  deriving DecidableEq, Repr

/-- A call of one of the two operations. -/
inductive BlockingCall (α : Type*) where
  | swrite (value : α)
  | sread

namespace Side

/-- The side that is notified. -/
def other : Side → Side
  | .write => .read
  | .read => .write

/-- The index a side stores: `end` or `start`. -/
def index (rb : ZxRingbuffer α) : Side → ℕ
  | .write => rb.endIdx
  | .read => rb.start

/-- The store to that index. -/
def storeIndex (rb : ZxRingbuffer α) (k : ℕ) : Side → ZxRingbuffer α
  | .write => { rb with endIdx := k }
  | .read => { rb with start := k }

/-- What a side waits to become false: `is_full` or `is_empty`. -/
def blocked (rb : ZxRingbuffer α) : Side → Bool
  | .write => rb.isFull
  | .read => rb.isEmpty

/-- The second half of that test, after `start` was loaded as `x`. -/
def blockedAt (rb : ZxRingbuffer α) (x : ℕ) : Side → Bool
  | .write => x == uadd 64 rb.endIdx 1 % rb.size
  | .read => x == rb.endIdx

end Side

namespace BlockingCall

def side : BlockingCall α → Side
  | .swrite _ => .write
  | .sread => .read

/-- `rb->elements[rb->end] = value`, or nothing. -/
def storeSlot (rb : ZxRingbuffer α) (e : ℕ) : BlockingCall α → ZxRingbuffer α
  | .swrite value => { rb with elements := Function.update rb.elements e value }
  | .sread => rb

/-- Nothing, or `value = rb->elements[rb->start]`. -/
def loadSlot (rb : ZxRingbuffer α) (e : ℕ) : BlockingCall α → Option α
  | .swrite _ => none
  | .sread => some (rb.elements e)

end BlockingCall

/-! ### The step relation -/

/-- Where a thread is, with its locals; `x` is what the first load of a test
has loaded, `v` the local `value` of `zx_ringbuffer_read`. -/
inductive WaitPoint (α : Type*) where
  | idle
  /-- `LOCK(w)`, `LOCK(r)`. -/
  | lock (c : BlockingCall α)
  /-- `wait_for_empty`, `wait_for_full`: `pthread_mutex_lock`. -/
  | enter (c : BlockingCall α)
  /-- The test of the loop. -/
  | test1 (c : BlockingCall α)
  | test2 (c : BlockingCall α) (x : ℕ)
  /-- `pthread_cond_wait`: the call, and the way out of it. -/
  | wait (c : BlockingCall α)
  | wake (c : BlockingCall α)
  /-- `pthread_mutex_unlock`. -/
  | leave (c : BlockingCall α)
  /-- The loop of the polling mode. -/
  | poll1 (c : BlockingCall α)
  | poll2 (c : BlockingCall α) (x : ℕ)
  /-- The access to the slot: the load of the index, then the access. -/
  | index (c : BlockingCall α)
  | slot (c : BlockingCall α) (e : ℕ)
  /-- The index moves on: the load, then the store. -/
  | next (c : BlockingCall α) (v : Option α)
  | store (c : BlockingCall α) (v : Option α) (e : ℕ)
  /-- `notify_full`, `notify_empty`: `pthread_mutex_lock`,
  `pthread_cond_broadcast`, `pthread_mutex_unlock`. -/
  | notify (c : BlockingCall α) (v : Option α)
  | broadcast (c : BlockingCall α) (v : Option α)
  | release (c : BlockingCall α) (v : Option α)
  /-- `UNLOCK(w)`, `UNLOCK(r)` and the return. -/
  | unlock (c : BlockingCall α) (v : Option α)

/-- The ring with its locks, and the threads.  `spin` is `swlock` and `srlock`;
`cond` is `empty_lock` with `empty_cond`, which the writing side waits for, and
`full_lock` with `full_cond`; `result` is what the last call of a thread
returned. -/
structure WaitState (τ α : Type*) where
  ring : ZxRingbuffer α
  spin : Side → Option τ
  cond : Side → Monitor τ
  point : τ → WaitPoint α
  result : τ → Option α

/-- The label of a step: an idle thread calls, one inside a call moves, one
asleep wakes up by itself. -/
inductive WaitAction (τ α : Type*) where
  | call (t : τ) (c : BlockingCall α)
  | move (t : τ)
  | spurious (t : τ) (d : Side)

namespace WaitState

/-- All threads idle on a fresh ring. -/
def start (rb : ZxRingbuffer α) : WaitState τ α :=
  ⟨rb, fun _ => none, fun _ => .free, fun _ => .idle, fun _ => none⟩

/-- `empty_lock` and `empty_cond`. -/
def empty (s : WaitState τ α) : Monitor τ := s.cond .write

/-- `full_lock` and `full_cond`. -/
def full (s : WaitState τ α) : Monitor τ := s.cond .read

variable [DecidableEq τ]

/-- Thread `t` goes to point `p`. -/
def goto (s : WaitState τ α) (t : τ) (p : WaitPoint α) : WaitState τ α :=
  { s with point := Function.update s.point t p }

/-- Thread `t` goes to point `p`, and one of the two monitors changes. -/
def gotoWith (s : WaitState τ α) (t : τ) (p : WaitPoint α) (d : Side) (m : Monitor τ) :
    WaitState τ α :=
  { s.goto t p with cond := Function.update s.cond d m }

/-- The next step of a thread inside a call. -/
def move (s : WaitState τ α) (t : τ) : Option (WaitState τ α) :=
  let rb := s.ring
  match s.point t with
  | .idle => none
  | .lock c =>
      match s.spin c.side with
      | some _ => none
      | none =>
          some { s.goto t (if rb.mode = ZxRingbuffer.blocking then .enter c else .poll1 c) with
            spin := Function.update s.spin c.side (some t) }
  | .enter c => ((s.cond c.side).lock t).map (s.gotoWith t (.test1 c) c.side)
  | .test1 c => some (s.goto t (.test2 c rb.start))
  | .test2 c x => some (s.goto t (if c.side.blockedAt rb x then .wait c else .leave c))
  | .wait c => some (s.gotoWith t (.wake c) c.side ((s.cond c.side).wait t))
  | .wake c => ((s.cond c.side).relock t).map (s.gotoWith t (.test1 c) c.side)
  | .leave c => some (s.gotoWith t (.index c) c.side (s.cond c.side).unlock)
  | .poll1 c => some (s.goto t (.poll2 c rb.start))
  | .poll2 c x => some (s.goto t (if c.side.blockedAt rb x then .poll1 c else .index c))
  | .index c => some (s.goto t (.slot c (c.side.index rb)))
  | .slot c e => some { s.goto t (.next c (c.loadSlot rb e)) with ring := c.storeSlot rb e }
  | .next c v => some (s.goto t (.store c v (c.side.index rb)))
  | .store c v e =>
      some { s.goto t (if rb.mode = ZxRingbuffer.blocking then .notify c v else .unlock c v) with
        ring := c.side.storeIndex rb (uadd 64 e 1 % rb.size) }
  | .notify c v =>
      ((s.cond c.side.other).lock t).map (s.gotoWith t (.broadcast c v) c.side.other)
  | .broadcast c v =>
      some (s.gotoWith t (.release c v) c.side.other (s.cond c.side.other).broadcast)
  | .release c v =>
      some (s.gotoWith t (.unlock c v) c.side.other (s.cond c.side.other).unlock)
  | .unlock c v =>
      some { s.goto t .idle with
        spin := Function.update s.spin c.side none
        result := Function.update s.result t v }

/-- One step of one thread. -/
def step (s : WaitState τ α) : WaitAction τ α → Option (WaitState τ α)
  | .call t c =>
      match s.point t with
      | .idle => some (s.goto t (.lock c))
      | _ => none
  | .move t => s.move t
  | .spurious t d =>
      if t ∈ (s.cond d).asleep then
        some { s with cond := Function.update s.cond d ((s.cond d).wake t) }
      else none

end WaitState

/-! ### What the points say -/

namespace WaitPoint

/-- Between taking and giving back the spin lock of side `d`. -/
def inside (d : Side) : WaitPoint α → Bool
  | .idle | .lock _ => false
  | .enter c | .test1 c | .test2 c _ | .wait c | .wake c | .leave c | .poll1 c | .poll2 c _
  | .index c | .slot c _ | .next c _ | .store c _ _ | .notify c _ | .broadcast c _ | .release c _
  | .unlock c _ => c.side = d

/-- Holding the mutex that side `d` waits under. -/
def holds (d : Side) : WaitPoint α → Bool
  | .test1 c | .test2 c _ | .wait c | .leave c => c.side = d
  | .broadcast c _ | .release c _ => c.side.other = d
  | _ => false

/-- In `pthread_cond_wait` on the condition variable of side `d`. -/
def sleeps (d : Side) : WaitPoint α → Bool
  | .wake c => c.side = d
  | _ => false

/-- The index of side `d` is stored, the broadcast is still to come. -/
def announces (d : Side) : WaitPoint α → Bool
  | .notify c _ | .broadcast c _ => c.side = d
  | _ => false

/-- The four together. -/
def flags (d : Side) (p : WaitPoint α) : Bool × Bool × Bool × Bool :=
  (p.inside d, p.holds d, p.sleeps d, p.announces d)

/-- What a thread goes by: the load it tests on is up to date; the test it
waits or sleeps on would still come out the same. -/
def Knows (rb : ZxRingbuffer α) : WaitPoint α → Prop
  | .test2 _ x => x = rb.start
  | .wait c | .wake c => c.side.blocked rb = true
  | _ => True

end WaitPoint

/-- Some thread has stored the index of side `d` and not yet broadcast. -/
def WaitState.Announced (s : WaitState τ α) (d : Side) : Prop :=
  ∃ t, (s.point t).announces d = true

/-- The invariant. -/
structure WaitInv (s : WaitState τ α) : Prop where
  blocking : s.ring.mode = ZxRingbuffer.blocking
  wf : s.ring.WF
  spin_iff : ∀ d t, (s.point t).inside d = true ↔ s.spin d = some t
  cond_iff : ∀ d t, (s.point t).holds d = true ↔ (s.cond d).holder = some t
  asleep : ∀ d, ∀ t ∈ (s.cond d).asleep, (s.point t).sleeps d = true
  covered : ∀ d, (s.cond d).Covered (fun t => (s.point t).Knows s.ring) (s.Announced d.other)

/-! ### Flags, indices and tests -/

lemma Side.eq_other_of_ne {d e : Side} (h : d ≠ e) : d = e.other := by
  cases d with
  | write => cases e with
    | write => exact absurd rfl h
    | read => rfl
  | read => cases e with
    | write => rfl
    | read => exact absurd rfl h

@[simp] lemma Side.other_ne (d : Side) : d.other ≠ d := by
  cases d with
  | write => exact Side.noConfusion
  | read => exact Side.noConfusion

@[simp] lemma Side.other_other (d : Side) : d.other.other = d := by
  cases d with
  | write => rfl
  | read => rfl

/-- What a thread goes by is about its own side, which it is inside. -/
lemma WaitPoint.knows_of_outside {d : Side} {p : WaitPoint α} (rb : ZxRingbuffer α)
    (h : p.holds d = true ∨ p.sleeps d = true) (hout : p.inside d = false) : p.Knows rb := by
  cases p with
  | test2 c x => simp_all [holds, sleeps, inside]
  | wait c => simp_all [holds, sleeps, inside]
  | wake c => simp_all [holds, sleeps, inside]
  | _ => trivial

/-- A slot is none of what threads go by. -/
lemma WaitPoint.knows_storeSlot (p : WaitPoint α) (c : BlockingCall α) (rb : ZxRingbuffer α)
    (e : ℕ) : p.Knows (c.storeSlot rb e) ↔ p.Knows rb := by
  cases c with
  | sread => rfl
  | swrite v =>
      cases p with
      | wait c' | wake c' => cases hc : c'.side <;> simp [Knows, hc, Side.blocked] <;> rfl
      | _ => rfl

lemma BlockingCall.storeSlot_wf {rb : ZxRingbuffer α} (c : BlockingCall α) (h : rb.WF) (e : ℕ) :
    (c.storeSlot rb e).WF := by
  cases c with
  | swrite v => exact ⟨h.one_lt, h.size_lt, h.start_lt, h.end_lt⟩
  | sread => exact h

lemma BlockingCall.storeSlot_mode (rb : ZxRingbuffer α) (c : BlockingCall α) (e : ℕ) :
    (c.storeSlot rb e).mode = rb.mode := by
  cases c with
  | swrite v => rfl
  | sread => rfl

lemma Side.storeIndex_wf {rb : ZxRingbuffer α} (d : Side) (h : rb.WF) (k : ℕ) :
    (d.storeIndex rb (k % rb.size)).WF := by
  have hk : k % rb.size < rb.size := Nat.mod_lt _ (by have := h.one_lt; omega)
  cases d with
  | write => exact ⟨h.one_lt, h.size_lt, h.start_lt, hk⟩
  | read => exact ⟨h.one_lt, h.size_lt, hk, h.end_lt⟩

lemma Side.storeIndex_mode (rb : ZxRingbuffer α) (d : Side) (k : ℕ) :
    (d.storeIndex rb k).mode = rb.mode := by
  cases d with
  | write => rfl
  | read => rfl

/-- The second half of the test decides it when the first load is up to date. -/
lemma Side.blockedAt_start (rb : ZxRingbuffer α) (d : Side) :
    d.blockedAt rb rb.start = d.blocked rb := by
  cases d with
  | write => rfl
  | read => rfl

/-! ### Every step keeps the invariant -/

namespace WaitInv

variable {s s' : WaitState τ α} {t : τ} {p q : WaitPoint α} {d e : Side} {m : Monitor τ}

/-- A fresh ring, all threads idle. -/
lemma start {null : α} {n : UInt64} {callocOk : Bool} {rb : ZxRingbuffer α}
    (hinit : ZxRingbuffer.init null n.toNat ZxRingbuffer.blocking callocOk = .ok rb) :
    WaitInv (WaitState.start rb : WaitState τ α) := by
  obtain ⟨hwf, -, -⟩ := ZxRingbuffer.init_ok hinit n.toNat_lt
  exact {
    blocking := ZxRingbuffer.init_mode hinit
    wf := hwf
    spin_iff := fun _ _ => by simp [WaitState.start, WaitPoint.inside]
    cond_iff := fun _ _ => by simp [WaitState.start, WaitPoint.holds, Monitor.free]
    asleep := fun _ _ ht => by simp [WaitState.start, Monitor.free] at ht
    covered := fun _ => Monitor.Covered.free }

/-- An engaged thread has the flag of a holder or of a sleeper up. -/
lemma flags_of_engaged (h : WaitInv s) (ht : (s.cond d).Engaged t) :
    (s.point t).holds d = true ∨ (s.point t).sleeps d = true :=
  ht.imp (h.cond_iff d t).mpr (h.asleep d t)

/-- A thread whose flags are down is not engaged. -/
lemma not_engaged (h : WaitInv s) (ht : s.point t = q) (hh : q.holds d = false)
    (hs : q.sleeps d = false) : ¬ (s.cond d).Engaged t := by
  intro he
  have := h.flags_of_engaged he
  rw [ht, hh, hs] at this
  simp at this

/-- A sleeper whose side is not blocked is covered by a pending broadcast. -/
lemma announced_of_asleep (h : WaitInv s) (ht : t ∈ (s.cond d).asleep)
    (hb : d.blocked s.ring = false) : s.Announced d.other := by
  have hs := h.asleep d t ht
  rcases h.covered d t (Or.inr ht) with hk | hk
  · cases hp : s.point t with
    | wake c =>
        simp only [hp, WaitPoint.sleeps, decide_eq_true_eq] at hs
        simp [hp, WaitPoint.Knows, hs, hb] at hk
    | _ => simp [hp, WaitPoint.sleeps] at hs
  · exact hk

/-- The access to a slot. -/
lemma slot (h : WaitInv s) (c : BlockingCall α) (e : ℕ) :
    WaitInv { s with ring := c.storeSlot s.ring e } :=
  { h with
    blocking := (c.storeSlot_mode ..).trans h.blocking
    wf := c.storeSlot_wf h.wf e
    covered := fun d u he =>
      (h.covered d u he).imp_left (WaitPoint.knows_storeSlot _ c s.ring e).mpr }

variable [DecidableEq τ]

/-- Threads asleep stay where they are when another thread moves. -/
lemma asleep_keep (h : WaitInv s) (ht : s.point t = q)
    (hs : q.sleeps d = true → p.sleeps d = true) :
    ∀ u ∈ (s.cond d).asleep, (Function.update s.point t p u).sleeps d = true := by
  intro u hu
  refine points_update (π := WaitPoint α)
    (P := fun u r => u ∈ (s.cond d).asleep → r.sleeps d = true) ?_ ?_ u hu
  · intro hmem
    have := h.asleep d t hmem
    rw [ht] at this
    exact hs this
  · intro u _ hmem
    exact h.asleep d u hmem

/-- What is covered stays so when a thread moves, the ring staying as it is. -/
lemma covered_keep (h : WaitInv s) (ht : s.point t = q)
    (ha : q.announces d.other = true → p.announces d.other = true)
    (hothers : ∀ u, u ≠ t → m.Engaged u → (s.cond d).Engaged u)
    (hk : m.Engaged t → p.Knows s.ring ∨ s.Announced d.other) :
    m.Covered (fun u => (Function.update s.point t p u).Knows s.ring)
      (∃ u, (Function.update s.point t p u).announces d.other = true) := by
  rw [← ht] at ha
  refine (h.covered d).step (t := t) (exists_flag_update · ha) ?_ ?_
  · intro u hu he
    refine ⟨hothers u hu he, ?_⟩
    rw [Function.update_of_ne hu]
    exact id
  · intro he
    rw [Function.update_self]
    exact (hk he).imp id (exists_flag_update · ha)

/-- A thread moves between two points with the same flags. -/
lemma goto (h : WaitInv s) (ht : s.point t = q) (hf : ∀ d, p.flags d = q.flags d)
    (hk : ∀ d, (s.cond d).Engaged t → p.Knows s.ring ∨ s.Announced d.other) :
    WaitInv (s.goto t p) := by
  simp only [WaitPoint.flags, Prod.mk.injEq] at hf
  exact { h with
    spin_iff := fun d => lock_keep (h.spin_iff d) (by rw [ht, (hf d).1])
    cond_iff := fun d => lock_keep (h.cond_iff d) (by rw [ht, (hf d).2.1])
    asleep := fun d => h.asleep_keep ht fun hq => (hf d).2.2.1.trans hq
    covered := fun d =>
      h.covered_keep ht (fun hq => (hf _).2.2.2.trans hq) (fun _ _ he => he) (hk d) }

/-- A thread takes or gives back the spin lock of side `e`. -/
lemma gotoSpin (h : WaitInv s) {l : Option τ} (ht : s.point t = q)
    (hin : ∀ d, d ≠ e → p.inside d = q.inside d)
    (hl : ∀ u, (Function.update s.point t p u).inside e = true ↔ l = some u)
    (hh : ∀ d, p.holds d = q.holds d) (hs : ∀ d, p.sleeps d = q.sleeps d)
    (ha : ∀ d, p.announces d = q.announces d) (hk : p.Knows s.ring) :
    WaitInv { s.goto t p with spin := Function.update s.spin e l } :=
  { h with
    spin_iff := fun d => by
      by_cases hd : d = e
      · rw [hd]
        simp only [Function.update_self]
        exact hl
      · simp only [Function.update_of_ne hd]
        exact lock_keep (h.spin_iff d) (by rw [ht, hin d hd])
    cond_iff := fun d => lock_keep (h.cond_iff d) (by rw [ht, hh])
    asleep := fun d => h.asleep_keep ht fun hq => (hs d).trans hq
    covered := fun d =>
      h.covered_keep ht (fun hq => (ha _).trans hq) (fun _ _ he => he) fun _ => Or.inl hk }

/-- A thread moves and the monitor of side `e` changes. -/
lemma gotoWith (h : WaitInv s) (ht : s.point t = q) (hin : ∀ d, p.inside d = q.inside d)
    (hh : ∀ d, d ≠ e → p.holds d = q.holds d) (hs : ∀ d, d ≠ e → p.sleeps d = q.sleeps d)
    (ha : ∀ d, d ≠ e → p.announces d.other = q.announces d.other)
    (hk : ∀ d, d ≠ e → (s.cond d).Engaged t → p.Knows s.ring)
    (hholder : ∀ u, (Function.update s.point t p u).holds e = true ↔ m.holder = some u)
    (hasleep : ∀ u ∈ m.asleep, (Function.update s.point t p u).sleeps e = true)
    (hcov : m.Covered (fun u => (Function.update s.point t p u).Knows s.ring)
      (∃ u, (Function.update s.point t p u).announces e.other = true)) :
    WaitInv (s.gotoWith t p e m) :=
  { h with
    spin_iff := fun d => lock_keep (h.spin_iff d) (by rw [ht, hin])
    cond_iff := fun d => by
      by_cases hd : d = e
      · rw [hd]
        simp only [WaitState.gotoWith, Function.update_self]
        exact hholder
      · simp only [WaitState.gotoWith, Function.update_of_ne hd]
        exact lock_keep (h.cond_iff d) (by rw [ht, hh d hd])
    asleep := fun d => by
      by_cases hd : d = e
      · rw [hd]
        simp only [WaitState.gotoWith, Function.update_self]
        exact hasleep
      · simp only [WaitState.gotoWith, Function.update_of_ne hd]
        exact h.asleep_keep ht fun hq => (hs d hd).trans hq
    covered := fun d => by
      by_cases hd : d = e
      · rw [hd]
        simp only [WaitState.gotoWith, Function.update_self]
        exact hcov
      · simp only [WaitState.gotoWith, Function.update_of_ne hd]
        exact h.covered_keep ht (fun hq => (ha d hd).trans hq) (fun _ _ he => he)
          fun he => Or.inl (hk d hd he) }

/-- Taking the mutex of side `e`, at the start of a wait or of a notification. -/
lemma enter (h : WaitInv s) (ht : s.point t = q) (hlock : (s.cond e).holder = none)
    (hin : ∀ d, p.inside d = q.inside d)
    (hh : ∀ d, d ≠ e → p.holds d = q.holds d) (hhe : p.holds e = true)
    (hs : ∀ d, d ≠ e → p.sleeps d = q.sleeps d) (hse : t ∉ (s.cond e).asleep)
    (ha : ∀ d, p.announces d = q.announces d) (hk : p.Knows s.ring) :
    WaitInv (s.gotoWith t p e ⟨some t, (s.cond e).asleep⟩) := by
  refine h.gotoWith ht hin hh hs (fun d _ => ha _) (fun _ _ _ => hk)
    (lock_acquire (h.cond_iff e) hlock hhe) ?_ ?_
  · intro u hu
    have hut : u ≠ t := fun heq => hse (heq ▸ hu)
    rw [Function.update_of_ne hut]
    exact h.asleep e u hu
  · exact h.covered_keep ht (fun hq => (ha _).trans hq)
      (fun u hu he => Monitor.engaged_of_lock he hu) fun _ => Or.inl hk

/-- Giving the mutex of side `e` back. -/
lemma leave (h : WaitInv s) (ht : s.point t = q) (hin : ∀ d, p.inside d = q.inside d)
    (hh : ∀ d, d ≠ e → p.holds d = q.holds d) (hq : q.holds e = true) (hp : p.holds e = false)
    (hs : ∀ d, p.sleeps d = q.sleeps d) (ha : ∀ d, p.announces d = q.announces d)
    (hk : p.Knows s.ring) : WaitInv (s.gotoWith t p e (s.cond e).unlock) := by
  refine h.gotoWith ht hin hh (fun d _ => hs d) (fun d _ => ha _) (fun _ _ _ => hk)
    (lock_release (h.cond_iff e) (by rw [ht, hq]) hp)
    (h.asleep_keep ht fun hq => (hs e).trans hq) ?_
  exact h.covered_keep ht (fun hq => (ha _).trans hq)
    (fun _ _ he => Monitor.engaged_of_unlock he) fun _ => Or.inl hk

/-- Falling asleep: the test that led here still comes out the same, or a
broadcast is pending. -/
lemma wait (h : WaitInv s) {c : BlockingCall α} (ht : s.point t = .wait c) :
    WaitInv (s.gotoWith t (.wake c) c.side ((s.cond c.side).wait t)) := by
  have hholds : (s.point t).holds c.side = true := by simp [ht, WaitPoint.holds]
  have hknows : (s.point t).Knows s.ring ∨ s.Announced c.side.other :=
    h.covered c.side t (Or.inl ((h.cond_iff c.side t).mp hholds))
  rw [ht] at hknows
  refine h.gotoWith ht (fun _ => rfl) ?_ ?_ (fun _ _ => rfl) ?_
    (lock_release (h.cond_iff _) hholds rfl) ?_ ?_
  · intro d hd
    simp [WaitPoint.holds, Ne.symm hd]
  · intro d hd
    simp [WaitPoint.sleeps, Ne.symm hd]
  · intro d hd he
    exact absurd he (h.not_engaged ht (by simp [WaitPoint.holds, Ne.symm hd]) rfl)
  · intro u hu
    rcases Finset.mem_insert.mp hu with rfl | hmem
    · simp [WaitPoint.sleeps]
    · exact h.asleep_keep ht (fun hq => Bool.noConfusion hq) u hmem
  · exact h.covered_keep ht (fun hq => Bool.noConfusion hq)
      (fun _ hu he => Monitor.engaged_of_wait he hu) fun _ => hknows

/-- The broadcast: with the mutex held nobody is between a test and its sleep,
and nobody is asleep any more. -/
lemma broadcast (h : WaitInv s) {c : BlockingCall α} {v : Option α}
    (ht : s.point t = .broadcast c v) :
    WaitInv (s.gotoWith t (.release c v) c.side.other (s.cond c.side.other).broadcast) := by
  have hholds : (s.point t).holds c.side.other = true := by simp [ht, WaitPoint.holds]
  refine h.gotoWith ht (fun _ => rfl) (fun _ _ => rfl) (fun _ _ => rfl) ?_
    (fun _ _ _ => trivial) (lock_keep (h.cond_iff _) (by rw [ht]; rfl)) ?_ ?_
  · intro d hd
    -- a notifier of the other side announces nothing to its own
    have : c.side ≠ d.other := fun heq => hd (by rw [heq, Side.other_other])
    simp [WaitPoint.announces, this]
  · intro u hu
    simp [Monitor.broadcast] at hu
  · refine Monitor.Covered.broadcast ((h.cond_iff _ t).mp hholds) ?_
    rw [Function.update_self]
    trivial

/-- A sleeper waking up by itself. -/
lemma spurious (h : WaitInv s) (t : τ) (d : Side) :
    WaitInv { s with cond := Function.update s.cond d ((s.cond d).wake t) } := by
  refine { h with
    cond_iff := fun e => ?_
    asleep := fun e => ?_
    covered := fun e => ?_ }
  · by_cases he : e = d
    · rw [he]
      simp only [Function.update_self]
      exact h.cond_iff d
    · simp only [Function.update_of_ne he]
      exact h.cond_iff e
  · by_cases he : e = d
    · rw [he]
      simp only [Function.update_self]
      exact fun u hu => h.asleep d u (Finset.mem_of_mem_erase hu)
    · simp only [Function.update_of_ne he]
      exact h.asleep e
  · by_cases he : e = d
    · rw [he]
      simp only [Function.update_self]
      exact fun u hu => h.covered d u (Monitor.engaged_of_wake hu)
    · simp only [Function.update_of_ne he]
      exact h.covered e

/-- The store of an index: for the other side a broadcast is now pending, and
on its own side, whose spin lock it holds, nobody else goes by that index. -/
lemma store (h : WaitInv s) {c : BlockingCall α} {v : Option α} {e : ℕ}
    (ht : s.point t = .store c v e) :
    WaitInv { s.goto t (.notify c v) with
      ring := c.side.storeIndex s.ring (uadd 64 e 1 % s.ring.size) } := by
  have hin : (s.point t).inside c.side = true := by simp [ht, WaitPoint.inside]
  refine {
    blocking := (Side.storeIndex_mode ..).trans h.blocking
    wf := Side.storeIndex_wf _ h.wf _
    spin_iff := fun d => lock_keep (h.spin_iff d) (by rw [ht]; rfl)
    cond_iff := fun d => lock_keep (h.cond_iff d) (by rw [ht]; rfl)
    asleep := fun d => h.asleep_keep ht fun hq => hq
    covered := fun d => ?_ }
  by_cases hd : d.other = c.side
  · refine Monitor.Covered.of_pending ⟨t, ?_⟩
    simp [WaitState.goto, WaitPoint.announces, hd]
  · obtain rfl : d = c.side := by
      rw [← Side.other_other d, Side.eq_other_of_ne hd, Side.other_other]
    refine (h.covered c.side).step (t := t) (exists_flag_update · ?_) ?_ ?_
    · rw [ht]
      exact Bool.noConfusion
    · intro u hu he
      refine ⟨he, fun _ => ?_⟩
      have hout : (s.point u).inside c.side = false := flag_of_ne (h.spin_iff _) hin hu
      simp only [WaitState.goto, Function.update_of_ne hu]
      exact WaitPoint.knows_of_outside _ (h.flags_of_engaged he) hout
    · intro _
      left
      simp only [WaitState.goto, Function.update_self]
      trivial

/-- **A step of a thread keeps the invariant.** -/
lemma move (h : WaitInv s) (hs : s.move t = some s') : WaitInv s' := by
  simp only [WaitState.move, h.blocking, ↓reduceIte] at hs
  cases ht : s.point t with
  | idle => simp [ht] at hs
  | lock c =>
      rw [ht] at hs
      dsimp only at hs
      cases hlock : s.spin c.side with
      | some u => simp [hlock] at hs
      | none =>
          rw [hlock] at hs
          obtain rfl := Option.some.inj hs
          refine h.gotoSpin ht ?_ (lock_acquire (h.spin_iff _) hlock (by simp [WaitPoint.inside]))
            (fun _ => rfl) (fun _ => rfl) (fun _ => rfl) trivial
          intro d hd
          simp [WaitPoint.inside, Ne.symm hd]
  | enter c =>
      rw [ht] at hs
      obtain ⟨m, hm, rfl⟩ := Option.map_eq_some_iff.mp hs
      obtain ⟨hlock, rfl⟩ := Monitor.lock_eq_some.mp hm
      refine h.enter ht hlock (fun _ => rfl) ?_ (by simp [WaitPoint.holds]) (fun _ _ => rfl) ?_
        (fun _ => rfl) trivial
      · intro d hd
        simp [WaitPoint.holds, Ne.symm hd]
      · exact fun hmem => h.not_engaged ht rfl rfl (Or.inr hmem)
  | test1 c =>
      rw [ht] at hs
      obtain rfl := Option.some.inj hs
      exact h.goto ht (fun _ => rfl) fun _ _ => Or.inl rfl
  | test2 c x =>
      rw [ht] at hs
      dsimp only at hs
      split_ifs at hs with hx <;> obtain rfl := Option.some.inj hs
      · refine h.goto ht (fun _ => rfl) ?_
        intro d he
        -- if the first load is out of date, whoever stored `start` since has not broadcast yet
        have hk : (s.point t).Knows s.ring ∨ s.Announced d.other := h.covered d t he
        rw [ht] at hk
        refine hk.imp_left fun hstart => ?_
        obtain rfl : x = s.ring.start := hstart
        rw [Side.blockedAt_start] at hx
        exact hx
      · exact h.goto ht (fun _ => rfl) fun _ _ => Or.inl trivial
  | wait c =>
      rw [ht] at hs
      obtain rfl := Option.some.inj hs
      exact h.wait ht
  | wake c =>
      rw [ht] at hs
      obtain ⟨m, hm, rfl⟩ := Option.map_eq_some_iff.mp hs
      obtain ⟨hawake, hlock, rfl⟩ := Monitor.relock_eq_some.mp hm
      refine h.enter ht hlock (fun _ => rfl) ?_ (by simp [WaitPoint.holds]) ?_ hawake
        (fun _ => rfl) trivial
      · intro d hd
        simp [WaitPoint.holds, Ne.symm hd]
      · intro d hd
        simp [WaitPoint.sleeps, Ne.symm hd]
  | leave c =>
      rw [ht] at hs
      obtain rfl := Option.some.inj hs
      refine h.leave ht (fun _ => rfl) ?_ (by simp [WaitPoint.holds]) rfl (fun _ => rfl)
        (fun _ => rfl) trivial
      intro d hd
      simp [WaitPoint.holds, Ne.symm hd]
  | poll1 c =>
      rw [ht] at hs
      obtain rfl := Option.some.inj hs
      exact h.goto ht (fun _ => rfl) fun _ _ => Or.inl trivial
  | poll2 c x =>
      rw [ht] at hs
      dsimp only at hs
      split_ifs at hs <;> obtain rfl := Option.some.inj hs
      · exact h.goto ht (fun _ => rfl) fun _ _ => Or.inl trivial
      · exact h.goto ht (fun _ => rfl) fun _ _ => Or.inl trivial
  | index c =>
      rw [ht] at hs
      obtain rfl := Option.some.inj hs
      exact h.goto ht (fun _ => rfl) fun _ _ => Or.inl trivial
  | slot c e =>
      rw [ht] at hs
      obtain rfl := Option.some.inj hs
      have hgoto : WaitInv (s.goto t (.next c (c.loadSlot s.ring e))) :=
        h.goto ht (fun _ => rfl) fun _ _ => Or.inl trivial
      exact hgoto.slot c e
  | next c v =>
      rw [ht] at hs
      obtain rfl := Option.some.inj hs
      exact h.goto ht (fun _ => rfl) fun _ _ => Or.inl trivial
  | store c v e =>
      rw [ht] at hs
      obtain rfl := Option.some.inj hs
      exact h.store ht
  | notify c v =>
      rw [ht] at hs
      obtain ⟨m, hm, rfl⟩ := Option.map_eq_some_iff.mp hs
      obtain ⟨hlock, rfl⟩ := Monitor.lock_eq_some.mp hm
      refine h.enter ht hlock (fun _ => rfl) ?_ (by simp [WaitPoint.holds]) (fun _ _ => rfl) ?_
        (fun _ => rfl) trivial
      · intro d hd
        simp [WaitPoint.holds, Ne.symm hd]
      · exact fun hmem => h.not_engaged ht rfl rfl (Or.inr hmem)
  | broadcast c v =>
      rw [ht] at hs
      obtain rfl := Option.some.inj hs
      exact h.broadcast ht
  | release c v =>
      rw [ht] at hs
      obtain rfl := Option.some.inj hs
      refine h.leave ht (fun _ => rfl) ?_ (by simp [WaitPoint.holds]) rfl (fun _ => rfl)
        (fun _ => rfl) trivial
      intro d hd
      simp [WaitPoint.holds, Ne.symm hd]
  | unlock c v =>
      rw [ht] at hs
      obtain rfl := Option.some.inj hs
      have hin : (s.point t).inside c.side = true := by simp [ht, WaitPoint.inside]
      have hidle : WaitInv { s.goto t .idle with spin := Function.update s.spin c.side none } := by
        refine h.gotoSpin ht ?_ (lock_release (h.spin_iff _) hin rfl) (fun _ => rfl)
          (fun _ => rfl) (fun _ => rfl) trivial
        intro d hd
        simp [WaitPoint.inside, Ne.symm hd]
      exact { hidle with }

/-- Every step keeps the invariant. -/
lemma step (h : WaitInv s) {a : WaitAction τ α} (hs : s.step a = some s') : WaitInv s' := by
  cases a with
  | move t => exact h.move hs
  | call t c =>
      simp only [WaitState.step] at hs
      cases ht : s.point t with
      | idle =>
          rw [ht] at hs
          obtain rfl := Option.some.inj hs
          exact h.goto ht (fun _ => rfl) fun _ _ => Or.inl trivial
      | _ => simp [ht] at hs
  | spurious t d =>
      simp only [WaitState.step] at hs
      split_ifs at hs
      obtain rfl := Option.some.inj hs
      exact h.spurious t d

/-- Every state of every run of a blocking ring. -/
lemma of_run {null : α} {n : UInt64} {callocOk : Bool} {rb : ZxRingbuffer α}
    (hinit : ZxRingbuffer.init null n.toNat ZxRingbuffer.blocking callocOk = .ok rb)
    {as : List (WaitAction τ α)}
    (hrun : Run WaitState.step (fun _ _ => True) (WaitState.start rb) as s) : WaitInv s :=
  hrun.invariant (I := fun _ s => WaitInv s) (WaitInv.start hinit) fun _ _ _ _ h _ hs => h.step hs

end WaitInv

/-- A ring is not full and empty at once. -/
lemma ZxRingbuffer.WF.not_full_of_empty {rb : ZxRingbuffer α} (h : rb.WF)
    (hempty : rb.isEmpty = true) : rb.isFull = false := by
  have h1 := h.one_lt
  rw [h.isEmpty_iff] at hempty
  rw [Bool.eq_false_iff, Ne, h.isFull_iff, hempty]
  omega

/-- Both sides are asleep only while one of them has a broadcast to come. -/
lemma WaitInv.announced_of_both {s : WaitState τ α} (h : WaitInv s) {t u : τ}
    (ht : t ∈ (s.cond .write).asleep) (hu : u ∈ (s.cond .read).asleep) :
    s.Announced .read ∨ s.Announced .write := by
  -- a ring that keeps the readers asleep has room for the writers
  cases hempty : s.ring.isEmpty with
  | true => exact Or.inl (h.announced_of_asleep (d := .write) ht (h.wf.not_full_of_empty hempty))
  | false => exact Or.inr (h.announced_of_asleep (d := .read) hu hempty)

/-- **No wakeup is lost**: for any threads, any calls and any interleaving of a
blocking ring, a thread asleep on `empty_cond` while the ring is not full has a
reader that has stored `start` and not yet broadcast; one asleep on `full_cond`
while the ring is not empty has a writer that has stored `end` and not yet
broadcast; and both sides are never asleep with no broadcast pending. -/
theorem no_wakeup_lost [DecidableEq τ] {null : α} {n : UInt64} {callocOk : Bool}
    {rb : ZxRingbuffer α}
    (hinit : ZxRingbuffer.init null n.toNat ZxRingbuffer.blocking callocOk = .ok rb)
    {as : List (WaitAction τ α)} {s : WaitState τ α}
    (hrun : Run WaitState.step (fun _ _ => True) (WaitState.start rb) as s) :
    (∀ t ∈ s.empty.asleep, s.ring.isFull = false → s.Announced .read) ∧
      (∀ t ∈ s.full.asleep, s.ring.isEmpty = false → s.Announced .write) ∧
      ∀ t ∈ s.empty.asleep, ∀ u ∈ s.full.asleep, s.Announced .read ∨ s.Announced .write := by
  have h := WaitInv.of_run hinit hrun
  exact ⟨fun _ ht hfull => h.announced_of_asleep (d := .write) ht hfull,
    fun _ ht hempty => h.announced_of_asleep (d := .read) ht hempty,
    fun _ ht _ hu => h.announced_of_both ht hu⟩

/-- A writer fills a ring of one, a second writer falls asleep, and a reader
comes as far as its store to `start`. -/
def sleepingWriter : List (WaitAction ℕ ℕ) :=
  List.flatten
    [[.call 0 (.swrite 5)], List.replicate 13 (.move 0),
      [.call 1 (.swrite 6)], List.replicate 5 (.move 1),
      [.call 2 .sread], List.replicate 9 (.move 2)]

/-- The sleeping writer has room, and its broadcast is still to come. -/
theorem sleeping_writer_is_notified :
    ∃ s : WaitState ℕ ℕ, 1 ∈ s.empty.asleep ∧ s.ring.isFull = false ∧ s.Announced .read := by
  have hinit : ZxRingbuffer.init 0 (1 : UInt64).toNat ZxRingbuffer.blocking true =
      .ok ⟨0, 2, 0, fun _ => 0, 0⟩ := rfl
  have hrun : (exec WaitState.step (WaitState.start ⟨0, 2, 0, fun _ => 0, 0⟩) sleepingWriter).map
      (fun s => (s.empty.asleep, s.ring.isFull)) = some ({1}, false) := by
    decide +kernel
  obtain ⟨s, hs, heq⟩ := Option.map_eq_some_iff.mp hrun
  simp only [Prod.mk.injEq] at heq
  have hmem : 1 ∈ s.empty.asleep := by simp [heq.1]
  exact ⟨s, hmem, heq.2, (no_wakeup_lost hinit (run_of_exec hs)).1 1 hmem heq.2⟩

end CLibrary
