import CLibrary.Library.Monitor
import CLibrary.Library.Runs
import CLibrary.RingBuffer.Shared

/-!
The thread-safe single-element operations under any number of threads.

`zx_ringbuffer_swrite`, `try_swrite`, `try_swrite_bl` and their reading
counterparts take a spin lock of their own side only, so every slot access is
open to the other side.  A step is one load or store of `start`, `end` or a
slot, or the taking or giving back of a lock; the early tests before the lock
are steps like any other.  The mode is not read here: the waits are those of
polling.  A blocking wait loads the same indices and does nothing else to the
ring, so its runs are runs of this relation too; `SeenAs.step` in `Modes` carries
them over.

* `Point`, `LinState.move`, `LinState.step`: the step relation over an
  arbitrary type of threads.
* `LinInv`: `start` and `end` are the residues of the numbers of values
  returned and written; the slots in between hold them, and one more when the
  writing side has stored and not yet published.
* `single_ops_linearize`: what is returned, in the order of the stores to
  `start`, is a prefix of what is written, in the order of the stores to `end`;
  never more than `n` values are held, and every completed call has moved its
  one value between call and return, or nothing if it returned 0.
-/

namespace CLibrary

variable {τ α : Type*}

/-! ### The step relation -/

/-- The writing operations. -/
inductive WriteKind where
  | swrite | trySwrite | trySwriteBl
  deriving DecidableEq, Repr

/-- The reading operations. -/
inductive ReadKind where
  | sread | trySread | trySreadBl
  deriving DecidableEq, Repr

/-- A call of a writing operation. -/
structure WriteCall (α : Type*) where
  kind : WriteKind
  value : α

/-- Where a thread is, with its locals; `x` is what the first load of a test
has loaded. -/
inductive Point (α : Type*) where
  | idle
  /-- `USE_CHECK_EARLY`: `is_full` before the lock. -/
  | wEarly1 (c : WriteCall α)
  | wEarly2 (c : WriteCall α) (x : ℕ)
  /-- `LOCK(w)`, `TRY_LOCK(w, …)`. -/
  | wLock (c : WriteCall α)
  /-- `is_full` of `zx_ringbuffer_try_write`. -/
  | wFull1 (c : WriteCall α)
  | wFull2 (c : WriteCall α) (x : ℕ)
  /-- `wait_for_empty`. -/
  | wWait1 (c : WriteCall α)
  | wWait2 (c : WriteCall α) (x : ℕ)
  /-- `rb->elements[rb->end] = value`: the load, then the store. -/
  | wIndex (c : WriteCall α)
  | wSlot (c : WriteCall α) (e : ℕ)
  /-- `rb->end = (rb->end + 1) % rb->size`: the load, then the store. -/
  | wNext (c : WriteCall α)
  | wEnd (c : WriteCall α) (e : ℕ)
  /-- `UNLOCK(w)` and the return of `ret`. -/
  | wUnlock (c : WriteCall α) (ret : ℕ)
  /-- `is_empty` before the lock. -/
  | rEarly1 (k : ReadKind)
  | rEarly2 (k : ReadKind) (x : ℕ)
  /-- `LOCK(r)`, `TRY_LOCK(r, …)`. -/
  | rLock (k : ReadKind)
  /-- `is_empty` of `zx_ringbuffer_try_read`. -/
  | rEmpty1 (k : ReadKind)
  | rEmpty2 (k : ReadKind) (x : ℕ)
  /-- `wait_for_full`. -/
  | rWait1 (k : ReadKind)
  | rWait2 (k : ReadKind) (x : ℕ)
  /-- `value = rb->elements[rb->start]`: the two loads. -/
  | rIndex (k : ReadKind)
  | rSlot (k : ReadKind) (e : ℕ)
  /-- `rb->start = (rb->start + 1) % rb->size`: the load, then the store. -/
  | rNext (k : ReadKind) (v : α)
  | rStart (k : ReadKind) (v : α) (e : ℕ)
  /-- `UNLOCK(r)` and the return of `ret` and `value`. -/
  | rUnlock (k : ReadKind) (ret : ℕ) (value : Option α)

/-- A call that has returned: its result, and the values the thread moved
through its stores to `end` or `start` since the call began. -/
inductive Done (τ α : Type*) where
  | write (t : τ) (c : WriteCall α) (ret : ℕ) (moved : List α)
  | read (t : τ) (k : ReadKind) (ret : ℕ) (value : Option α) (moved : List α)

/-- The ring and its two locks, the threads, the values in the order of the
stores to `end` and to `start`, and the calls that have returned. -/
structure LinState (τ α : Type*) where
  mem : SharedRing α
  wlock : Option τ
  rlock : Option τ
  point : τ → Point α
  moved : τ → List α
  written : List α
  returned : List α
  done : List (Done τ α)

/-- The label of a step: an idle thread calls, any other moves. -/
inductive LinAction (τ α : Type*) where
  | callWrite (t : τ) (c : WriteCall α)
  | callRead (t : τ) (k : ReadKind)
  | move (t : τ)

namespace LinState

variable [DecidableEq τ]

/-- All threads idle on a fresh ring. -/
def start (rb : ZxRingbuffer α) : LinState τ α :=
  ⟨SharedRing.start rb, none, none, fun _ => .idle, fun _ => [], [], [], []⟩

/-- Thread `t` goes to point `p`. -/
def goto (s : LinState τ α) (t : τ) (p : Point α) : LinState τ α :=
  { s with point := Function.update s.point t p }

/-- Thread `t` returns. -/
def finish (s : LinState τ α) (t : τ) (d : Done τ α) : LinState τ α :=
  { s.goto t .idle with done := s.done ++ [d] }

/-- The next step of a thread inside a call. -/
def move (s : LinState τ α) (t : τ) : Option (LinState τ α) :=
  let rb := s.mem.rb
  match s.point t with
  | .idle => none
  | .wEarly1 c => some (s.goto t (.wEarly2 c rb.start))
  | .wEarly2 c x =>
      if x = uadd 64 rb.endIdx 1 % rb.size then some (s.finish t (.write t c 0 (s.moved t)))
      else some (s.goto t (.wLock c))
  | .wLock c =>
      match s.wlock with
      | some _ => none
      | none =>
          some { s.goto t (if c.kind = .swrite then .wWait1 c else .wFull1 c) with
            wlock := some t }
  | .wFull1 c => some (s.goto t (.wFull2 c rb.start))
  | .wFull2 c x =>
      if x = uadd 64 rb.endIdx 1 % rb.size then some (s.goto t (.wUnlock c 0))
      else some (s.goto t (.wWait1 c))
  | .wWait1 c => some (s.goto t (.wWait2 c rb.start))
  | .wWait2 c x =>
      if x = uadd 64 rb.endIdx 1 % rb.size then some (s.goto t (.wWait1 c))
      else some (s.goto t (.wIndex c))
  | .wIndex c => some (s.goto t (.wSlot c rb.endIdx))
  | .wSlot c e => some { s.goto t (.wNext c) with mem := s.mem.storeSlot e c.value }
  | .wNext c => some (s.goto t (.wEnd c rb.endIdx))
  | .wEnd c e =>
      some { s.goto t (.wUnlock c 1) with
        mem := s.mem.storeEnd (uadd 64 e 1 % rb.size)
        written := s.written ++ [c.value]
        moved := Function.update s.moved t (s.moved t ++ [c.value]) }
  | .wUnlock c ret => some { s.finish t (.write t c ret (s.moved t)) with wlock := none }
  | .rEarly1 k => some (s.goto t (.rEarly2 k rb.start))
  | .rEarly2 k x =>
      if x = rb.endIdx then some (s.finish t (.read t k 0 none (s.moved t)))
      else some (s.goto t (.rLock k))
  | .rLock k =>
      match s.rlock with
      | some _ => none
      | none =>
          some { s.goto t (if k = .sread then .rWait1 k else .rEmpty1 k) with rlock := some t }
  | .rEmpty1 k => some (s.goto t (.rEmpty2 k rb.start))
  | .rEmpty2 k x =>
      if x = rb.endIdx then some (s.goto t (.rUnlock k 0 none)) else some (s.goto t (.rWait1 k))
  | .rWait1 k => some (s.goto t (.rWait2 k rb.start))
  | .rWait2 k x =>
      if x = rb.endIdx then some (s.goto t (.rWait1 k)) else some (s.goto t (.rIndex k))
  | .rIndex k => some (s.goto t (.rSlot k rb.start))
  | .rSlot k e =>
      some { s.goto t (.rNext k (rb.elements e)) with mem := s.mem.loadSlot e }
  | .rNext k v => some (s.goto t (.rStart k v rb.start))
  | .rStart k v e =>
      some { s.goto t (.rUnlock k 1 (some v)) with
        mem := s.mem.storeStart (uadd 64 e 1 % rb.size)
        returned := s.returned ++ [v]
        moved := Function.update s.moved t (s.moved t ++ [v]) }
  | .rUnlock k ret value =>
      some { s.finish t (.read t k ret value (s.moved t)) with rlock := none }

/-- One step of one thread. -/
def step (s : LinState τ α) : LinAction τ α → Option (LinState τ α)
  | .callWrite t c =>
      match s.point t with
      | .idle =>
          some { s.goto t (if c.kind = .swrite then .wLock c else .wEarly1 c) with
            moved := Function.update s.moved t [] }
      | _ => none
  | .callRead t k =>
      match s.point t with
      | .idle =>
          some { s.goto t (if k = .sread then .rLock k else .rEarly1 k) with
            moved := Function.update s.moved t [] }
      | _ => none
  | .move t => s.move t

end LinState

/-! ### What a completed call has done -/

/-- A call that returned has moved its one value; a `try` operation that
returned 0 has moved nothing and set nothing. -/
def Done.Sound : Done τ α → Prop
  | .write _ c ret moved =>
      (ret = 1 ∧ moved = [c.value]) ∨ (c.kind ≠ .swrite ∧ ret = 0 ∧ moved = [])
  | .read _ k ret value moved =>
      (ret = 1 ∧ ∃ v, value = some v ∧ moved = [v]) ∨
        (k ≠ .sread ∧ ret = 0 ∧ value = none ∧ moved = [])

/-! ### The invariant -/

namespace Point

/-- Between taking and giving back the writers' lock. -/
def inWrite : Point α → Bool
  | .wFull1 _ | .wFull2 _ _ | .wWait1 _ | .wWait2 _ _ | .wIndex _ | .wSlot _ _ | .wNext _
  | .wEnd _ _ | .wUnlock _ _ => true
  | _ => false

/-- Between taking and giving back the readers' lock. -/
def inRead : Point α → Bool
  | .rEmpty1 _ | .rEmpty2 _ _ | .rWait1 _ | .rWait2 _ _ | .rIndex _ | .rSlot _ _ | .rNext _ _
  | .rStart _ _ _ | .rUnlock _ _ _ => true
  | _ => false

/-- The slot is stored, `end` is not. -/
def storing : Point α → Bool
  | .wNext _ | .wEnd _ _ => true
  | _ => false

/-- The slot is loaded, `start` is not stored. -/
def loading : Point α → Bool
  | .rNext _ _ | .rStart _ _ _ => true
  | _ => false

/-- The four together. -/
def flags (p : Point α) : Bool × Bool × Bool × Bool := (p.inWrite, p.inRead, p.storing, p.loading)

end Point

/-- What a thread knows at its point.  `log` lists the values whose slots have
been stored, `lo` counts the slots loaded, `moved` is what its call has moved. -/
def PointOk (size : ℕ) (written returned log : List α) (lo : ℕ) (moved : List α) :
    Point α → Prop
  | .idle => True
  | .wEarly1 c | .wEarly2 c _ => moved = [] ∧ c.kind ≠ .swrite
  | .wLock _ => moved = []
  | .wFull1 c | .wFull2 c _ => moved = [] ∧ log = written ∧ c.kind ≠ .swrite
  | .wWait1 _ => moved = [] ∧ log = written
  | .wWait2 _ x => moved = [] ∧ log = written ∧
      ∃ ρ ≤ returned.length, written.length < ρ + size ∧ x = ρ % size
  | .wIndex _ => moved = [] ∧ log = written ∧ written.length + 1 < returned.length + size
  | .wSlot _ e => moved = [] ∧ log = written ∧ written.length + 1 < returned.length + size ∧
      e = written.length % size
  | .wNext c => moved = [] ∧ log = written ++ [c.value] ∧
      written.length + 1 < returned.length + size
  | .wEnd c e => moved = [] ∧ log = written ++ [c.value] ∧
      written.length + 1 < returned.length + size ∧ e = written.length % size
  | .wUnlock c ret => log = written ∧
      ((ret = 1 ∧ moved = [c.value]) ∨ (c.kind ≠ .swrite ∧ ret = 0 ∧ moved = []))
  | .rEarly1 k | .rEarly2 k _ => moved = [] ∧ k ≠ .sread
  | .rLock _ => moved = []
  | .rEmpty1 k | .rEmpty2 k _ => moved = [] ∧ lo = returned.length ∧ k ≠ .sread
  | .rWait1 _ => moved = [] ∧ lo = returned.length
  | .rWait2 _ x => moved = [] ∧ lo = returned.length ∧ x = returned.length % size
  | .rIndex _ => moved = [] ∧ lo = returned.length ∧ returned.length < written.length
  | .rSlot _ e => moved = [] ∧ lo = returned.length ∧ returned.length < written.length ∧
      e = returned.length % size
  | .rNext _ v => moved = [] ∧ lo = returned.length + 1 ∧ returned ++ [v] <+: written
  | .rStart _ v e => moved = [] ∧ lo = returned.length + 1 ∧ returned ++ [v] <+: written ∧
      e = returned.length % size
  | .rUnlock k ret value => lo = returned.length ∧
      ((ret = 1 ∧ ∃ v, value = some v ∧ moved = [v]) ∨
        (k ≠ .sread ∧ ret = 0 ∧ value = none ∧ moved = []))

/-- A thread outside the writers' lock keeps what it knows when the writing
side stores a slot or publishes it. -/
lemma PointOk.write_side {size : ℕ} {written returned log written' log' moved : List α} {lo : ℕ}
    {p : Point α} (h : PointOk size written returned log lo moved p) (hp : p.inWrite = false)
    (hw : written <+: written') : PointOk size written' returned log' lo moved p := by
  have hlen := hw.length_le
  cases p with
  | rIndex k =>
      obtain ⟨h1, h2, h3⟩ := h
      exact ⟨h1, h2, h3.trans_le hlen⟩
  | rSlot k e =>
      obtain ⟨h1, h2, h3, h4⟩ := h
      exact ⟨h1, h2, h3.trans_le hlen, h4⟩
  | rNext k v =>
      obtain ⟨h1, h2, h3⟩ := h
      exact ⟨h1, h2, h3.trans hw⟩
  | rStart k v e =>
      obtain ⟨h1, h2, h3, h4⟩ := h
      exact ⟨h1, h2, h3.trans hw, h4⟩
  | wFull1 | wFull2 | wWait1 | wWait2 | wIndex | wSlot | wNext | wEnd | wUnlock =>
      simp [Point.inWrite] at hp
  | idle | wEarly1 | wEarly2 | wLock | rEarly1 | rEarly2 | rLock | rEmpty1 | rEmpty2 | rWait1
  | rWait2 | rUnlock => exact h

/-- A thread outside the readers' lock keeps what it knows when the reading
side loads a slot or gives it back. -/
lemma PointOk.read_side {size : ℕ} {written returned log returned' moved : List α} {lo lo' : ℕ}
    {p : Point α} (h : PointOk size written returned log lo moved p) (hp : p.inRead = false)
    (hr : returned.length ≤ returned'.length) :
    PointOk size written returned' log lo' moved p := by
  cases p with
  | wWait2 c x =>
      obtain ⟨h1, h2, ρ, h3, h4⟩ := h
      exact ⟨h1, h2, ρ, h3.trans hr, h4⟩
  | wIndex c =>
      obtain ⟨h1, h2, h3⟩ := h
      exact ⟨h1, h2, by omega⟩
  | wSlot c e =>
      obtain ⟨h1, h2, h3, h4⟩ := h
      exact ⟨h1, h2, by omega, h4⟩
  | wNext c =>
      obtain ⟨h1, h2, h3⟩ := h
      exact ⟨h1, h2, by omega⟩
  | wEnd c e =>
      obtain ⟨h1, h2, h3, h4⟩ := h
      exact ⟨h1, h2, by omega, h4⟩
  | rEmpty1 | rEmpty2 | rWait1 | rWait2 | rIndex | rSlot | rNext | rStart | rUnlock =>
      simp [Point.inRead] at hp
  | idle | wEarly1 | wEarly2 | wLock | wFull1 | wFull2 | wWait1 | wUnlock | rEarly1 | rEarly2
  | rLock => exact h

/-- The invariant, over the log of stored slots and the count of loaded ones. -/
structure LinInv [DecidableEq τ] (size : ℕ) (s : LinState τ α) (log : List α) (lo : ℕ) :
    Prop where
  size_eq : s.mem.rb.size = size
  one_lt : 1 < size
  size_lt : size < 2 ^ 64
  start_eq : s.mem.rb.start = s.returned.length % size
  end_eq : s.mem.rb.endIdx = s.written.length % size
  mem : s.mem.MemInv log lo
  returned_prefix : s.returned <+: s.written
  written_prefix : s.written <+: log
  log_lt : log.length < s.returned.length + size
  returned_le : s.returned.length ≤ lo
  lo_le : lo ≤ s.written.length
  log_free : (∀ t, (s.point t).storing = false) → log = s.written
  lo_free : (∀ t, (s.point t).loading = false) → lo = s.returned.length
  wlock_iff : ∀ t, (s.point t).inWrite = true ↔ s.wlock = some t
  rlock_iff : ∀ t, (s.point t).inRead = true ↔ s.rlock = some t
  points : ∀ t, PointOk size s.written s.returned log lo (s.moved t) (s.point t)
  done : ∀ d ∈ s.done, d.Sound

/-! ### Points and flags -/

lemma Point.inWrite_of_storing {p : Point α} (h : p.storing = true) : p.inWrite = true := by
  cases p <;> simp_all [Point.storing, Point.inWrite]

lemma Point.inRead_of_loading {p : Point α} (h : p.loading = true) : p.inRead = true := by
  cases p <;> simp_all [Point.loading, Point.inRead]

/-! ### Every step keeps the invariant -/

section Moved

variable [DecidableEq τ] {size lo : ℕ} {written returned log l : List α} {moved : τ → List α}
  {t u : τ} {p : Point α}

lemma PointOk.moved_self (h : PointOk size written returned log lo l p) :
    PointOk size written returned log lo (Function.update moved t l t) p := by
  rw [Function.update_self]
  exact h

lemma PointOk.moved_ne (h : PointOk size written returned log lo (moved u) p) (hu : u ≠ t) :
    PointOk size written returned log lo (Function.update moved t l u) p := by
  rw [Function.update_of_ne hu]
  exact h

end Moved

namespace LinInv

variable [DecidableEq τ] {size : ℕ} {s s' : LinState τ α} {log : List α} {lo : ℕ} {t : τ}

/-- Nobody in the writers' lock: nothing is stored and not yet published. -/
lemma log_eq (h : LinInv size s log lo) (hlock : s.wlock = none) : log = s.written := by
  refine h.log_free fun u => ?_
  have hout := flag_of_free h.wlock_iff hlock u
  by_contra hst
  rw [Point.inWrite_of_storing (by simpa using hst)] at hout
  exact Bool.noConfusion hout

/-- Nobody in the readers' lock: nothing is loaded and not yet given back. -/
lemma lo_eq (h : LinInv size s log lo) (hlock : s.rlock = none) : lo = s.returned.length := by
  refine h.lo_free fun u => ?_
  have hout := flag_of_free h.rlock_iff hlock u
  by_contra hld
  rw [Point.inRead_of_loading (by simpa using hld)] at hout
  exact Bool.noConfusion hout

/-- The register of an index store follows its counter. -/
lemma next_index (h : LinInv size s log lo) (k : ℕ) :
    uadd 64 (k % size) 1 % size = (k + 1) % size := by
  have h1 := h.one_lt
  rw [ZxRingbuffer.next_eq h.size_lt (Nat.mod_lt _ (by omega)), Nat.mod_add_mod]

/-- A step that moves one thread between two points with the same flags. -/
lemma goto (h : LinInv size s log lo) {p q : Point α} (ht : s.point t = q)
    (hf : p.flags = q.flags) (hp : PointOk size s.written s.returned log lo (s.moved t) p) :
    LinInv size (s.goto t p) log lo := by
  rw [← ht] at hf
  simp only [Point.flags, Prod.mk.injEq] at hf
  obtain ⟨hw, hr, hst, hld⟩ := hf
  exact { h with
    log_free := fun hall => h.log_free fun u => (flag_update hst u).symm.trans (hall u)
    lo_free := fun hall => h.lo_free fun u => (flag_update hld u).symm.trans (hall u)
    wlock_iff := lock_keep h.wlock_iff hw
    rlock_iff := lock_keep h.rlock_iff hr
    points := points_update hp fun u _ => h.points u }

/-- One more call has returned. -/
lemma record (h : LinInv size s log lo) {d : Done τ α} (hd : d.Sound) :
    LinInv size { s with done := s.done ++ [d] } log lo := by
  refine { h with done := fun d' hd' => ?_ }
  rcases List.mem_append.mp hd' with hd' | hd'
  · exact h.done d' hd'
  · rw [List.mem_singleton.mp hd']
    exact hd

/-- A call begins, with nothing moved. -/
lemma call (h : LinInv size s log lo) {p : Point α} (ht : s.point t = .idle)
    (hw : p.inWrite = false) (hr : p.inRead = false)
    (hp : PointOk size s.written s.returned log lo [] p) :
    LinInv size { s.goto t p with moved := Function.update s.moved t [] } log lo := by
  have hst : p.storing = false := by
    by_contra hst
    simp [Point.inWrite_of_storing (by simpa using hst)] at hw
  have hld : p.loading = false := by
    by_contra hld
    simp [Point.inRead_of_loading (by simpa using hld)] at hr
  exact { h with
    log_free := fun hall =>
      h.log_free fun u => (flag_update (by rw [hst, ht]; rfl) u).symm.trans (hall u)
    lo_free := fun hall =>
      h.lo_free fun u => (flag_update (by rw [hld, ht]; rfl) u).symm.trans (hall u)
    wlock_iff := lock_keep h.wlock_iff (by rw [hw, ht]; rfl)
    rlock_iff := lock_keep h.rlock_iff (by rw [hr, ht]; rfl)
    points := points_update hp.moved_self fun u hu => (h.points u).moved_ne hu }

/-- Taking the writers' lock. -/
lemma lockW (h : LinInv size s log lo) {p : Point α} (hlock : s.wlock = none)
    (hw : p.inWrite = true) (hr : p.inRead = (s.point t).inRead)
    (hld : p.loading = (s.point t).loading)
    (hp : PointOk size s.written s.returned log lo (s.moved t) p) :
    LinInv size { s.goto t p with wlock := some t } log lo :=
  { h with
    log_free := fun _ => h.log_eq hlock
    lo_free := fun hall => h.lo_free fun u => (flag_update hld u).symm.trans (hall u)
    wlock_iff := lock_acquire h.wlock_iff hlock hw
    rlock_iff := lock_keep h.rlock_iff hr
    points := points_update hp fun u _ => h.points u }

/-- Taking the readers' lock. -/
lemma lockR (h : LinInv size s log lo) {p : Point α} (hlock : s.rlock = none)
    (hr : p.inRead = true) (hw : p.inWrite = (s.point t).inWrite)
    (hst : p.storing = (s.point t).storing)
    (hp : PointOk size s.written s.returned log lo (s.moved t) p) :
    LinInv size { s.goto t p with rlock := some t } log lo :=
  { h with
    log_free := fun hall => h.log_free fun u => (flag_update hst u).symm.trans (hall u)
    lo_free := fun _ => h.lo_eq hlock
    wlock_iff := lock_keep h.wlock_iff hw
    rlock_iff := lock_acquire h.rlock_iff hlock hr
    points := points_update hp fun u _ => h.points u }

/-- Giving the writers' lock back: everything stored has been published. -/
lemma unlockW (h : LinInv size s log lo) {c : WriteCall α} {ret : ℕ}
    (ht : s.point t = .wUnlock c ret) :
    LinInv size { s.goto t .idle with wlock := none } log lo := by
  have hpt := h.points t
  rw [ht] at hpt
  exact { h with
    log_free := fun _ => hpt.1
    lo_free := fun hall =>
      h.lo_free fun u => (flag_update (by rw [ht]; rfl) u).symm.trans (hall u)
    wlock_iff := lock_release h.wlock_iff (by rw [ht]; rfl) rfl
    rlock_iff := lock_keep h.rlock_iff (by rw [ht]; rfl)
    points := points_update trivial fun u _ => h.points u }

/-- Giving the readers' lock back: everything loaded has been given back. -/
lemma unlockR (h : LinInv size s log lo) {k : ReadKind} {ret : ℕ} {value : Option α}
    (ht : s.point t = .rUnlock k ret value) :
    LinInv size { s.goto t .idle with rlock := none } log lo := by
  have hpt := h.points t
  rw [ht] at hpt
  exact { h with
    log_free := fun hall =>
      h.log_free fun u => (flag_update (by rw [ht]; rfl) u).symm.trans (hall u)
    lo_free := fun _ => hpt.1
    wlock_iff := lock_keep h.wlock_iff (by rw [ht]; rfl)
    rlock_iff := lock_release h.rlock_iff (by rw [ht]; rfl) rfl
    points := points_update trivial fun u _ => h.points u }

/-- The store to a slot: the log grows, nothing is published. -/
lemma storeSlot (h : LinInv size s log lo) {c : WriteCall α} {e : ℕ}
    (ht : s.point t = .wSlot c e) :
    LinInv size { s.goto t (.wNext c) with mem := s.mem.storeSlot e c.value }
      (log ++ [c.value]) lo := by
  have hpt := h.points t
  rw [ht] at hpt
  obtain ⟨hmv, hlog, hroom, rfl⟩ := hpt
  have h1 := h.returned_le
  have h2 := h.lo_le
  have hsz := h.size_eq
  have hmem := h.mem.store c.value (by rw [hlog]; omega) (by rw [hlog]; exact h2)
  rw [hlog, hsz] at hmem
  have hin : (s.point t).inWrite = true := by rw [ht]; rfl
  refine { h with
    mem := hlog ▸ hmem
    written_prefix := h.written_prefix.trans (List.prefix_append _ _)
    log_lt := by
      rw [hlog, List.length_append, List.length_singleton]
      exact hroom
    log_free := fun hall => ?_
    lo_free := fun hall =>
      h.lo_free fun u => (flag_update (by rw [ht]; rfl) u).symm.trans (hall u)
    wlock_iff := lock_keep h.wlock_iff (by rw [hin]; rfl)
    rlock_iff := lock_keep h.rlock_iff (by rw [ht]; rfl)
    points := points_update ⟨hmv, congrArg (· ++ [c.value]) hlog, hroom⟩ fun u hu =>
      (h.points u).write_side (flag_of_ne h.wlock_iff hin hu) List.prefix_rfl }
  -- the moving thread itself is the one that has stored and not published
  have := hall t
  simp [LinState.goto, Point.storing] at this

/-- The store to `end` publishes the slot. -/
lemma storeEnd (h : LinInv size s log lo) {c : WriteCall α} {e : ℕ} (ht : s.point t = .wEnd c e) :
    LinInv size { s.goto t (.wUnlock c 1) with
      mem := s.mem.storeEnd (uadd 64 e 1 % size)
      written := s.written ++ [c.value]
      moved := Function.update s.moved t (s.moved t ++ [c.value]) } log lo := by
  have hpt := h.points t
  rw [ht] at hpt
  obtain ⟨hmv, hlog, hroom, rfl⟩ := hpt
  have h2 := h.lo_le
  have hpre : s.written <+: s.written ++ [c.value] := List.prefix_append _ _
  have hin : (s.point t).inWrite = true := by rw [ht]; rfl
  exact { h with
    end_eq := by
      change uadd 64 _ 1 % size = (s.written ++ [c.value]).length % size
      rw [h.next_index, List.length_append, List.length_singleton]
    mem := h.mem.storeEnd _
    returned_prefix := h.returned_prefix.trans hpre
    written_prefix := by rw [hlog]
    lo_le := h2.trans hpre.length_le
    log_free := fun _ => hlog
    lo_free := fun hall =>
      h.lo_free fun u => (flag_update (by rw [ht]; rfl) u).symm.trans (hall u)
    wlock_iff := lock_keep h.wlock_iff (by rw [hin]; rfl)
    rlock_iff := lock_keep h.rlock_iff (by rw [ht]; rfl)
    points := points_update (PointOk.moved_self ⟨hlog, Or.inl ⟨rfl, by rw [hmv]; rfl⟩⟩)
      fun u hu => ((h.points u).write_side (flag_of_ne h.wlock_iff hin hu) hpre).moved_ne hu }

/-- The load of a slot yields the next value written. -/
lemma loadSlot (h : LinInv size s log lo) {k : ReadKind} {e : ℕ} (ht : s.point t = .rSlot k e) :
    LinInv size { s.goto t (.rNext k (s.mem.rb.elements e)) with mem := s.mem.loadSlot e }
      log (lo + 1) := by
  have hpt := h.points t
  rw [ht] at hpt
  obtain ⟨hmv, rfl, hlt, rfl⟩ := hpt
  have h1 := h.log_lt
  have hsz := h.size_eq
  have hlen := h.written_prefix.length_le
  have hmem := h.mem.load (by omega) (by omega)
  have htake := h.mem.holds.take (h.returned_prefix.trans h.written_prefix) rfl (by omega)
  rw [hsz] at hmem htake
  have hnext : s.returned ++ [s.mem.rb.elements (s.returned.length % size)] <+: s.written :=
    List.prefix_of_prefix_length_le htake h.written_prefix (by simpa using hlt)
  have hin : (s.point t).inRead = true := by rw [ht]; rfl
  refine { h with
    mem := hmem
    returned_le := Nat.le_succ _
    lo_le := hlt
    log_free := fun hall =>
      h.log_free fun u => (flag_update (by rw [ht]; rfl) u).symm.trans (hall u)
    lo_free := fun hall => ?_
    wlock_iff := lock_keep h.wlock_iff (by rw [ht]; rfl)
    rlock_iff := lock_keep h.rlock_iff (by rw [hin]; rfl)
    points := points_update ⟨hmv, rfl, hnext⟩ fun u hu =>
      (h.points u).read_side (flag_of_ne h.rlock_iff hin hu) le_rfl }
  -- the moving thread itself is the one that has loaded and not given back
  have := hall t
  simp [LinState.goto, Point.loading] at this

/-- The store to `start` gives the slot back. -/
lemma storeStart (h : LinInv size s log lo) {k : ReadKind} {v : α} {e : ℕ}
    (ht : s.point t = .rStart k v e) :
    LinInv size { s.goto t (.rUnlock k 1 (some v)) with
      mem := s.mem.storeStart (uadd 64 e 1 % size)
      returned := s.returned ++ [v]
      moved := Function.update s.moved t (s.moved t ++ [v]) } log lo := by
  have hpt := h.points t
  rw [ht] at hpt
  obtain ⟨hmv, hlo, hnext, rfl⟩ := hpt
  have h1 := h.log_lt
  have hlen : (s.returned ++ [v]).length = s.returned.length + 1 := by simp
  have hin : (s.point t).inRead = true := by rw [ht]; rfl
  exact { h with
    start_eq := by
      change uadd 64 _ 1 % size = (s.returned ++ [v]).length % size
      rw [h.next_index, hlen]
    mem := h.mem.storeStart _
    returned_prefix := hnext
    log_lt := by rw [hlen]; omega
    returned_le := by rw [hlen, hlo]
    log_free := fun hall =>
      h.log_free fun u => (flag_update (by rw [ht]; rfl) u).symm.trans (hall u)
    lo_free := fun _ => by rw [hlen, hlo]
    wlock_iff := lock_keep h.wlock_iff (by rw [ht]; rfl)
    rlock_iff := lock_keep h.rlock_iff (by rw [hin]; rfl)
    points := points_update
      (PointOk.moved_self ⟨by rw [hlen, hlo], Or.inl ⟨rfl, v, rfl, by rw [hmv]; rfl⟩⟩)
      fun u hu => ((h.points u).read_side (flag_of_ne h.rlock_iff hin hu)
        (by rw [hlen]; omega)).moved_ne hu }

/-- **A step of a thread keeps the invariant**, over the log it leaves. -/
lemma move (h : LinInv size s log lo) (hs : s.move t = some s') :
    ∃ log' lo', LinInv size s' log' lo' := by
  have hpt := h.points t
  have h1 := h.one_lt
  have hwl := h.written_prefix.length_le
  have hrw := h.returned_prefix.length_le
  have hlt := h.log_lt
  have hfull := ZxRingbuffer.next_eq h.size_lt (Nat.mod_lt s.written.length (by omega))
  simp only [LinState.move, h.size_eq, h.start_eq, h.end_eq] at hs
  cases ht : s.point t with
  | idle => simp [ht] at hs
  | wEarly1 c =>
      rw [ht] at hs hpt
      obtain rfl := Option.some.inj hs
      exact ⟨log, lo, h.goto ht rfl hpt⟩
  | wEarly2 c x =>
      rw [ht] at hs hpt
      obtain ⟨hmv, hk⟩ := hpt
      dsimp only at hs
      split_ifs at hs with hx <;> obtain rfl := Option.some.inj hs
      · exact ⟨log, lo, (h.goto (p := .idle) ht rfl trivial).record (Or.inr ⟨hk, rfl, hmv⟩)⟩
      · exact ⟨log, lo, h.goto ht rfl hmv⟩
  | wLock c =>
      rw [ht] at hs hpt
      dsimp only at hs
      cases hlock : s.wlock with
      | some u => simp [hlock] at hs
      | none =>
          rw [hlock] at hs
          obtain rfl := Option.some.inj hs
          have hlog := h.log_eq hlock
          refine ⟨log, lo, ?_⟩
          split_ifs with hk
          · exact h.lockW hlock rfl (by rw [ht]; rfl) (by rw [ht]; rfl) ⟨hpt, hlog⟩
          · exact h.lockW hlock rfl (by rw [ht]; rfl) (by rw [ht]; rfl) ⟨hpt, hlog, hk⟩
  | wFull1 c =>
      rw [ht] at hs hpt
      obtain rfl := Option.some.inj hs
      exact ⟨log, lo, h.goto ht rfl hpt⟩
  | wFull2 c x =>
      rw [ht] at hs hpt
      obtain ⟨hmv, hlog, hk⟩ := hpt
      dsimp only at hs
      split_ifs at hs with hx <;> obtain rfl := Option.some.inj hs
      · exact ⟨log, lo, h.goto ht rfl ⟨hlog, Or.inr ⟨hk, rfl, hmv⟩⟩⟩
      · exact ⟨log, lo, h.goto ht rfl ⟨hmv, hlog⟩⟩
  | wWait1 c =>
      rw [ht] at hs hpt
      obtain ⟨hmv, hlog⟩ := hpt
      obtain rfl := Option.some.inj hs
      exact ⟨log, lo, h.goto ht rfl ⟨hmv, hlog, _, le_rfl, by omega, rfl⟩⟩
  | wWait2 c x =>
      rw [ht] at hs hpt
      obtain ⟨hmv, hlog, ρ, hρ, hρs, rfl⟩ := hpt
      dsimp only at hs
      split_ifs at hs with hx <;> obtain rfl := Option.some.inj hs
      · exact ⟨log, lo, h.goto ht rfl ⟨hmv, hlog⟩⟩
      · -- `start` as it was loaded is a lower bound of `start` as it is now
        have hne : s.written.length + 1 ≠ ρ + size := by
          intro heq
          rw [hfull, Nat.mod_add_mod, heq, Nat.add_mod_right] at hx
          exact hx rfl
        exact ⟨log, lo, h.goto ht rfl ⟨hmv, hlog, by omega⟩⟩
  | wIndex c =>
      rw [ht] at hs hpt
      obtain ⟨hmv, hlog, hroom⟩ := hpt
      obtain rfl := Option.some.inj hs
      exact ⟨log, lo, h.goto ht rfl ⟨hmv, hlog, hroom, rfl⟩⟩
  | wSlot c e =>
      rw [ht] at hs
      obtain rfl := Option.some.inj hs
      exact ⟨_, _, h.storeSlot ht⟩
  | wNext c =>
      rw [ht] at hs hpt
      obtain ⟨hmv, hlog, hroom⟩ := hpt
      obtain rfl := Option.some.inj hs
      exact ⟨log, lo, h.goto ht rfl ⟨hmv, hlog, hroom, rfl⟩⟩
  | wEnd c e =>
      rw [ht] at hs
      obtain rfl := Option.some.inj hs
      exact ⟨_, _, h.storeEnd ht⟩
  | wUnlock c ret =>
      rw [ht] at hs hpt
      obtain rfl := Option.some.inj hs
      exact ⟨log, lo, (h.unlockW ht).record (d := .write t c ret (s.moved t)) hpt.2⟩
  | rEarly1 k =>
      rw [ht] at hs hpt
      obtain rfl := Option.some.inj hs
      exact ⟨log, lo, h.goto ht rfl hpt⟩
  | rEarly2 k x =>
      rw [ht] at hs hpt
      obtain ⟨hmv, hk⟩ := hpt
      dsimp only at hs
      split_ifs at hs with hx <;> obtain rfl := Option.some.inj hs
      · exact ⟨log, lo, (h.goto (p := .idle) ht rfl trivial).record (Or.inr ⟨hk, rfl, rfl, hmv⟩)⟩
      · exact ⟨log, lo, h.goto ht rfl hmv⟩
  | rLock k =>
      rw [ht] at hs hpt
      dsimp only at hs
      cases hlock : s.rlock with
      | some u => simp [hlock] at hs
      | none =>
          rw [hlock] at hs
          obtain rfl := Option.some.inj hs
          have hlo := h.lo_eq hlock
          refine ⟨log, lo, ?_⟩
          split_ifs with hk
          · exact h.lockR hlock rfl (by rw [ht]; rfl) (by rw [ht]; rfl) ⟨hpt, hlo⟩
          · exact h.lockR hlock rfl (by rw [ht]; rfl) (by rw [ht]; rfl) ⟨hpt, hlo, hk⟩
  | rEmpty1 k =>
      rw [ht] at hs hpt
      obtain rfl := Option.some.inj hs
      exact ⟨log, lo, h.goto ht rfl hpt⟩
  | rEmpty2 k x =>
      rw [ht] at hs hpt
      obtain ⟨hmv, hlo, hk⟩ := hpt
      dsimp only at hs
      split_ifs at hs with hx <;> obtain rfl := Option.some.inj hs
      · exact ⟨log, lo, h.goto ht rfl ⟨hlo, Or.inr ⟨hk, rfl, rfl, hmv⟩⟩⟩
      · exact ⟨log, lo, h.goto ht rfl ⟨hmv, hlo⟩⟩
  | rWait1 k =>
      rw [ht] at hs hpt
      obtain ⟨hmv, hlo⟩ := hpt
      obtain rfl := Option.some.inj hs
      exact ⟨log, lo, h.goto ht rfl ⟨hmv, hlo, rfl⟩⟩
  | rWait2 k x =>
      rw [ht] at hs hpt
      obtain ⟨hmv, hlo, rfl⟩ := hpt
      dsimp only at hs
      split_ifs at hs with hx <;> obtain rfl := Option.some.inj hs
      · exact ⟨log, lo, h.goto ht rfl ⟨hmv, hlo⟩⟩
      · -- the residues differ, so the counters do
        have hne : s.returned.length ≠ s.written.length := fun heq => hx (by rw [heq])
        exact ⟨log, lo, h.goto ht rfl ⟨hmv, hlo, by omega⟩⟩
  | rIndex k =>
      rw [ht] at hs hpt
      obtain ⟨hmv, hlo, hlt⟩ := hpt
      obtain rfl := Option.some.inj hs
      exact ⟨log, lo, h.goto ht rfl ⟨hmv, hlo, hlt, rfl⟩⟩
  | rSlot k e =>
      rw [ht] at hs
      obtain rfl := Option.some.inj hs
      exact ⟨_, _, h.loadSlot ht⟩
  | rNext k v =>
      rw [ht] at hs hpt
      obtain ⟨hmv, hlo, hnext⟩ := hpt
      obtain rfl := Option.some.inj hs
      exact ⟨log, lo, h.goto ht rfl ⟨hmv, hlo, hnext, rfl⟩⟩
  | rStart k v e =>
      rw [ht] at hs
      obtain rfl := Option.some.inj hs
      exact ⟨_, _, h.storeStart ht⟩
  | rUnlock k ret value =>
      rw [ht] at hs hpt
      obtain rfl := Option.some.inj hs
      exact ⟨log, lo, (h.unlockR ht).record (d := .read t k ret value (s.moved t)) hpt.2⟩

/-- Every step keeps the invariant. -/
lemma step (h : LinInv size s log lo) {a : LinAction τ α} (hs : s.step a = some s') :
    ∃ log' lo', LinInv size s' log' lo' := by
  cases a with
  | move t => exact h.move hs
  | callWrite t c =>
      simp only [LinState.step] at hs
      cases ht : s.point t with
      | idle =>
          rw [ht] at hs
          obtain rfl := Option.some.inj hs
          refine ⟨log, lo, ?_⟩
          split_ifs with hk
          · exact h.call ht rfl rfl rfl
          · exact h.call ht rfl rfl ⟨rfl, hk⟩
      | _ => simp [ht] at hs
  | callRead t k =>
      simp only [LinState.step] at hs
      cases ht : s.point t with
      | idle =>
          rw [ht] at hs
          obtain rfl := Option.some.inj hs
          refine ⟨log, lo, ?_⟩
          split_ifs with hk
          · exact h.call ht rfl rfl rfl
          · exact h.call ht rfl rfl ⟨rfl, hk⟩
      | _ => simp [ht] at hs

/-- A fresh ring, all threads idle. -/
lemma start {null : α} {n : UInt64} {mode : ℤ} {callocOk : Bool} {rb : ZxRingbuffer α}
    (hinit : ZxRingbuffer.init null n.toNat mode callocOk = .ok rb) :
    LinInv rb.size (LinState.start rb : LinState τ α) [] 0 := by
  obtain ⟨hwf, -, -⟩ := ZxRingbuffer.init_ok hinit n.toNat_lt
  obtain ⟨hst, hen⟩ := ZxRingbuffer.init_indices hinit
  have h1 := hwf.one_lt
  exact {
    size_eq := rfl
    one_lt := h1
    size_lt := hwf.size_lt
    start_eq := hst.trans (Nat.zero_mod _).symm
    end_eq := hen.trans (Nat.zero_mod _).symm
    mem := SharedRing.start_memInv rb
    returned_prefix := List.nil_prefix
    written_prefix := List.nil_prefix
    log_lt := by change 0 < 0 + rb.size; omega
    returned_le := le_rfl
    lo_le := le_rfl
    log_free := fun _ => rfl
    lo_free := fun _ => rfl
    wlock_iff := fun _ => by simp [LinState.start, Point.inWrite]
    rlock_iff := fun _ => by simp [LinState.start, Point.inRead]
    points := fun _ => trivial
    done := fun d hd => by simp [LinState.start] at hd }

/-- The invariant of every run. -/
lemma of_run {null : α} {n : UInt64} {mode : ℤ} {callocOk : Bool} {rb : ZxRingbuffer α}
    (hinit : ZxRingbuffer.init null n.toNat mode callocOk = .ok rb) {as : List (LinAction τ α)}
    (hrun : Run LinState.step (fun _ _ => True) (LinState.start rb) as s) :
    ∃ log lo, LinInv (n.toNat + 1) s log lo := by
  obtain ⟨-, hsize, -⟩ := ZxRingbuffer.init_ok hinit n.toNat_lt
  rw [← hsize]
  exact hrun.invariant (I := fun _ s => ∃ log lo, LinInv rb.size s log lo)
    ⟨[], 0, LinInv.start hinit⟩ fun _ _ _ _ ⟨_, _, h⟩ _ hs => h.step hs

/-- What it says of the values and of the calls. -/
lemma fifo {n : ℕ} (h : LinInv (n + 1) s log lo) :
    s.returned <+: s.written ∧ s.written.length ≤ s.returned.length + n ∧
      s.mem.clobbered = false ∧ s.mem.stale = false ∧ ∀ d ∈ s.done, d.Sound := by
  have hheld : s.written.length ≤ s.returned.length + n := by
    have h1 := h.written_prefix.length_le
    have h2 := h.log_lt
    omega
  exact ⟨h.returned_prefix, hheld, h.mem.clobbered, h.mem.stale, h.done⟩

end LinInv

/-- **The single-element operations are a linearizable bounded FIFO**: for any
threads, any calls and any interleaving, the values returned, in the order of
the stores to `start`, are a prefix of the values written, in the order of the
stores to `end`; at most `n` are held, no unread slot is overwritten and no
other slot is read; a call that has returned moved its one value while it ran,
and one that returned 0 moved nothing. -/
theorem single_ops_linearize [DecidableEq τ] {null : α} {n : UInt64} {mode : ℤ} {callocOk : Bool}
    {rb : ZxRingbuffer α} (hinit : ZxRingbuffer.init null n.toNat mode callocOk = .ok rb)
    {as : List (LinAction τ α)} {s : LinState τ α}
    (hrun : Run LinState.step (fun _ _ => True) (LinState.start rb) as s) :
    s.returned <+: s.written ∧ s.written.length ≤ s.returned.length + n.toNat ∧
      s.mem.clobbered = false ∧ s.mem.stale = false ∧ ∀ d ∈ s.done, d.Sound := by
  obtain ⟨log, lo, h⟩ := LinInv.of_run hinit hrun
  exact h.fifo

/-- Two writes and a read, one after the other, by three threads. -/
def threeCalls : List (LinAction ℕ ℕ) :=
  List.flatten
    [[.callWrite 0 ⟨.trySwrite, 5⟩], List.replicate 12 (.move 0),
      [.callWrite 1 ⟨.trySwrite, 6⟩], List.replicate 2 (.move 1),
      [.callRead 2 .sread], List.replicate 8 (.move 2)]

/-- On a ring of one a second `try_swrite` finds no room and returns 0. -/
theorem single_ops_of_three_linearize :
    ∃ s : LinState ℕ ℕ, s.returned = [5] ∧ s.written = [5] ∧ s.done.length = 3 ∧
      s.mem.clobbered = false ∧ ∀ d ∈ s.done, d.Sound := by
  have hinit : ZxRingbuffer.init 0 (1 : UInt64).toNat 1 true = .ok ⟨0, 2, 1, fun _ => 0, 0⟩ := rfl
  have hrun : (exec LinState.step (LinState.start ⟨0, 2, 1, fun _ => 0, 0⟩) threeCalls).map
      (fun s => (s.returned, s.written, s.done.length)) = some ([5], [5], 3) := by
    decide +kernel
  obtain ⟨s, hs, heq⟩ := Option.map_eq_some_iff.mp hrun
  simp only [Prod.mk.injEq] at heq
  obtain ⟨-, -, h1, -, h2⟩ := single_ops_linearize hinit (run_of_exec hs)
  exact ⟨s, heq.1, heq.2.1, heq.2.2, h1, h2⟩

end CLibrary
