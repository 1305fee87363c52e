import CLibrary.Library.Circular
import CLibrary.Library.Unsigned

/-!
`ring_buffer.c`: the ring and its single-threaded operations.

* `ZxRingbuffer`, `ZxRingbuffer.init`: the structure and its constructor.
* `isEmpty`, `isFull`, `nbFull`, `nbEmpty`: the tests and the counts.
* `write`, `tryWrite`, `read`, `tryRead`: the single-element operations.  A
  wait loop that is not left is an operation that is not enabled, `none`.
* `BulkCall`, `writeBulkPass`, `readBulkPass`: one pass of the `do … while` of
  a bulk operation; the passes of one call are strung together in `Fifo`.

`size_t` is 64 bits wide.  The ring is well formed (`WF`) when both indices are
below `size`; it then holds `fill` values, and `nbFull`, `nbEmpty`, `isFull`
and `isEmpty` all say so (`WF.nbFull_eq` to `WF.isEmpty_iff`).
-/

namespace CLibrary

/-- `struct zx_ringbuffer` without its locks; `endIdx` is the field `end`. -/
structure ZxRingbuffer (α : Type*) where
  start : ℕ
  size : ℕ
  mode : ℤ
  elements : ℕ → α
  endIdx : ℕ

namespace ZxRingbuffer

variable {α : Type*}

/-- `zx_RINGBUFFER_BLOCKING`. -/
def blocking : ℤ := 0

/-- `zx_RINGBUFFER_POLLING`. -/
def polling : ℤ := 1

/-- `zx_ringbuffer_init`: `callocOk` is the outcome of the one allocation, whose
slots start out as `null`; the error values are the return codes. -/
def init (null : α) (size : ℕ) (mode : ℤ) (callocOk : Bool) : Except ℤ (ZxRingbuffer α) :=
  let size := uadd 64 size 1
  if ¬ size > 1 then .error (-1)
  else if ¬ callocOk then .error (-2)
  else .ok { start := 0, size := size, mode := mode, elements := fun _ => null, endIdx := 0 }

/-- `zx_ringbuffer_is_empty`. -/
def isEmpty (rb : ZxRingbuffer α) : Bool := rb.start == rb.endIdx

/-- `zx_ringbuffer_is_full`. -/
def isFull (rb : ZxRingbuffer α) : Bool := rb.start == uadd 64 rb.endIdx 1 % rb.size

/-- `zx_ringbuffer_nb_full`. -/
def nbFull (rb : ZxRingbuffer α) : ℕ :=
  if rb.endIdx < rb.start then usub 64 (uadd 64 rb.endIdx rb.size) rb.start
  else usub 64 rb.endIdx rb.start

/-- `zx_ringbuffer_nb_empty`. -/
def nbEmpty (rb : ZxRingbuffer α) : ℕ :=
  if rb.start ≤ rb.endIdx then usub 64 (usub 64 (uadd 64 rb.start rb.size) rb.endIdx) 1
  else usub 64 (usub 64 rb.start rb.endIdx) 1

/-- The two stores of `zx_ringbuffer_write`. -/
def push (rb : ZxRingbuffer α) (value : α) : ZxRingbuffer α :=
  { rb with
    elements := Function.update rb.elements rb.endIdx value
    endIdx := uadd 64 rb.endIdx 1 % rb.size }

/-- `zx_ringbuffer_write`; `wait_for_empty` is left only when the ring is not
full. -/
def write (rb : ZxRingbuffer α) (value : α) : Option (ZxRingbuffer α) :=
  if rb.isFull then none else some (rb.push value)

/-- `zx_ringbuffer_try_write`. -/
def tryWrite (rb : ZxRingbuffer α) (value : α) : Option (ℕ × ZxRingbuffer α) :=
  if rb.isFull then some (0, rb)
  else (rb.write value).map fun rb => (1, rb)

/-- The store to `start` of `zx_ringbuffer_read`. -/
def pop (rb : ZxRingbuffer α) : ZxRingbuffer α :=
  { rb with start := uadd 64 rb.start 1 % rb.size }

/-- `zx_ringbuffer_read`; `wait_for_full` is left only when the ring is not
empty. -/
def read (rb : ZxRingbuffer α) : Option (α × ZxRingbuffer α) :=
  if rb.isEmpty then none else some (rb.elements rb.start, rb.pop)

/-- `zx_ringbuffer_try_read`: the result, what `*value` was set to, the ring. -/
def tryRead (rb : ZxRingbuffer α) : Option (ℕ × Option α × ZxRingbuffer α) :=
  if rb.isEmpty then some (0, none, rb)
  else rb.read.map fun r => (1, some r.1, r.2)

/-- The arguments and the progress `i` of a bulk call that is in its loop. -/
structure BulkCall (α : Type*) where
  values : ℕ → α
  nbBuffers : ℕ
  minNbBuffers : ℕ
  i : ℕ

/-- What the bulk operations return when `min_nb_buffers > nb_buffers`: `~0U`. -/
def bulkError : ℕ := 2 ^ 32 - 1

/-- `zx_ringbuffer_write_bulk` up to its loop: the value it returns without
entering it, if it does not. -/
def writeBulkEarly (rb : ZxRingbuffer α) (nbBuffers minNbBuffers : ℕ) : Option ℕ :=
  if minNbBuffers > nbBuffers then some bulkError
  else if minNbBuffers = 0 ∧ rb.isFull then some 0
  else none

/-- `zx_ringbuffer_read_bulk` up to its loop. -/
def readBulkEarly (rb : ZxRingbuffer α) (nbBuffers minNbBuffers : ℕ) : Option ℕ :=
  if minNbBuffers > nbBuffers then some bulkError
  else if minNbBuffers = 0 ∧ rb.isEmpty then some 0
  else none

/-- The inner `for` of `zx_ringbuffer_write_bulk`, `k` rounds of it: the slots
and the register `end` after storing `values[i], …, values[i + k - 1]`. -/
def copyIn (size : ℕ) (values : ℕ → α) : ℕ → ℕ → (ℕ → α) → ℕ → (ℕ → α) × ℕ
  | 0, _, elements, e => (elements, e)
  | k + 1, i, elements, e =>
      copyIn size values k (i + 1) (Function.update elements e (values i)) (uadd 64 e 1 % size)

/-- The inner `for` of `zx_ringbuffer_read_bulk`, `k` rounds of it: the output
array and the register `start`. -/
def copyOut (size : ℕ) (elements : ℕ → α) : ℕ → ℕ → (ℕ → α) → ℕ → (ℕ → α) × ℕ
  | 0, _, values, s => (values, s)
  | k + 1, i, values, s =>
      copyOut size elements k (i + 1) (Function.update values i (elements s)) (uadd 64 s 1 % size)

/-- `nb_ready` as a pass computes it: `MIN(count, nb_buffers - i) + i`. -/
def nbReady (count : ℕ) (c : BulkCall α) : ℕ :=
  uadd 64 (min count (usub 64 c.nbBuffers c.i)) c.i

/-- One pass of the loop of `zx_ringbuffer_write_bulk`, once `wait_for_empty`
is left. -/
def writeBulkPass (rb : ZxRingbuffer α) (c : BulkCall α) :
    Option (ZxRingbuffer α × BulkCall α) :=
  if rb.isFull then none
  else
    let ready := nbReady rb.nbEmpty c
    let r := copyIn rb.size c.values (ready - c.i) c.i rb.elements rb.endIdx
    some ({ rb with elements := r.1, endIdx := r.2 }, { c with i := max c.i ready })

/-- One pass of the loop of `zx_ringbuffer_read_bulk`, once `wait_for_full` is
left. -/
def readBulkPass (rb : ZxRingbuffer α) (c : BulkCall α) :
    Option (ZxRingbuffer α × BulkCall α) :=
  if rb.isEmpty then none
  else
    let ready := nbReady rb.nbFull c
    let r := copyOut rb.size rb.elements (ready - c.i) c.i c.values rb.start
    some ({ rb with start := r.2 }, { c with values := r.1, i := max c.i ready })

/-! ### Well-formed rings -/

/-- The number of values between two indices of a ring of `size` slots. -/
def fillOf (size start endIdx : ℕ) : ℕ :=
  if endIdx < start then endIdx + size - start else endIdx - start

/-- The number of values held. -/
def fill (rb : ZxRingbuffer α) : ℕ := fillOf rb.size rb.start rb.endIdx

/-- The values held, oldest first. -/
def queue (rb : ZxRingbuffer α) : List α := window rb.elements rb.size rb.start rb.fill

/-- Both indices are below `size`, which fits a `size_t` and is at least 2. -/
structure WF (rb : ZxRingbuffer α) : Prop where
  one_lt : 1 < rb.size
  size_lt : rb.size < 2 ^ 64
  start_lt : rb.start < rb.size
  end_lt : rb.endIdx < rb.size

@[simp] lemma queue_length (rb : ZxRingbuffer α) : rb.queue.length = rb.fill := by
  simp [queue]

/-- Advancing an index stays below the size and never wraps the `size_t`. -/
lemma next_eq {size k : ℕ} (hsize : size < 2 ^ 64) (hk : k < size) :
    uadd 64 k 1 % size = (k + 1) % size := by
  rw [uadd_of_lt (by omega)]

/-- As many values as a pass may move: what is ready, and what the call still
wants. -/
lemma nbReady_eq {c : BulkCall α} (count : ℕ) (hi : c.i ≤ c.nbBuffers)
    (hnb : c.nbBuffers < 2 ^ 64) :
    nbReady count c = c.i + min (c.nbBuffers - c.i) count := by
  rw [nbReady, usub_of_le hi hnb, uadd_of_lt (by omega)]
  omega

/-- A ring `init` accepts is empty and well formed, with one slot more than
asked for. -/
lemma init_ok {null : α} {n : ℕ} {mode : ℤ} {callocOk : Bool} {rb : ZxRingbuffer α}
    (h : init null n mode callocOk = .ok rb) (hn : n < 2 ^ 64) :
    rb.WF ∧ rb.size = n + 1 ∧ rb.queue = [] := by
  simp only [init] at h
  split_ifs at h with h1 h2
  obtain rfl := Except.ok.inj h
  have hlt : n + 1 < 2 ^ 64 := by
    by_contra hge
    have : uadd 64 n 1 = 0 := by rw [uadd, show n + 1 = 2 ^ 64 by omega, Nat.mod_self]
    omega
  rw [uadd_of_lt hlt] at h1
  refine ⟨⟨?_, ?_, ?_, ?_⟩, uadd_of_lt hlt, by simp [queue, fill, fillOf]⟩ <;>
    simp only [uadd_of_lt hlt] <;> omega

/-- Both indices of a fresh ring are 0. -/
lemma init_indices {null : α} {n : ℕ} {mode : ℤ} {callocOk : Bool} {rb : ZxRingbuffer α}
    (h : init null n mode callocOk = .ok rb) : rb.start = 0 ∧ rb.endIdx = 0 := by
  simp only [init] at h
  split_ifs at h
  obtain rfl := Except.ok.inj h
  exact ⟨rfl, rfl⟩

lemma init_mode {null : α} {n : ℕ} {mode : ℤ} {callocOk : Bool} {rb : ZxRingbuffer α}
    (h : init null n mode callocOk = .ok rb) : rb.mode = mode := by
  simp only [init] at h
  split_ifs at h
  obtain rfl := Except.ok.inj h
  rfl

namespace WF

variable {rb : ZxRingbuffer α}

/-- One slot always stays free. -/
lemma fill_lt (h : rb.WF) : rb.fill < rb.size := by
  have h1 := h.start_lt
  have h2 := h.end_lt
  rw [fill, fillOf]
  split <;> omega

/-- The index `end` lies `fill` slots behind `start`. -/
lemma end_eq (h : rb.WF) : rb.endIdx = (rb.start + rb.fill) % rb.size := by
  have h1 := h.start_lt
  have h2 := h.end_lt
  rw [fill, fillOf]
  split
  · have hsum : rb.start + (rb.endIdx + rb.size - rb.start) = rb.endIdx + rb.size := by omega
    rw [hsum, Nat.add_mod_right, Nat.mod_eq_of_lt h2]
  · have hsum : rb.start + (rb.endIdx - rb.start) = rb.endIdx := by omega
    rw [hsum, Nat.mod_eq_of_lt h2]

lemma nbFull_eq (h : rb.WF) : rb.nbFull = rb.fill := by
  have h1 := h.start_lt
  have h2 := h.end_lt
  have h3 := h.size_lt
  rw [nbFull, fill, fillOf]
  split
  · exact usub_uadd (by omega) (by omega) (by omega)
  · exact usub_of_le (by omega) (by omega)

lemma nbEmpty_eq (h : rb.WF) : rb.nbEmpty = rb.size - 1 - rb.fill := by
  have h1 := h.start_lt
  have h2 := h.end_lt
  have h3 := h.size_lt
  rw [nbEmpty, fill, fillOf]
  by_cases hle : rb.start ≤ rb.endIdx
  · rw [if_pos hle, if_neg (by omega), usub_uadd (by omega) (by omega) (by omega),
      usub_of_le (by omega) (by omega)]
    omega
  · have hsub : usub 64 rb.start rb.endIdx = rb.start - rb.endIdx :=
      usub_of_le (by omega) (by omega)
    rw [if_neg hle, if_pos (by omega), hsub, usub_of_le (by omega) (by omega)]
    omega

lemma isEmpty_iff (h : rb.WF) : rb.isEmpty = true ↔ rb.fill = 0 := by
  have h1 := h.start_lt
  have h2 := h.end_lt
  rw [isEmpty, beq_iff_eq, fill, fillOf]
  split <;> omega

lemma isFull_iff (h : rb.WF) : rb.isFull = true ↔ rb.fill = rb.size - 1 := by
  have h1 := h.start_lt
  have h2 := h.end_lt
  rw [isFull, beq_iff_eq, next_eq h.size_lt h2, fill, fillOf]
  by_cases hlt : rb.endIdx + 1 < rb.size
  · rw [Nat.mod_eq_of_lt hlt]
    split <;> omega
  · rw [show rb.endIdx + 1 = rb.size by omega, Nat.mod_self]
    split <;> omega

/-! ### One value in, one value out -/

/-- Storing a value in a ring that is not full appends it. -/
lemma push (h : rb.WF) (v : α) (hf : rb.fill + 1 < rb.size) :
    (rb.push v).WF ∧ (rb.push v).fill = rb.fill + 1 ∧ (rb.push v).queue = rb.queue ++ [v] := by
  have h1 := h.start_lt
  have h2 := h.end_lt
  have hnext : (rb.push v).endIdx = (rb.endIdx + 1) % rb.size := next_eq h.size_lt h2
  have hfill : (rb.push v).fill = rb.fill + 1 := by
    rw [fill, hnext]
    simp only [fill, fillOf] at hf ⊢
    change (if _ < rb.start then _ + rb.size - rb.start else _ - rb.start) = _
    by_cases hlt : rb.endIdx + 1 < rb.size
    · rw [Nat.mod_eq_of_lt hlt]
      split_ifs at hf ⊢ <;> omega
    · rw [show rb.endIdx + 1 = rb.size by omega, Nat.mod_self]
      split_ifs at hf ⊢ <;> omega
  refine ⟨⟨h.one_lt, h.size_lt, h1, ?_⟩, hfill, ?_⟩
  · rw [hnext]
    exact Nat.mod_lt _ (by omega)
  · rw [queue, hfill]
    change window (Function.update rb.elements rb.endIdx v) rb.size rb.start (rb.fill + 1) = _
    rw [h.end_eq]
    exact window_push _ _ h.fill_lt

/-- Advancing `start` past a value takes the head of the queue. -/
lemma pop (h : rb.WF) (hf : rb.fill ≠ 0) :
    rb.pop.WF ∧ rb.pop.fill + 1 = rb.fill ∧ rb.queue = rb.elements rb.start :: rb.pop.queue := by
  have h1 := h.start_lt
  have h2 := h.end_lt
  have hnext : rb.pop.start = (rb.start + 1) % rb.size := next_eq h.size_lt h1
  have hfill : rb.pop.fill + 1 = rb.fill := by
    rw [fill, hnext]
    simp only [fill, fillOf] at hf ⊢
    change (if rb.endIdx < _ then rb.endIdx + rb.size - _ else rb.endIdx - _) + 1 = _
    by_cases hlt : rb.start + 1 < rb.size
    · rw [Nat.mod_eq_of_lt hlt]
      split_ifs at hf ⊢ <;> omega
    · rw [show rb.start + 1 = rb.size by omega, Nat.mod_self]
      split_ifs at hf ⊢ <;> omega
  refine ⟨⟨h.one_lt, h.size_lt, ?_, h2⟩, hfill, ?_⟩
  · rw [hnext]
    exact Nat.mod_lt _ (by omega)
  · rw [queue, ← hfill, window_pop, Nat.mod_eq_of_lt h1, ← hnext]
    rfl

/-! ### The copy loops of the bulk operations -/

/-- `k` rounds of the copying loop append `values[i], …, values[i + k - 1]`. -/
lemma copyIn (values : ℕ → α) (k i : ℕ) (h : rb.WF) (hk : rb.fill + k < rb.size) :
    let r := copyIn rb.size values k i rb.elements rb.endIdx
    let rb' : ZxRingbuffer α := { rb with elements := r.1, endIdx := r.2 }
    rb'.WF ∧ rb'.queue = rb.queue ++ (List.range k).map fun j => values (i + j) := by
  induction k generalizing rb i with
  | zero => exact ⟨h, by simp [ZxRingbuffer.copyIn]⟩
  | succ k ih =>
      obtain ⟨hwf, hfill, hq⟩ := h.push (values i) (by omega)
      obtain ⟨hwf', hq'⟩ := ih (i + 1) hwf (by rw [hfill]; change _ < rb.size; omega)
      refine ⟨hwf', hq'.trans ?_⟩
      rw [hq, List.range_succ_eq_map]
      simp only [List.map_cons, List.map_map, List.append_assoc, List.singleton_append,
        Nat.add_zero]
      congr 2
      refine List.map_congr_left fun j _ => ?_
      rw [Function.comp_apply, Nat.succ_eq_add_one, Nat.add_right_comm, Nat.add_assoc]

/-- `k` rounds of the reading loop take the first `k` values of the queue, in
order, into `values[i], …, values[i + k - 1]`. -/
lemma copyOut (values : ℕ → α) (k i : ℕ) (h : rb.WF) (hk : k ≤ rb.fill) :
    let r := copyOut rb.size rb.elements k i values rb.start
    let rb' : ZxRingbuffer α := { rb with start := r.2 }
    rb'.WF ∧ rb.queue = ((List.range k).map fun j => r.1 (i + j)) ++ rb'.queue ∧
      ∀ j, j < i ∨ i + k ≤ j → r.1 j = values j := by
  induction k generalizing rb i values with
  | zero => exact ⟨h, by simp [ZxRingbuffer.copyOut], fun j _ => rfl⟩
  | succ k ih =>
      obtain ⟨hwf, hfill, hq⟩ := h.pop (by omega)
      obtain ⟨hwf', hq', hout⟩ :=
        ih (Function.update values i (rb.elements rb.start)) (i + 1) hwf (by omega)
      refine ⟨hwf', ?_, fun j hj => ?_⟩
      · have hi := hout i (Or.inl (Nat.lt_succ_self i))
        rw [Function.update_self] at hi
        rw [hq, hq', List.range_succ_eq_map]
        simp only [List.map_cons, List.map_map, List.cons_append, Nat.add_zero]
        refine congrArg₂ _ hi.symm (congrArg₂ _ (List.map_congr_left fun j _ => ?_) rfl)
        rw [Function.comp_apply, Nat.succ_eq_add_one, ← Nat.add_assoc, Nat.add_right_comm]
        rfl
      · have hj' := hout j (by omega)
        rw [Function.update_of_ne (by omega)] at hj'
        exact hj'

end WF

end ZxRingbuffer

end CLibrary
