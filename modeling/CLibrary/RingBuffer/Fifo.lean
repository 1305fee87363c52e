import CLibrary.Library.Runs
import CLibrary.RingBuffer.Basic

/-!
The ring buffer as a bounded first-in first-out queue.

`RingSystem` is a ring with one writing and one reading side, each of which is
idle or between two passes of a bulk call.  `Fifo` is the same system over a
list of at most `cap` values; its `FifoBulk` calls also keep, for the reader of
the specification only, what they `moved` and the array they began with.

* `Refines`: the ring denotes the queue, the two sides stand at the same point
  of the same calls and have returned the same results.
* `step_refines`: one operation, or one pass of a bulk call, keeps `Refines`,
  and is enabled on the ring exactly when it is on the queue.
* `Fifo.Inv`: a bulk call has moved exactly the first `i` entries of its array,
  and a returned one between `min` and `nb` of them.
* `ring_refines_fifo`: the refinement over whole runs.
-/

namespace CLibrary

open ZxRingbuffer (BulkCall bulkError)

variable {α : Type*}

/-- A call of the writing or the reading side, or the next pass of the bulk
call it is in. -/
inductive RingOp (α : Type*) where
  | write (value : α)
  | tryWrite (value : α)
  | writeBulk (values : ℕ → α) (nbBuffers minNbBuffers : UInt64)
  | writePass
  | read
  | tryRead
  | readBulk (values : ℕ → α) (nbBuffers minNbBuffers : UInt64)
  | readPass

/-- What a call returned; a reading call with what it stored for the caller. -/
inductive Returned (α : Type*) where
  | write
  | tryWrite (ret : ℕ)
  | writeBulk (nbBuffers minNbBuffers ret : ℕ)
  | read (value : α)
  | tryRead (ret : ℕ) (value : Option α)
  | readBulk (nbBuffers minNbBuffers ret : ℕ) (values : ℕ → α)

/-! ### The ring with its two sides -/

/-- A ring, the bulk call each side is in, and the results so far. -/
structure RingSystem (α : Type*) where
  rb : ZxRingbuffer α
  writer : Option (BulkCall α)
  reader : Option (BulkCall α)
  returns : List (Returned α)

namespace RingSystem

/-- The system just after `zx_ringbuffer_init`. -/
def start (rb : ZxRingbuffer α) : RingSystem α := ⟨rb, none, none, []⟩

/-- One call, or one pass.  A side is either idle, and may call, or in a bulk
call, and may make the next pass; a call that has to wait is not enabled. -/
def step (s : RingSystem α) : RingOp α → Option (RingSystem α)
  | .write v =>
      if s.writer.isSome then none
      else (s.rb.write v).map fun rb => { s with rb := rb, returns := s.returns ++ [.write] }
  | .tryWrite v =>
      if s.writer.isSome then none
      else (s.rb.tryWrite v).map fun r =>
        { s with rb := r.2, returns := s.returns ++ [.tryWrite r.1] }
  | .writeBulk values nb mn =>
      if s.writer.isSome then none
      else match s.rb.writeBulkEarly nb.toNat mn.toNat with
        | some r => some { s with returns := s.returns ++ [.writeBulk nb.toNat mn.toNat r] }
        | none => some { s with writer := some ⟨values, nb.toNat, mn.toNat, 0⟩ }
  | .writePass =>
      match s.writer with
      | none => none
      | some c => (s.rb.writeBulkPass c).map fun r =>
          if r.2.i < r.2.minNbBuffers then { s with rb := r.1, writer := some r.2 }
          else { s with
            rb := r.1
            writer := none
            returns := s.returns ++ [.writeBulk r.2.nbBuffers r.2.minNbBuffers r.2.i] }
  | .read =>
      if s.reader.isSome then none
      else s.rb.read.map fun r => { s with rb := r.2, returns := s.returns ++ [.read r.1] }
  | .tryRead =>
      if s.reader.isSome then none
      else s.rb.tryRead.map fun r =>
        { s with rb := r.2.2, returns := s.returns ++ [.tryRead r.1 r.2.1] }
  | .readBulk values nb mn =>
      if s.reader.isSome then none
      else match s.rb.readBulkEarly nb.toNat mn.toNat with
        | some r => some { s with returns := s.returns ++ [.readBulk nb.toNat mn.toNat r values] }
        | none => some { s with reader := some ⟨values, nb.toNat, mn.toNat, 0⟩ }
  | .readPass =>
      match s.reader with
      | none => none
      | some c => (s.rb.readBulkPass c).map fun r =>
          if r.2.i < r.2.minNbBuffers then { s with rb := r.1, reader := some r.2 }
          else { s with
            rb := r.1
            reader := none
            returns := s.returns ++
              [.readBulk r.2.nbBuffers r.2.minNbBuffers r.2.i r.2.values] }

end RingSystem

/-! ### The bounded queue -/

/-- A bulk call on the queue: where it stands, the array it was called with,
and the values it has moved. -/
structure FifoBulk (α : Type*) where
  call : BulkCall α
  given : ℕ → α
  moved : List α

/-- A bounded queue, the bulk call each side is in, the results so far, and the
bulk calls that have returned, each with its result. -/
structure Fifo (α : Type*) where
  cap : ℕ
  queue : List α
  writer : Option (FifoBulk α)
  reader : Option (FifoBulk α)
  returns : List (Returned α)
  bulkReturns : List (ℕ × FifoBulk α)

namespace Fifo

/-- The empty queue of capacity `cap`. -/
def empty (cap : ℕ) : Fifo α := ⟨cap, [], none, none, [], []⟩

/-- A bulk call enters its loop with nothing moved. -/
def enter (values : ℕ → α) (nb mn : ℕ) : FifoBulk α := ⟨⟨values, nb, mn, 0⟩, values, []⟩

/-- The writing side appends a chunk of its array. -/
def writeMore (b : FifoBulk α) (k : ℕ) : FifoBulk α :=
  { b with
    call := { b.call with i := b.call.i + k }
    moved := b.moved ++ (List.range k).map fun j => b.call.values (b.call.i + j) }

/-- The reading side fills the next entries of its array with a chunk. -/
def readMore (b : FifoBulk α) (chunk : List α) : FifoBulk α :=
  { b with
    call := { b.call with
      values := fun j =>
        if j < b.call.i then b.call.values j else (chunk[j - b.call.i]?).getD (b.call.values j)
      i := b.call.i + chunk.length }
    moved := b.moved ++ chunk }

/-- The specification: `write` appends, `read` takes the head, the `try`
operations return 0 and change nothing when the queue is full or empty, a pass
of a bulk call moves as much as both sides allow, and the call returns once it
has moved `min`. -/
def step (f : Fifo α) : RingOp α → Option (Fifo α)
  | .write v =>
      if f.writer.isSome ∨ f.queue.length = f.cap then none
      else some { f with queue := f.queue ++ [v], returns := f.returns ++ [.write] }
  | .tryWrite v =>
      if f.writer.isSome then none
      else if f.queue.length = f.cap then some { f with returns := f.returns ++ [.tryWrite 0] }
      else some { f with queue := f.queue ++ [v], returns := f.returns ++ [.tryWrite 1] }
  | .writeBulk values nb mn =>
      if f.writer.isSome then none
      else if mn.toNat > nb.toNat then
        some { f with
          returns := f.returns ++ [.writeBulk nb.toNat mn.toNat bulkError]
          bulkReturns := f.bulkReturns ++ [(bulkError, enter values nb.toNat mn.toNat)] }
      else if mn.toNat = 0 ∧ f.queue.length = f.cap then
        some { f with
          returns := f.returns ++ [.writeBulk nb.toNat mn.toNat 0]
          bulkReturns := f.bulkReturns ++ [(0, enter values nb.toNat mn.toNat)] }
      else some { f with writer := some (enter values nb.toNat mn.toNat) }
  | .writePass =>
      match f.writer with
      | none => none
      | some b =>
          if f.queue.length = f.cap then none
          else
            let k := min (b.call.nbBuffers - b.call.i) (f.cap - f.queue.length)
            let b' := writeMore b k
            let queue := f.queue ++ (List.range k).map fun j => b.call.values (b.call.i + j)
            if b'.call.i < b'.call.minNbBuffers then
              some { f with queue := queue, writer := some b' }
            else
              some { f with
                queue := queue
                writer := none
                returns := f.returns ++
                  [.writeBulk b'.call.nbBuffers b'.call.minNbBuffers b'.call.i]
                bulkReturns := f.bulkReturns ++ [(b'.call.i, b')] }
  | .read =>
      if f.reader.isSome then none
      else match f.queue with
        | [] => none
        | v :: queue => some { f with queue := queue, returns := f.returns ++ [.read v] }
  | .tryRead =>
      if f.reader.isSome then none
      else match f.queue with
        | [] => some { f with returns := f.returns ++ [.tryRead 0 none] }
        | v :: queue =>
            some { f with queue := queue, returns := f.returns ++ [.tryRead 1 (some v)] }
  | .readBulk values nb mn =>
      if f.reader.isSome then none
      else if mn.toNat > nb.toNat then
        some { f with
          returns := f.returns ++ [.readBulk nb.toNat mn.toNat bulkError values]
          bulkReturns := f.bulkReturns ++ [(bulkError, enter values nb.toNat mn.toNat)] }
      else if mn.toNat = 0 ∧ f.queue = [] then
        some { f with
          returns := f.returns ++ [.readBulk nb.toNat mn.toNat 0 values]
          bulkReturns := f.bulkReturns ++ [(0, enter values nb.toNat mn.toNat)] }
      else some { f with reader := some (enter values nb.toNat mn.toNat) }
  | .readPass =>
      match f.reader with
      | none => none
      | some b =>
          if f.queue = [] then none
          else
            let k := min (b.call.nbBuffers - b.call.i) f.queue.length
            let b' := readMore b (f.queue.take k)
            if b'.call.i < b'.call.minNbBuffers then
              some { f with queue := f.queue.drop k, reader := some b' }
            else
              some { f with
                queue := f.queue.drop k
                reader := none
                returns := f.returns ++
                  [.readBulk b'.call.nbBuffers b'.call.minNbBuffers b'.call.i b'.call.values]
                bulkReturns := f.bulkReturns ++ [(b'.call.i, b')] }

/-- A bulk call on its way: it has moved exactly the first `i` entries of its
array and left the rest as they were. -/
structure Progress (b : FifoBulk α) : Prop where
  i_le : b.call.i ≤ b.call.nbBuffers
  min_le : b.call.minNbBuffers ≤ b.call.nbBuffers
  nb_lt : b.call.nbBuffers < 2 ^ 64
  moved_eq : b.moved = (List.range b.call.i).map b.call.values
  rest_eq : ∀ j, b.call.i ≤ j → b.call.values j = b.given j

/-- What a bulk call that returned `ret` has done: between `min` and `nb`
values were moved, exactly the first `ret` of its array; a call whose `min`
exceeds its `nb` did nothing. -/
def Delivered (ret : ℕ) (b : FifoBulk α) : Prop :=
  if b.call.minNbBuffers ≤ b.call.nbBuffers then
    b.call.minNbBuffers ≤ ret ∧ ret ≤ b.call.nbBuffers ∧
      b.moved = (List.range ret).map b.call.values ∧ ∀ j, ret ≤ j → b.call.values j = b.given j
  else ret = bulkError ∧ b.moved = [] ∧ b.call.values = b.given

/-- The queue never exceeds its capacity, the bulk calls under way are on
their way, and those that returned have delivered. -/
structure Inv (cap : ℕ) (f : Fifo α) : Prop where
  cap_eq : f.cap = cap
  length_le : f.queue.length ≤ f.cap
  writer : ∀ b ∈ f.writer, Progress b
  reader : ∀ b ∈ f.reader, Progress b
  returned : ∀ r ∈ f.bulkReturns, Delivered r.1 r.2

/-! ### One step on the queue -/

lemma progress_enter (values : ℕ → α) {nb mn : UInt64} (h : mn.toNat ≤ nb.toNat) :
    Progress (enter values nb.toNat mn.toNat) :=
  ⟨Nat.zero_le _, h, nb.toNat_lt, rfl, fun _ _ => rfl⟩

lemma Progress.writeMore {b : FifoBulk α} (h : Progress b) {k : ℕ}
    (hk : k ≤ b.call.nbBuffers - b.call.i) : Progress (writeMore b k) := by
  have hi := h.i_le
  refine ⟨?_, h.min_le, h.nb_lt, ?_, fun j hj => h.rest_eq j ?_⟩
  · change b.call.i + k ≤ b.call.nbBuffers
    omega
  · change b.moved ++ _ = (List.range (b.call.i + k)).map b.call.values
    rw [h.moved_eq, List.range_add, List.map_append, List.map_map]
    rfl
  · change b.call.i + k ≤ j at hj
    omega

lemma Progress.readMore {b : FifoBulk α} (h : Progress b) {chunk : List α}
    (hk : chunk.length ≤ b.call.nbBuffers - b.call.i) : Progress (readMore b chunk) := by
  have hi := h.i_le
  refine ⟨?_, h.min_le, h.nb_lt, ?_, fun j hj => ?_⟩
  · change b.call.i + chunk.length ≤ b.call.nbBuffers
    omega
  · refine List.ext_getElem (by simp [Fifo.readMore, h.moved_eq]) fun j h1 h2 => ?_
    simp only [Fifo.readMore, List.getElem_map, List.getElem_range]
    by_cases hj : j < b.call.i
    · simp [h.moved_eq, hj]
    · have hlen : b.moved.length = b.call.i := by simp [h.moved_eq]
      have hlt : j - b.call.i < chunk.length := by
        simp only [List.length_map, List.length_range, Fifo.readMore] at h2
        omega
      rw [List.getElem_append_right (by omega)]
      simp [hj, hlen, hlt]
  · change b.call.i + chunk.length ≤ j at hj
    simp only [Fifo.readMore]
    rw [if_neg (by omega), List.getElem?_eq_none (by omega), Option.getD_none]
    exact h.rest_eq j (by omega)

/-- A call that leaves its loop has delivered. -/
lemma Progress.delivered {b : FifoBulk α} (h : Progress b)
    (hmin : ¬ b.call.i < b.call.minNbBuffers) : Delivered b.call.i b := by
  rw [Delivered, if_pos h.min_le]
  exact ⟨by omega, h.i_le, h.moved_eq, h.rest_eq⟩

/-- A call with nothing to do delivers nothing. -/
lemma delivered_none (values : ℕ → α) {nb mn : UInt64} (h : mn.toNat = 0) :
    Delivered 0 (enter values nb.toNat mn.toNat) := by
  rw [Delivered, if_pos (by simp [enter, h])]
  exact ⟨by simp [enter, h], Nat.zero_le _, rfl, fun _ _ => rfl⟩

/-- A call refused for its arguments delivers nothing. -/
lemma delivered_error (values : ℕ → α) {nb mn : UInt64} (h : mn.toNat > nb.toNat) :
    Delivered bulkError (enter values nb.toNat mn.toNat) := by
  rw [Delivered, if_neg (by simp only [enter]; omega)]
  exact ⟨rfl, rfl, rfl⟩

/-- One more delivered call. -/
lemma returned_snoc {cap : ℕ} {f : Fifo α} (h : f.Inv cap) {ret : ℕ} {b : FifoBulk α}
    (hb : Delivered ret b) :
    ∀ r ∈ f.bulkReturns ++ [(ret, b)], Delivered r.1 r.2 := by
  intro r hr
  rcases List.mem_append.mp hr with hr | hr
  · exact h.returned r hr
  · obtain rfl := List.mem_singleton.mp hr
    exact hb

/-- **Every step keeps the queue in order.** -/
lemma Inv.step {cap : ℕ} {f f' : Fifo α} {op : RingOp α} (h : f.Inv cap)
    (hs : f.step op = some f') : f'.Inv cap := by
  have hlen := h.length_le
  cases op with
  | write v =>
      simp only [Fifo.step] at hs
      split_ifs at hs with h1
      obtain rfl := Option.some.inj hs
      refine ⟨h.cap_eq, ?_, h.writer, h.reader, h.returned⟩
      simp only [List.length_append, List.length_singleton]
      omega
  | tryWrite v =>
      simp only [Fifo.step] at hs
      split_ifs at hs with h1 h2
      · obtain rfl := Option.some.inj hs
        exact ⟨h.cap_eq, hlen, h.writer, h.reader, h.returned⟩
      · obtain rfl := Option.some.inj hs
        refine ⟨h.cap_eq, ?_, h.writer, h.reader, h.returned⟩
        simp only [List.length_append, List.length_singleton]
        omega
  | writeBulk values nb mn =>
      simp only [Fifo.step] at hs
      split_ifs at hs with h1 h2 h3 <;> obtain rfl := Option.some.inj hs
      · exact ⟨h.cap_eq, hlen, h.writer, h.reader, returned_snoc h (delivered_error values h2)⟩
      · exact ⟨h.cap_eq, hlen, h.writer, h.reader, returned_snoc h (delivered_none values h3.1)⟩
      · refine ⟨h.cap_eq, hlen, fun b hb => ?_, h.reader, h.returned⟩
        obtain rfl := Option.some.inj hb
        exact progress_enter values (by omega)
  | writePass =>
      simp only [Fifo.step] at hs
      cases hw : f.writer with
      | none => simp [hw] at hs
      | some b =>
          have hb := h.writer b hw
          rw [hw] at hs
          dsimp only at hs
          have hp := hb.writeMore (Nat.min_le_left (b.call.nbBuffers - b.call.i)
            (f.cap - f.queue.length))
          split_ifs at hs with h1 h2 <;> obtain rfl := Option.some.inj hs
          · refine ⟨h.cap_eq, ?_, fun b' hb' => ?_, h.reader, h.returned⟩
            · simp only [List.length_append, List.length_map, List.length_range]
              omega
            · obtain rfl := Option.some.inj hb'
              exact hp
          · refine ⟨h.cap_eq, ?_, fun b' hb' => by simp at hb', h.reader,
              returned_snoc h (hp.delivered h2)⟩
            simp only [List.length_append, List.length_map, List.length_range]
            omega
  | read =>
      simp only [Fifo.step] at hs
      cases hq : f.queue with
      | nil => simp [hq] at hs
      | cons v queue =>
          rw [hq] at hs hlen
          split_ifs at hs with h1
          obtain rfl := Option.some.inj hs
          exact ⟨h.cap_eq, (Nat.le_succ _).trans hlen, h.writer, h.reader, h.returned⟩
  | tryRead =>
      simp only [Fifo.step] at hs
      cases hq : f.queue with
      | nil =>
          rw [hq] at hs
          split_ifs at hs with h1
          obtain rfl := Option.some.inj hs
          exact ⟨h.cap_eq, Nat.zero_le _, h.writer, h.reader, h.returned⟩
      | cons v queue =>
          rw [hq] at hs hlen
          split_ifs at hs with h1
          obtain rfl := Option.some.inj hs
          exact ⟨h.cap_eq, (Nat.le_succ _).trans hlen, h.writer, h.reader, h.returned⟩
  | readBulk values nb mn =>
      simp only [Fifo.step] at hs
      split_ifs at hs with h1 h2 h3 <;> obtain rfl := Option.some.inj hs
      · exact ⟨h.cap_eq, hlen, h.writer, h.reader, returned_snoc h (delivered_error values h2)⟩
      · exact ⟨h.cap_eq, hlen, h.writer, h.reader, returned_snoc h (delivered_none values h3.1)⟩
      · refine ⟨h.cap_eq, hlen, h.writer, fun b hb => ?_, h.returned⟩
        obtain rfl := Option.some.inj hb
        exact progress_enter values (by omega)
  | readPass =>
      simp only [Fifo.step] at hs
      cases hr : f.reader with
      | none => simp [hr] at hs
      | some b =>
          have hb := h.reader b hr
          rw [hr] at hs
          dsimp only at hs
          have hp : Progress (readMore b (f.queue.take
              (min (b.call.nbBuffers - b.call.i) f.queue.length))) :=
            hb.readMore (by rw [List.length_take]; omega)
          have hdrop : (f.queue.drop (min (b.call.nbBuffers - b.call.i)
              f.queue.length)).length ≤ f.cap := by
            rw [List.length_drop]
            omega
          split_ifs at hs with h1 h2 <;> obtain rfl := Option.some.inj hs
          · refine ⟨h.cap_eq, hdrop, h.writer, fun b' hb' => ?_, h.returned⟩
            obtain rfl := Option.some.inj hb'
            exact hp
          · exact ⟨h.cap_eq, hdrop, h.writer, fun b' hb' => by simp at hb',
              returned_snoc h (hp.delivered h2)⟩

/-- The queue is in order at the end of every run. -/
theorem run_inv {cap : ℕ} {ops : List (RingOp α)} {f : Fifo α}
    (h : Run Fifo.step (fun _ _ => True) (empty cap) ops f) : f.Inv cap :=
  h.invariant (I := fun _ f => f.Inv cap)
    ⟨rfl, Nat.zero_le _, fun b hb => by simp [empty] at hb, fun b hb => by simp [empty] at hb,
      fun b hb => by simp [empty] at hb⟩
    fun _ _ _ _ hi _ hs => hi.step hs

end Fifo

/-! ### The refinement -/

/-- The ring denotes the queue, and the two sides stand where they stand. -/
structure Refines (s : RingSystem α) (f : Fifo α) : Prop where
  wf : s.rb.WF
  size_eq : s.rb.size = f.cap + 1
  queue_eq : s.rb.queue = f.queue
  writer_eq : s.writer = f.writer.map FifoBulk.call
  reader_eq : s.reader = f.reader.map FifoBulk.call
  returns_eq : s.returns = f.returns

namespace Refines

variable {s : RingSystem α} {f : Fifo α}

lemma fill_eq (h : Refines s f) : s.rb.fill = f.queue.length := by
  rw [← h.queue_eq, ZxRingbuffer.queue_length]

lemma full_iff (h : Refines s f) : s.rb.isFull = true ↔ f.queue.length = f.cap := by
  rw [h.wf.isFull_iff, h.fill_eq, h.size_eq, Nat.add_sub_cancel]

lemma empty_iff (h : Refines s f) : s.rb.isEmpty = true ↔ f.queue = [] := by
  rw [h.wf.isEmpty_iff, h.fill_eq, List.length_eq_zero_iff]

lemma not_full (h : Refines s f) (hne : f.queue.length ≠ f.cap) : s.rb.isFull = false :=
  Bool.eq_false_iff.mpr fun hf => hne (h.full_iff.mp hf)

lemma not_empty (h : Refines s f) (hne : f.queue ≠ []) : s.rb.isEmpty = false :=
  Bool.eq_false_iff.mpr fun hf => hne (h.empty_iff.mp hf)

lemma writer_isSome (h : Refines s f) : s.writer.isSome = f.writer.isSome := by
  rw [h.writer_eq, Option.isSome_map]

lemma reader_isSome (h : Refines s f) : s.reader.isSome = f.reader.isSome := by
  rw [h.reader_eq, Option.isSome_map]

/-- The queue after a step, as long as only the ring moved. -/
lemma withRing (h : Refines s f) {rb : ZxRingbuffer α} {queue : List α} {ret : Returned α}
    (hwf : rb.WF) (hsize : rb.size = s.rb.size) (hq : rb.queue = queue) :
    Refines { s with rb := rb, returns := s.returns ++ [ret] }
      { f with queue := queue, returns := f.returns ++ [ret] } :=
  ⟨hwf, hsize.trans h.size_eq, hq, h.writer_eq, h.reader_eq, by simp [h.returns_eq]⟩

/-- A result that moved nothing. -/
lemma withReturn (h : Refines s f) (ret : Returned α) (bulk : List (ℕ × FifoBulk α)) :
    Refines { s with returns := s.returns ++ [ret] }
      { f with returns := f.returns ++ [ret], bulkReturns := bulk } :=
  ⟨h.wf, h.size_eq, h.queue_eq, h.writer_eq, h.reader_eq, by simp [h.returns_eq]⟩

end Refines

/-- A writing pass appends the next entries of the array, as many as fit. -/
lemma writeBulkPass_spec {rb : ZxRingbuffer α} {b : FifoBulk α} (h : rb.WF)
    (hf : rb.isFull = false) (hi : b.call.i ≤ b.call.nbBuffers)
    (hnb : b.call.nbBuffers < 2 ^ 64) :
    let k := min (b.call.nbBuffers - b.call.i) (rb.size - 1 - rb.fill)
    ∃ rb', rb.writeBulkPass b.call = some (rb', (Fifo.writeMore b k).call) ∧ rb'.WF ∧
      rb'.size = rb.size ∧
      rb'.queue = rb.queue ++ (List.range k).map fun j => b.call.values (b.call.i + j) := by
  intro k
  have hlt := h.fill_lt
  have hready : ZxRingbuffer.nbReady rb.nbEmpty b.call = b.call.i + k := by
    rw [h.nbEmpty_eq, ZxRingbuffer.nbReady_eq _ hi hnb]
  obtain ⟨hwf, hq⟩ := h.copyIn b.call.values k b.call.i (by omega)
  refine ⟨_, ?_, hwf, rfl, hq⟩
  simp only [ZxRingbuffer.writeBulkPass, hf, hready, Nat.add_sub_cancel_left]
  rw [if_neg (by simp), Nat.max_eq_right (Nat.le_add_right _ _)]
  rfl

/-- A reading pass takes the head of the queue into the next entries of the
array, as much as there is. -/
lemma readBulkPass_spec {rb : ZxRingbuffer α} {b : FifoBulk α} (h : rb.WF)
    (hf : rb.isEmpty = false) (hi : b.call.i ≤ b.call.nbBuffers)
    (hnb : b.call.nbBuffers < 2 ^ 64) :
    let k := min (b.call.nbBuffers - b.call.i) rb.fill
    ∃ rb', rb.readBulkPass b.call = some (rb', (Fifo.readMore b (rb.queue.take k)).call) ∧
      rb'.WF ∧ rb'.size = rb.size ∧ rb'.queue = rb.queue.drop k := by
  intro k
  have hready : ZxRingbuffer.nbReady rb.nbFull b.call = b.call.i + k := by
    rw [h.nbFull_eq, ZxRingbuffer.nbReady_eq _ hi hnb]
  obtain ⟨hwf, hq, hout⟩ := h.copyOut b.call.values k b.call.i (by omega)
  set r := ZxRingbuffer.copyOut rb.size rb.elements k b.call.i b.call.values rb.start with hr
  have htake : rb.queue.take k = (List.range k).map fun j => r.1 (b.call.i + j) := by
    rw [hq]
    exact List.take_left' (by simp)
  refine ⟨{ rb with start := r.2 }, ?_, hwf, rfl, ?_⟩
  · simp only [ZxRingbuffer.readBulkPass, hf, hready, Nat.add_sub_cancel_left, ← hr]
    rw [if_neg (by simp), Nat.max_eq_right (Nat.le_add_right _ _), htake]
    -- entry by entry: below `i`, in the chunk, and behind it
    have hvalues : r.1 = fun j => if j < b.call.i then b.call.values j else
        (((List.range k).map fun j => r.1 (b.call.i + j))[j - b.call.i]?).getD
          (b.call.values j) := by
      funext j
      by_cases hj : j < b.call.i
      · rw [if_pos hj, hout j (Or.inl hj)]
      · rw [if_neg hj]
        by_cases hk : j - b.call.i < k
        · simp [hk, show b.call.i + (j - b.call.i) = j by omega]
        · rw [List.getElem?_eq_none (by simpa using hk), Option.getD_none,
            hout j (Or.inr (by omega))]
    simp only [Fifo.readMore, List.length_map, List.length_range]
    rw [← hvalues]
  · rw [hq]
    exact (List.drop_left' (by simp)).symm

/-- **One step refines one step**, and is enabled exactly when it is on the
queue. -/
lemma step_refines {cap : ℕ} {s : RingSystem α} {f : Fifo α} (h : Refines s f) (hf : f.Inv cap)
    (op : RingOp α) : Option.Rel Refines (s.step op) (f.step op) := by
  have hlen := hf.length_le
  have hfill := h.fill_eq
  have hsize := h.size_eq
  cases op with
  | write v =>
      simp only [RingSystem.step, Fifo.step, h.writer_isSome, ZxRingbuffer.write]
      by_cases hw : f.writer.isSome = true
      · simp only [hw, true_or, if_true]
        exact .none
      · by_cases hfull : f.queue.length = f.cap
        · simp only [hw, hfull, h.full_iff.mpr hfull, or_true, if_true]
          exact .none
        · simp only [hw, hfull, h.not_full hfull, or_self, if_false, Bool.false_eq_true,
            Option.map_some]
          obtain ⟨hwf, -, hq⟩ := h.wf.push v (by omega)
          exact .some (h.withRing hwf rfl (by rw [hq, h.queue_eq]))
  | tryWrite v =>
      simp only [RingSystem.step, Fifo.step, h.writer_isSome, ZxRingbuffer.tryWrite,
        ZxRingbuffer.write]
      by_cases hw : f.writer.isSome = true
      · simp only [hw, if_true]
        exact .none
      · by_cases hfull : f.queue.length = f.cap
        · simp only [hw, hfull, h.full_iff.mpr hfull, if_true, Bool.false_eq_true, if_false,
            Option.map_some]
          exact .some (h.withReturn _ _)
        · simp only [hw, hfull, h.not_full hfull, if_false, Bool.false_eq_true, Option.map_some]
          obtain ⟨hwf, -, hq⟩ := h.wf.push v (by omega)
          exact .some (h.withRing hwf rfl (by rw [hq, h.queue_eq]))
  | writeBulk values nb mn =>
      simp only [RingSystem.step, Fifo.step, h.writer_isSome, ZxRingbuffer.writeBulkEarly,
        h.full_iff]
      by_cases hw : f.writer.isSome = true
      · simp only [hw, if_true]
        exact .none
      · simp only [hw, if_false, Bool.false_eq_true]
        split_ifs
        · exact .some (h.withReturn _ _)
        · exact .some (h.withReturn _ _)
        · exact .some ⟨h.wf, h.size_eq, h.queue_eq, rfl, h.reader_eq, h.returns_eq⟩
  | writePass =>
      simp only [RingSystem.step, Fifo.step, h.writer_eq]
      cases hw : f.writer with
      | none => exact .none
      | some b =>
          have hb := hf.writer b hw
          by_cases hfull : f.queue.length = f.cap
          · simp only [Option.map_some, ZxRingbuffer.writeBulkPass, h.full_iff.mpr hfull, hfull,
              if_true, Option.map_none]
            exact .none
          · obtain ⟨rb', hpass, hwf, hsz, hq⟩ :=
              writeBulkPass_spec h.wf (h.not_full hfull) hb.i_le hb.nb_lt
            have hroom : s.rb.size - 1 - s.rb.fill = f.cap - f.queue.length := by omega
            rw [hroom] at hpass hq
            rw [h.queue_eq] at hq
            simp only [Option.map_some, hpass, hfull, if_false]
            split_ifs
            · exact .some ⟨hwf, hsz.trans hsize, hq, rfl, h.reader_eq, h.returns_eq⟩
            · exact .some ⟨hwf, hsz.trans hsize, hq, rfl, h.reader_eq, by simp [h.returns_eq]⟩
  | read =>
      simp only [RingSystem.step, Fifo.step, h.reader_isSome, ZxRingbuffer.read]
      by_cases hr : f.reader.isSome = true
      · simp only [hr, if_true]
        exact .none
      · cases hq : f.queue with
        | nil =>
            simp only [h.empty_iff.mpr hq, hr, if_true, if_false, Bool.false_eq_true,
              Option.map_none]
            exact .none
        | cons v queue =>
            have hne : f.queue ≠ [] := by simp [hq]
            obtain ⟨hwf, -, hpop⟩ := h.wf.pop (by simp [hfill, hq])
            rw [h.queue_eq, hq] at hpop
            obtain ⟨hv, hrest⟩ := List.cons.inj hpop
            simp only [h.not_empty hne, hr, if_false, Bool.false_eq_true, Option.map_some, ← hv]
            exact .some (h.withRing hwf rfl hrest.symm)
  | tryRead =>
      simp only [RingSystem.step, Fifo.step, h.reader_isSome, ZxRingbuffer.tryRead,
        ZxRingbuffer.read]
      by_cases hr : f.reader.isSome = true
      · simp only [hr, if_true]
        exact .none
      · cases hq : f.queue with
        | nil =>
            simp only [h.empty_iff.mpr hq, hr, if_true, if_false, Bool.false_eq_true,
              Option.map_some]
            exact .some (h.withRing h.wf rfl (h.queue_eq.trans hq))
        | cons v queue =>
            have hne : f.queue ≠ [] := by simp [hq]
            obtain ⟨hwf, -, hpop⟩ := h.wf.pop (by simp [hfill, hq])
            rw [h.queue_eq, hq] at hpop
            obtain ⟨hv, hrest⟩ := List.cons.inj hpop
            simp only [h.not_empty hne, hr, if_false, Bool.false_eq_true, Option.map_some, ← hv]
            exact .some (h.withRing hwf rfl hrest.symm)
  | readBulk values nb mn =>
      simp only [RingSystem.step, Fifo.step, h.reader_isSome, ZxRingbuffer.readBulkEarly,
        h.empty_iff]
      by_cases hr : f.reader.isSome = true
      · simp only [hr, if_true]
        exact .none
      · simp only [hr, if_false, Bool.false_eq_true]
        split_ifs
        · exact .some (h.withReturn _ _)
        · exact .some (h.withReturn _ _)
        · exact .some ⟨h.wf, h.size_eq, h.queue_eq, h.writer_eq, rfl, h.returns_eq⟩
  | readPass =>
      simp only [RingSystem.step, Fifo.step, h.reader_eq]
      cases hr : f.reader with
      | none => exact .none
      | some b =>
          have hb := hf.reader b hr
          by_cases hempty : f.queue = []
          · simp only [Option.map_some, ZxRingbuffer.readBulkPass, h.empty_iff.mpr hempty, hempty,
              if_true, Option.map_none]
            exact .none
          · obtain ⟨rb', hpass, hwf, hsz, hq⟩ :=
              readBulkPass_spec h.wf (h.not_empty hempty) hb.i_le hb.nb_lt
            rw [hfill, h.queue_eq] at hpass hq
            simp only [Option.map_some, hpass, hempty, if_false]
            split_ifs
            · exact .some ⟨hwf, hsz.trans hsize, hq, h.writer_eq, rfl, h.returns_eq⟩
            · exact .some ⟨hwf, hsz.trans hsize, hq, h.writer_eq, rfl, by simp [h.returns_eq]⟩

/-- **The ring buffer is a bounded queue.**  Any run on a ring `init` accepts
keeps both indices below `size` and holds at most `n` values; it is a run of
the queue of capacity `n` with the same results, whose bulk calls delivered
what they returned, and after it the same operations are enabled. -/
theorem ring_refines_fifo {null : α} {n : UInt64} {mode : ℤ} {callocOk : Bool}
    {rb : ZxRingbuffer α} (hinit : ZxRingbuffer.init null n.toNat mode callocOk = .ok rb)
    {ops : List (RingOp α)} {s : RingSystem α}
    (hrun : Run RingSystem.step (fun _ _ => True) (RingSystem.start rb) ops s) :
    s.rb.start < s.rb.size ∧ s.rb.endIdx < s.rb.size ∧ s.rb.queue.length ≤ n.toNat ∧
      ∃ f, Run Fifo.step (fun _ _ => True) (Fifo.empty n.toNat) ops f ∧
        s.rb.queue = f.queue ∧ s.returns = f.returns ∧
        (∀ r ∈ f.bulkReturns, Fifo.Delivered r.1 r.2) ∧
        ∀ op, (s.step op).isSome = (f.step op).isSome := by
  obtain ⟨hwf, hsize, hq⟩ := ZxRingbuffer.init_ok hinit n.toNat_lt
  have h0 : Refines (RingSystem.start rb) (Fifo.empty n.toNat) ∧
      (Fifo.empty n.toNat : Fifo α).Inv n.toNat :=
    ⟨⟨hwf, hsize, hq, rfl, rfl, rfl⟩, Fifo.run_inv .nil⟩
  obtain ⟨f, hf, href, hinv⟩ :
      ∃ f, Run Fifo.step (fun _ _ => True) (Fifo.empty n.toNat) ops f ∧ Refines s f ∧
        f.Inv n.toNat := by
    refine hrun.bisimulates (R := fun s f => Refines s f ∧ f.Inv n.toNat) h0 fun t t' op ht => ?_
    have hrel := step_refines ht.1 ht.2 op
    generalize t.step op = u at hrel
    cases hs' : t'.step op with
    | none =>
        rw [hs'] at hrel
        cases hrel
        exact .none
    | some u' =>
        rw [hs'] at hrel
        cases hrel with
        | some hu => exact .some ⟨hu, ht.2.step hs'⟩
  refine ⟨href.wf.start_lt, href.wf.end_lt, ?_, f, hf, href.queue_eq, href.returns_eq,
    hinv.returned, fun op => ?_⟩
  · rw [href.queue_eq]
    exact hinv.cap_eq ▸ hinv.length_le
  · have hrel := step_refines href hinv op
    generalize s.step op = u at hrel ⊢
    generalize f.step op = u' at hrel ⊢
    cases hrel <;> rfl

/-- A ring of two: a bulk write of three stops after its first pass, which
fills the ring behind the value already there. -/
theorem ring_of_two_refines_fifo :
    ∃ s : RingSystem ℕ, exec RingSystem.step (RingSystem.start ⟨0, 3, 1, fun _ => 0, 0⟩)
        [.write 7, .writeBulk (fun i => i) 3 1, .writePass, .read, .tryWrite 8] = some s ∧
      s.rb.start < s.rb.size ∧ s.rb.endIdx < s.rb.size ∧
      s.rb.queue.length ≤ (2 : UInt64).toNat ∧
      ∃ f, Run Fifo.step (fun _ _ => True) (Fifo.empty (2 : UInt64).toNat)
          [.write 7, .writeBulk (fun i => i) 3 1, .writePass, .read, .tryWrite 8] f ∧
        s.rb.queue = f.queue ∧ s.returns = f.returns ∧
        (∀ r ∈ f.bulkReturns, Fifo.Delivered r.1 r.2) ∧
        ∀ op, (s.step op).isSome = (f.step op).isSome :=
  have hinit : ZxRingbuffer.init 0 (2 : UInt64).toNat 1 true = .ok ⟨0, 3, 1, fun _ => 0, 0⟩ := rfl
  ⟨_, rfl, ring_refines_fifo hinit (run_of_exec rfl)⟩

end CLibrary
