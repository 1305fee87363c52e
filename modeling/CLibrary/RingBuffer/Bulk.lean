import CLibrary.Library.Runs
import CLibrary.RingBuffer.Shared

/-!
One thread in `zx_ringbuffer_write_bulk`, one in `zx_ringbuffer_read_bulk`.

Every step is one load or store of `start`, `end` or a slot, in program order;
each mention of a volatile field is a load of its own.  In particular
`nb_empty` and `nb_full` load both indices to choose the branch (`count1`,
`count2`) and both again to compute (`near…` for the first branch, `far…` for
the `else` branch).

* `BulkPoint`, `writerStep`, `readerStep`, `BulkState.step`: the step relation;
  the label says which thread moves and with which arguments it calls.
* `Lossless`: nothing unread was overwritten, nothing was read before it was
  written, what was read is a prefix of what was written, and every call
  returned between `min` and `nb`.
* `bulk_transfer_loses`: a run that is not lossless.  The reader sees two
  values from `start = 1` to `end = 2`, the writer wraps `end` to 0 before the
  reader loads it again, and `end - start` comes out just below `2 ^ 64`.
* `Unwrapped`: the second load on an `else` branch sees no such wrap, or asks
  for no more than there is.
* `bulk_transfer_lossless`: runs that keep to it are lossless, by the invariant
  `BulkInv`, which relates both threads to the counters `rp` and `wp` of which
  `start` and `end` are the residues.
-/

namespace CLibrary

open ZxRingbuffer (BulkCall bulkError nbReady nbReady_eq fillOf)

variable {α : Type*}

/-! ### The step relation -/

/-- Where a thread is in its bulk call, with its locals; the argument `x` of a
second load is what the first one loaded. -/
inductive BulkPoint (α : Type*) where
  | idle
  /-- `!min_nb_buffers && is_full` (resp. `is_empty`): the load of `start`. -/
  | early1 (c : BulkCall α)
  | early2 (c : BulkCall α) (x : ℕ)
  /-- The wait loop: the load of `start` of its test. -/
  | wait1 (c : BulkCall α)
  | wait2 (c : BulkCall α) (x : ℕ)
  /-- The condition of `nb_empty` (resp. `nb_full`). -/
  | count1 (c : BulkCall α)
  | count2 (c : BulkCall α) (x : ℕ)
  /-- Its first branch. -/
  | near1 (c : BulkCall α)
  | near2 (c : BulkCall α) (x : ℕ)
  /-- Its `else` branch. -/
  | far1 (c : BulkCall α)
  | far2 (c : BulkCall α) (x : ℕ)
  /-- `end = rb->end` (resp. `start = rb->start`). -/
  | index (c : BulkCall α) (ready : ℕ)
  /-- The `for` loop with its register `e`, and the store behind it. -/
  | copy (c : BulkCall α) (ready e : ℕ)

/-- The ring, both threads, the values in the order the slots were stored and
loaded, and `(nb, min, result)` of every call that returned. -/
structure BulkState (α : Type*) where
  mem : SharedRing α
  w : BulkPoint α
  r : BulkPoint α
  written : List α
  taken : List α
  returns : List (ℕ × ℕ × ℕ)

/-- The label of a step: a thread that is idle calls, one that is not moves. -/
inductive BulkAction (α : Type*) where
  | callWriter (values : ℕ → α) (nbBuffers minNbBuffers : UInt64)
  | writer
  | callReader (values : ℕ → α) (nbBuffers minNbBuffers : UInt64)
  | reader

namespace BulkState

/-- Both threads idle on a fresh ring. -/
def start (rb : ZxRingbuffer α) : BulkState α := ⟨SharedRing.start rb, .idle, .idle, [], [], []⟩

/-- The record of a call that returns `ret`. -/
def ret (s : BulkState α) (c : BulkCall α) (ret : ℕ) : List (ℕ × ℕ × ℕ) :=
  s.returns ++ [(c.nbBuffers, c.minNbBuffers, ret)]

/-- The next load or store of `zx_ringbuffer_write_bulk`. -/
def writerStep (s : BulkState α) : Option (BulkState α) :=
  let rb := s.mem.rb
  match s.w with
  | .idle => none
  | .early1 c => some { s with w := .early2 c rb.start }
  | .early2 c x =>
      if x = uadd 64 rb.endIdx 1 % rb.size then some { s with w := .idle, returns := s.ret c 0 }
      else some { s with w := .wait1 c }
  | .wait1 c => some { s with w := .wait2 c rb.start }
  | .wait2 c x =>
      if x = uadd 64 rb.endIdx 1 % rb.size then some { s with w := .wait1 c }
      else some { s with w := .count1 c }
  | .count1 c => some { s with w := .count2 c rb.start }
  | .count2 c x =>
      if x ≤ rb.endIdx then some { s with w := .near1 c } else some { s with w := .far1 c }
  | .near1 c => some { s with w := .near2 c rb.start }
  | .near2 c x =>
      some { s with
        w := .index c (nbReady (usub 64 (usub 64 (uadd 64 x rb.size) rb.endIdx) 1) c) }
  | .far1 c => some { s with w := .far2 c rb.start }
  | .far2 c x => some { s with w := .index c (nbReady (usub 64 (usub 64 x rb.endIdx) 1) c) }
  | .index c ready => some { s with w := .copy c ready rb.endIdx }
  | .copy c ready e =>
      if c.i < ready then
        some { s with
          mem := s.mem.storeSlot e (c.values c.i)
          written := s.written ++ [c.values c.i]
          w := .copy { c with i := c.i + 1 } ready (uadd 64 e 1 % rb.size) }
      else if c.i < c.minNbBuffers then some { s with mem := s.mem.storeEnd e, w := .wait1 c }
      else some { s with mem := s.mem.storeEnd e, w := .idle, returns := s.ret c c.i }

/-- The next load or store of `zx_ringbuffer_read_bulk`. -/
def readerStep (s : BulkState α) : Option (BulkState α) :=
  let rb := s.mem.rb
  match s.r with
  | .idle => none
  | .early1 c => some { s with r := .early2 c rb.start }
  | .early2 c x =>
      if x = rb.endIdx then some { s with r := .idle, returns := s.ret c 0 }
      else some { s with r := .wait1 c }
  | .wait1 c => some { s with r := .wait2 c rb.start }
  | .wait2 c x =>
      if x = rb.endIdx then some { s with r := .wait1 c } else some { s with r := .count1 c }
  | .count1 c => some { s with r := .count2 c rb.endIdx }
  | .count2 c x =>
      if x < rb.start then some { s with r := .near1 c } else some { s with r := .far1 c }
  | .near1 c => some { s with r := .near2 c rb.endIdx }
  | .near2 c x =>
      some { s with r := .index c (nbReady (usub 64 (uadd 64 x rb.size) rb.start) c) }
  | .far1 c => some { s with r := .far2 c rb.endIdx }
  | .far2 c x => some { s with r := .index c (nbReady (usub 64 x rb.start) c) }
  | .index c ready => some { s with r := .copy c ready rb.start }
  | .copy c ready e =>
      if c.i < ready then
        some { s with
          mem := s.mem.loadSlot e
          taken := s.taken ++ [rb.elements e]
          r := .copy { c with values := Function.update c.values c.i (rb.elements e), i := c.i + 1 }
            ready (uadd 64 e 1 % rb.size) }
      else if c.i < c.minNbBuffers then some { s with mem := s.mem.storeStart e, r := .wait1 c }
      else some { s with mem := s.mem.storeStart e, r := .idle, returns := s.ret c c.i }

/-- Where a call begins: past the check of its arguments. -/
def entry (c : BulkCall α) : BulkPoint α :=
  if c.minNbBuffers = 0 then .early1 c else .wait1 c

/-- One step of either thread. -/
def step (s : BulkState α) : BulkAction α → Option (BulkState α)
  | .callWriter values nb mn =>
      let c : BulkCall α := ⟨values, nb.toNat, mn.toNat, 0⟩
      match s.w with
      | .idle =>
          if mn.toNat > nb.toNat then some { s with returns := s.ret c bulkError }
          else some { s with w := entry c }
      | _ => none
  | .writer => s.writerStep
  | .callReader values nb mn =>
      let c : BulkCall α := ⟨values, nb.toNat, mn.toNat, 0⟩
      match s.r with
      | .idle =>
          if mn.toNat > nb.toNat then some { s with returns := s.ret c bulkError }
          else some { s with r := entry c }
      | _ => none
  | .reader => s.readerStep

end BulkState

/-- Nothing is lost, invented or reordered, and every call with `min ≤ nb`
returned between the two. -/
structure Lossless (s : BulkState α) : Prop where
  clobbered : s.mem.clobbered = false
  stale : s.mem.stale = false
  prefix_written : s.taken <+: s.written
  returns : ∀ r ∈ s.returns, r.2.1 ≤ r.1 → r.2.1 ≤ r.2.2 ∧ r.2.2 ≤ r.1

/-! ### The wrap between the two loads -/

/-- Two writes and a read bring `start` to 1 and `end` to 2; the reader tests
`end < start`, the writer writes one more value and wraps `end` to 0, and the
reader loads it again. -/
def wrapRun : List (BulkAction ℕ) :=
  List.flatten
    [[.callWriter (fun i => i) 2 2], List.replicate 10 .writer,
      [.callReader (fun _ => 0) 1 1], List.replicate 9 .reader,
      [.callReader (fun _ => 0) 3 1], List.replicate 4 .reader,
      [.callWriter (fun i => i + 2) 1 1], List.replicate 9 .writer, List.replicate 6 .reader]

/-- **A bulk read of a ring of two takes four values of three written.** -/
theorem bulk_transfer_loses :
    ZxRingbuffer.init 0 2 1 true = .ok ⟨0, 3, 1, fun _ => 0, 0⟩ ∧
      ∃ s, exec BulkState.step (BulkState.start ⟨0, 3, 1, fun _ => 0, 0⟩) wrapRun = some s ∧
        s.taken = [0, 1, 2, 0] ∧ s.written = [0, 1, 2] ∧ ¬ Lossless s := by
  refine ⟨rfl, ?_⟩
  have hrun : (exec BulkState.step (BulkState.start ⟨0, 3, 1, fun _ => 0, 0⟩) wrapRun).map
      (fun s => (s.taken, s.written, s.mem.stale)) = some ([0, 1, 2, 0], [0, 1, 2], true) := by
    decide +kernel
  obtain ⟨s, hs, heq⟩ := Option.map_eq_some_iff.mp hrun
  simp only [Prod.mk.injEq] at heq
  exact ⟨s, hs, heq.1, heq.2.1, fun h => by simp [h.stale] at heq⟩

/-- The call of a thread about to make the second load of the other side's
index on the `else` branch. -/
def BulkPoint.far? : BulkPoint α → Option (BulkCall α)
  | .far1 c => some c
  | _ => none

/-- The second load on an `else` branch finds the other side's index where the
branch needs it, not wrapped past the own one, or the call wants no more than
the ring can give at that moment. -/
def Unwrapped (s : BulkState α) : BulkAction α → Prop
  | .writer => ∀ c ∈ s.w.far?, s.mem.rb.endIdx < s.mem.rb.start ∨
      c.nbBuffers - c.i ≤ s.mem.rb.size - 1 - s.mem.rb.fill
  | .reader => ∀ c ∈ s.r.far?, s.mem.rb.start ≤ s.mem.rb.endIdx ∨
      c.nbBuffers - c.i ≤ s.mem.rb.fill
  | _ => True

instance (s : BulkState α) : ∀ a, Decidable (Unwrapped s a)
  | .writer => inferInstanceAs (Decidable (∀ c ∈ s.w.far?, _))
  | .reader => inferInstanceAs (Decidable (∀ c ∈ s.r.far?, _))
  | .callWriter _ _ _ => isTrue trivial
  | .callReader _ _ _ => isTrue trivial

/-! ### The invariant -/

/-- The progress of a call is within its arguments. -/
structure Fits (c : BulkCall α) : Prop where
  i_le : c.i ≤ c.nbBuffers
  min_le : c.minNbBuffers ≤ c.nbBuffers
  nb_lt : c.nbBuffers < 2 ^ 64

/-- What the writer knows at each point.  `rp` and `wp` count the values whose
reading and writing has been published, `ws` the slots stored so far. -/
def WriterOk (size rp wp ws : ℕ) : BulkPoint α → Prop
  | .idle => ws = wp
  | .early1 c | .early2 c _ => Fits c ∧ ws = wp ∧ c.minNbBuffers = 0
  | .wait1 c | .wait2 c _ | .count1 c | .far1 c => Fits c ∧ ws = wp
  | .count2 c x => Fits c ∧ ws = wp ∧ ∃ ρ ≤ rp, wp < ρ + size ∧ x = ρ % size
  -- `start` has not wrapped since `end` last did, and cannot any more
  | .near1 c => Fits c ∧ ws = wp ∧ wp ≤ rp + wp % size
  | .near2 c x => Fits c ∧ ws = wp ∧ x ≤ wp % size ∧ wp + x ≤ rp + wp % size
  | .far2 c x => Fits c ∧ ws = wp ∧
      nbReady (usub 64 (usub 64 x (wp % size)) 1) c ≤ c.i + (rp + size - 1 - wp)
  | .index c ready => Fits c ∧ ws = wp ∧ c.i ≤ ready ∧ ready ≤ c.nbBuffers ∧
      wp + ready < rp + size + c.i
  | .copy c ready e => Fits c ∧ e = ws % size ∧ c.i ≤ ready ∧ ready ≤ c.nbBuffers ∧
      ws + ready < rp + size + c.i

/-- What the reader knows at each point; `rs` counts the slots loaded so far. -/
def ReaderOk (size rp wp rs : ℕ) : BulkPoint α → Prop
  | .idle => rs = rp
  | .early1 c | .early2 c _ => Fits c ∧ rs = rp ∧ c.minNbBuffers = 0
  | .wait1 c | .wait2 c _ | .count1 c | .far1 c => Fits c ∧ rs = rp
  | .count2 c x => Fits c ∧ rs = rp ∧ ∃ ω ≤ wp, rp ≤ ω ∧ x = ω % size
  -- `end` has wrapped past `start`, and cannot wrap again
  | .near1 c => Fits c ∧ rs = rp ∧ rp + size ≤ wp + rp % size
  | .near2 c x => Fits c ∧ rs = rp ∧ x < rp % size ∧ rp + x + size ≤ wp + rp % size
  | .far2 c x => Fits c ∧ rs = rp ∧ nbReady (usub 64 x (rp % size)) c ≤ c.i + (wp - rp)
  | .index c ready => Fits c ∧ rs = rp ∧ c.i ≤ ready ∧ ready ≤ c.nbBuffers ∧
      rp + ready ≤ wp + c.i
  | .copy c ready e => Fits c ∧ e = rs % size ∧ c.i ≤ ready ∧ ready ≤ c.nbBuffers ∧
      rs + ready ≤ wp + c.i

/-- What the reader publishes takes nothing from the writer. -/
lemma WriterOk.mono {size rp rp' wp ws : ℕ} {p : BulkPoint α} (h : WriterOk size rp wp ws p)
    (hrp : rp ≤ rp') : WriterOk size rp' wp ws p := by
  cases p with
  | count2 c x =>
      obtain ⟨hc, hws, ρ, hρ, hρ'⟩ := h
      exact ⟨hc, hws, ρ, hρ.trans hrp, hρ'⟩
  | near1 c => exact ⟨h.1, h.2.1, by have := h.2.2; omega⟩
  | near2 c x => exact ⟨h.1, h.2.1, h.2.2.1, by have := h.2.2.2; omega⟩
  | far2 c x => exact ⟨h.1, h.2.1, by have := h.2.2; omega⟩
  | index c ready =>
      obtain ⟨hc, hws, h1, h2, h3⟩ := h
      exact ⟨hc, hws, h1, h2, by omega⟩
  | copy c ready e =>
      obtain ⟨hc, he, h1, h2, h3⟩ := h
      exact ⟨hc, he, h1, h2, by omega⟩
  | idle | early1 | early2 | wait1 | wait2 | count1 | far1 => exact h

/-- What the writer publishes takes nothing from the reader. -/
lemma ReaderOk.mono {size rp wp wp' rs : ℕ} {p : BulkPoint α} (h : ReaderOk size rp wp rs p)
    (hwp : wp ≤ wp') : ReaderOk size rp wp' rs p := by
  cases p with
  | count2 c x =>
      obtain ⟨hc, hrs, ω, hω, hω'⟩ := h
      exact ⟨hc, hrs, ω, hω.trans hwp, hω'⟩
  | near1 c => exact ⟨h.1, h.2.1, by have := h.2.2; omega⟩
  | near2 c x => exact ⟨h.1, h.2.1, h.2.2.1, by have := h.2.2.2; omega⟩
  | far2 c x => exact ⟨h.1, h.2.1, by have := h.2.2; omega⟩
  | index c ready =>
      obtain ⟨hc, hrs, h1, h2, h3⟩ := h
      exact ⟨hc, hrs, h1, h2, by omega⟩
  | copy c ready e =>
      obtain ⟨hc, he, h1, h2, h3⟩ := h
      exact ⟨hc, he, h1, h2, by omega⟩
  | idle | early1 | early2 | wait1 | wait2 | count1 | far1 => exact h

/-- The calls that returned did so between their `min` and their `nb`. -/
def ReturnsOk (returns : List (ℕ × ℕ × ℕ)) : Prop :=
  ∀ r ∈ returns, r.2.1 ≤ r.1 → r.2.1 ≤ r.2.2 ∧ r.2.2 ≤ r.1

/-- The invariant: `start` and `end` are the residues of `rp` and `wp`, the
slots between the loads done and the stores done hold what was written, and
both threads know what they rely on. -/
structure BulkInv (size : ℕ) (s : BulkState α) (rp wp : ℕ) : Prop where
  size_eq : s.mem.rb.size = size
  one_lt : 1 < size
  size_lt : size < 2 ^ 64
  start_eq : s.mem.rb.start = rp % size
  end_eq : s.mem.rb.endIdx = wp % size
  mem : s.mem.MemInv s.written s.taken.length
  taken_prefix : s.taken <+: s.written
  rp_le : rp ≤ s.taken.length
  taken_le : s.taken.length ≤ wp
  wp_le : wp ≤ s.written.length
  written_lt : s.written.length < rp + size
  writer : WriterOk size rp wp s.written.length s.w
  reader : ReaderOk size rp wp s.taken.length s.r
  returns : ReturnsOk s.returns

/-- A call enters with nothing done. -/
lemma fits_entry (values : ℕ → α) {nb mn : UInt64} (h : mn.toNat ≤ nb.toNat) :
    Fits (⟨values, nb.toNat, mn.toNat, 0⟩ : BulkCall α) :=
  ⟨Nat.zero_le _, h, nb.toNat_lt⟩

lemma writerOk_entry {size rp wp ws : ℕ} {c : BulkCall α} (hc : Fits c) (hws : ws = wp) :
    WriterOk size rp wp ws (BulkState.entry c) := by
  rw [BulkState.entry]
  split_ifs with hmin
  · exact ⟨hc, hws, hmin⟩
  · exact ⟨hc, hws⟩

lemma readerOk_entry {size rp wp rs : ℕ} {c : BulkCall α} (hc : Fits c) (hrs : rs = rp) :
    ReaderOk size rp wp rs (BulkState.entry c) := by
  rw [BulkState.entry]
  split_ifs with hmin
  · exact ⟨hc, hrs, hmin⟩
  · exact ⟨hc, hrs⟩

namespace BulkInv

variable {size rp wp : ℕ} {s s' : BulkState α}

/-- The fill the indices show is the distance of the counters. -/
lemma fill_eq (h : BulkInv size s rp wp) : s.mem.rb.fill = wp - rp := by
  have h1 := h.rp_le
  have h2 := h.taken_le
  have h3 := h.wp_le
  have h4 := h.written_lt
  rw [ZxRingbuffer.fill, fillOf, h.size_eq, h.start_eq, h.end_eq]
  rcases mod_sub_cases (n := size) (show rp ≤ wp by omega) (by omega) with h5 | h5
  · rw [if_neg (by omega)]
    omega
  · rw [if_pos (by omega)]
    omega

/-- A step that moves only the writer's program point. -/
lemma setW (h : BulkInv size s rp wp) {p : BulkPoint α}
    (hp : WriterOk size rp wp s.written.length p) : BulkInv size { s with w := p } rp wp :=
  { h with writer := hp }

/-- A step that moves only the reader's program point. -/
lemma setR (h : BulkInv size s rp wp) {p : BulkPoint α}
    (hp : ReaderOk size rp wp s.taken.length p) : BulkInv size { s with r := p } rp wp :=
  { h with reader := hp }

/-- One more call returned. -/
lemma ret (h : BulkInv size s rp wp) {c : BulkCall α} {r : ℕ}
    (hr : c.minNbBuffers ≤ c.nbBuffers → c.minNbBuffers ≤ r ∧ r ≤ c.nbBuffers) :
    ReturnsOk (s.ret c r) := by
  intro q hq hle
  rcases List.mem_append.mp hq with hq | hq
  · exact h.returns q hq hle
  · obtain rfl := List.mem_singleton.mp hq
    exact hr hle

/-- The register of a copy loop follows its counter. -/
lemma next_index (h : BulkInv size s rp wp) (k : ℕ) :
    uadd 64 (k % size) 1 % size = (k + 1) % size := by
  have h1 := h.one_lt
  rw [ZxRingbuffer.next_eq h.size_lt (Nat.mod_lt _ (by omega)), Nat.mod_add_mod]

/-- A count that leaves room for what is ready hands over to the copy loop. -/
lemma writer_index (h : BulkInv size s rp wp) {c : BulkCall α} {count : ℕ} (hc : Fits c)
    (hws : s.written.length = wp) (hroom : nbReady count c ≤ c.i + (rp + size - 1 - wp)) :
    WriterOk size rp wp s.written.length (.index c (nbReady count c)) := by
  have h1 := h.written_lt
  have hready := nbReady_eq count hc.i_le hc.nb_lt
  have h2 := hc.i_le
  exact ⟨hc, hws, by omega, by omega, by omega⟩

/-- **A step of the writer keeps the invariant**, as long as it does not load a
wrapped `start` on the `else` branch. -/
lemma writerStep (h : BulkInv size s rp wp) (hok : Unwrapped s .writer)
    (hs : s.writerStep = some s') : ∃ wp', BulkInv size s' rp wp' := by
  have hw := h.writer
  have hsz := h.size_eq
  have hst := h.start_eq
  have hen := h.end_eq
  have h1 := h.one_lt
  have h2 := h.size_lt
  have h3 := h.rp_le
  have h4 := h.taken_le
  have h5 := h.wp_le
  have h6 := h.written_lt
  have hwp : wp % size < size := Nat.mod_lt _ (by omega)
  have hrp : rp % size < size := Nat.mod_lt _ (by omega)
  have hlap := mod_sub_cases (n := size) (show rp ≤ wp by omega) (by omega)
  simp only [BulkState.writerStep, hsz, hst, hen] at hs
  rw [Unwrapped, hsz, hst, hen, h.fill_eq] at hok
  cases hp : s.w with
  | idle => simp [hp] at hs
  | early1 c =>
      rw [hp] at hs hw
      obtain rfl := Option.some.inj hs
      exact ⟨wp, h.setW hw⟩
  | early2 c x =>
      rw [hp] at hs hw
      dsimp only at hs
      split_ifs at hs with hx <;> obtain rfl := Option.some.inj hs
      · have hmin := hw.2.2
        exact ⟨wp, { h.setW (p := .idle) hw.2.1 with returns := h.ret fun _ => by omega }⟩
      · exact ⟨wp, h.setW ⟨hw.1, hw.2.1⟩⟩
  | wait1 c =>
      rw [hp] at hs hw
      obtain rfl := Option.some.inj hs
      exact ⟨wp, h.setW hw⟩
  | wait2 c x =>
      rw [hp] at hs hw
      dsimp only at hs
      split_ifs at hs with hx <;> obtain rfl := Option.some.inj hs
      · exact ⟨wp, h.setW hw⟩
      · exact ⟨wp, h.setW hw⟩
  | count1 c =>
      rw [hp] at hs hw
      obtain rfl := Option.some.inj hs
      exact ⟨wp, h.setW ⟨hw.1, hw.2, rp, le_rfl, by omega, rfl⟩⟩
  | count2 c x =>
      rw [hp] at hs hw
      obtain ⟨hc, hws, ρ, hρ, hlt, rfl⟩ := hw
      dsimp only at hs
      split_ifs at hs with hx <;> obtain rfl := Option.some.inj hs
      · -- `start` was behind `end` in the same lap, so it still is
        have hlap' := mod_sub_cases (n := size) (show ρ ≤ wp by omega) hlt
        exact ⟨wp, h.setW ⟨hc, hws, by omega⟩⟩
      · exact ⟨wp, h.setW ⟨hc, hws⟩⟩
  | near1 c =>
      rw [hp] at hs hw
      obtain ⟨hc, hws, hnear⟩ := hw
      obtain rfl := Option.some.inj hs
      exact ⟨wp, h.setW ⟨hc, hws, by omega⟩⟩
  | near2 c x =>
      rw [hp] at hs hw
      obtain ⟨hc, hws, hx, hnear⟩ := hw
      obtain rfl := Option.some.inj hs
      refine ⟨wp, h.setW (h.writer_index hc hws ?_)⟩
      have hcount : usub 64 (usub 64 (uadd 64 x size) (wp % size)) 1 =
          x + size - wp % size - 1 := by
        rw [usub_uadd (by omega) (by omega) (by omega), usub_of_le (by omega) (by omega)]
      rw [hcount, nbReady_eq _ hc.i_le hc.nb_lt]
      omega
  | far1 c =>
      rw [hp] at hs hw hok
      obtain ⟨hc, hws⟩ := hw
      have hok := hok c rfl
      obtain rfl := Option.some.inj hs
      refine ⟨wp, h.setW ⟨hc, hws, ?_⟩⟩
      rw [nbReady_eq _ hc.i_le hc.nb_lt]
      rcases hok with hok | hok
      · have hsub : usub 64 (rp % size) (wp % size) = rp % size - wp % size :=
          usub_of_le (by omega) (by omega)
        rw [hsub, usub_of_le (by omega) (by omega)]
        omega
      · omega
  | far2 c x =>
      rw [hp] at hs hw
      obtain ⟨hc, hws, hroom⟩ := hw
      obtain rfl := Option.some.inj hs
      exact ⟨wp, h.setW (h.writer_index hc hws hroom)⟩
  | index c ready =>
      rw [hp] at hs hw
      obtain ⟨hc, hws, h7, h8, h9⟩ := hw
      obtain rfl := Option.some.inj hs
      exact ⟨wp, h.setW ⟨hc, by rw [hws], h7, h8, by omega⟩⟩
  | copy c ready e =>
      rw [hp] at hs hw
      obtain ⟨hc, rfl, h7, h8, h9⟩ := hw
      dsimp only at hs
      split_ifs at hs with hi hmin <;> obtain rfl := Option.some.inj hs
      · -- one more slot stored, nothing published
        have hmem := h.mem.store (c.values c.i) (by omega) (by omega)
        rw [hsz] at hmem
        have hlen : (s.written ++ [c.values c.i]).length = s.written.length + 1 := by simp
        refine ⟨wp, { h with
          mem := hmem
          taken_prefix := h.taken_prefix.trans (List.prefix_append _ _)
          wp_le := by rw [hlen]; omega
          written_lt := by rw [hlen]; omega
          writer :=
            ⟨⟨by change c.i + 1 ≤ c.nbBuffers; omega, hc.min_le, hc.nb_lt⟩, ?_, hi, h8, ?_⟩ }⟩
        · rw [hlen, h.next_index]
        · rw [hlen]
          change _ < rp + size + (c.i + 1)
          omega
      · -- the slots stored so far are published, and another pass begins
        exact ⟨s.written.length, { h with
          end_eq := rfl
          mem := h.mem.storeEnd _
          taken_le := h4.trans h5
          wp_le := le_rfl
          writer := ⟨hc, rfl⟩
          reader := h.reader.mono h5 }⟩
      · exact ⟨s.written.length, { h with
          end_eq := rfl
          mem := h.mem.storeEnd _
          taken_le := h4.trans h5
          wp_le := le_rfl
          writer := rfl
          reader := h.reader.mono h5
          returns := h.ret fun _ => ⟨by omega, hc.i_le⟩ }⟩

/-- A count of no more than there is hands over to the reading loop. -/
lemma reader_index (h : BulkInv size s rp wp) {c : BulkCall α} {count : ℕ} (hc : Fits c)
    (hrs : s.taken.length = rp) (hfill : nbReady count c ≤ c.i + (wp - rp)) :
    ReaderOk size rp wp s.taken.length (.index c (nbReady count c)) := by
  have h1 := h.rp_le
  have h2 := h.taken_le
  have hready := nbReady_eq count hc.i_le hc.nb_lt
  have h3 := hc.i_le
  exact ⟨hc, hrs, by omega, by omega, by omega⟩

/-- **A step of the reader keeps the invariant**, as long as it does not load a
wrapped `end` on the `else` branch. -/
lemma readerStep (h : BulkInv size s rp wp) (hok : Unwrapped s .reader)
    (hs : s.readerStep = some s') : ∃ rp', BulkInv size s' rp' wp := by
  have hr := h.reader
  have hsz := h.size_eq
  have hst := h.start_eq
  have hen := h.end_eq
  have h1 := h.one_lt
  have h2 := h.size_lt
  have h3 := h.rp_le
  have h4 := h.taken_le
  have h5 := h.wp_le
  have h6 := h.written_lt
  have hwp : wp % size < size := Nat.mod_lt _ (by omega)
  have hrp : rp % size < size := Nat.mod_lt _ (by omega)
  have hlap := mod_sub_cases (n := size) (show rp ≤ wp by omega) (by omega)
  simp only [BulkState.readerStep, hsz, hst, hen] at hs
  rw [Unwrapped, hst, hen, h.fill_eq] at hok
  cases hp : s.r with
  | idle => simp [hp] at hs
  | early1 c =>
      rw [hp] at hs hr
      obtain rfl := Option.some.inj hs
      exact ⟨rp, h.setR hr⟩
  | early2 c x =>
      rw [hp] at hs hr
      dsimp only at hs
      split_ifs at hs with hx <;> obtain rfl := Option.some.inj hs
      · have hmin := hr.2.2
        exact ⟨rp, { h.setR (p := .idle) hr.2.1 with returns := h.ret fun _ => by omega }⟩
      · exact ⟨rp, h.setR ⟨hr.1, hr.2.1⟩⟩
  | wait1 c =>
      rw [hp] at hs hr
      obtain rfl := Option.some.inj hs
      exact ⟨rp, h.setR hr⟩
  | wait2 c x =>
      rw [hp] at hs hr
      dsimp only at hs
      split_ifs at hs with hx <;> obtain rfl := Option.some.inj hs
      · exact ⟨rp, h.setR hr⟩
      · exact ⟨rp, h.setR hr⟩
  | count1 c =>
      rw [hp] at hs hr
      obtain rfl := Option.some.inj hs
      exact ⟨rp, h.setR ⟨hr.1, hr.2, wp, le_rfl, by omega, rfl⟩⟩
  | count2 c x =>
      rw [hp] at hs hr
      obtain ⟨hc, hrs, ω, hω, hle, rfl⟩ := hr
      dsimp only at hs
      split_ifs at hs with hx <;> obtain rfl := Option.some.inj hs
      · -- `end` was a lap ahead of `start`, so it still is
        have hlap' := mod_sub_cases (n := size) hle (by omega)
        exact ⟨rp, h.setR ⟨hc, hrs, by omega⟩⟩
      · exact ⟨rp, h.setR ⟨hc, hrs⟩⟩
  | near1 c =>
      rw [hp] at hs hr
      obtain ⟨hc, hrs, hnear⟩ := hr
      obtain rfl := Option.some.inj hs
      exact ⟨rp, h.setR ⟨hc, hrs, by omega, by omega⟩⟩
  | near2 c x =>
      rw [hp] at hs hr
      obtain ⟨hc, hrs, hx, hnear⟩ := hr
      obtain rfl := Option.some.inj hs
      refine ⟨rp, h.setR (h.reader_index hc hrs ?_)⟩
      rw [usub_uadd (by omega) (by omega) (by omega), nbReady_eq _ hc.i_le hc.nb_lt]
      omega
  | far1 c =>
      rw [hp] at hs hr hok
      obtain ⟨hc, hrs⟩ := hr
      have hok := hok c rfl
      obtain rfl := Option.some.inj hs
      refine ⟨rp, h.setR ⟨hc, hrs, ?_⟩⟩
      rw [nbReady_eq _ hc.i_le hc.nb_lt]
      rcases hok with hok | hok
      · rw [usub_of_le hok (by omega)]
        omega
      · omega
  | far2 c x =>
      rw [hp] at hs hr
      obtain ⟨hc, hrs, hfill⟩ := hr
      obtain rfl := Option.some.inj hs
      exact ⟨rp, h.setR (h.reader_index hc hrs hfill)⟩
  | index c ready =>
      rw [hp] at hs hr
      obtain ⟨hc, hrs, h7, h8, h9⟩ := hr
      obtain rfl := Option.some.inj hs
      exact ⟨rp, h.setR ⟨hc, by rw [hrs], h7, h8, by omega⟩⟩
  | copy c ready e =>
      rw [hp] at hs hr
      obtain ⟨hc, rfl, h7, h8, h9⟩ := hr
      dsimp only at hs
      split_ifs at hs with hi hmin <;> obtain rfl := Option.some.inj hs
      · -- one more slot loaded, nothing published
        have hmem := h.mem.load (by omega) (by omega)
        have htake := h.mem.holds.take h.taken_prefix rfl (show _ < s.written.length by omega)
        rw [hsz] at hmem htake
        set v := s.mem.rb.elements (s.taken.length % size) with hv
        have hlen : (s.taken ++ [v]).length = s.taken.length + 1 := by simp
        refine ⟨rp, { h with
          mem := hlen ▸ hmem
          taken_prefix := htake
          rp_le := by rw [hlen]; omega
          taken_le := by rw [hlen]; omega
          reader :=
            ⟨⟨by change c.i + 1 ≤ c.nbBuffers; omega, hc.min_le, hc.nb_lt⟩, ?_, hi, h8, ?_⟩ }⟩
        · rw [hlen, h.next_index]
        · rw [hlen]
          change _ ≤ wp + (c.i + 1)
          omega
      · -- the slots loaded so far are given back, and another pass begins
        exact ⟨s.taken.length, { h with
          start_eq := rfl
          mem := h.mem.storeStart _
          rp_le := le_rfl
          written_lt := show s.written.length < s.taken.length + size by omega
          writer := h.writer.mono h3
          reader := ⟨hc, rfl⟩ }⟩
      · exact ⟨s.taken.length, { h with
          start_eq := rfl
          mem := h.mem.storeStart _
          rp_le := le_rfl
          written_lt := show s.written.length < s.taken.length + size by omega
          writer := h.writer.mono h3
          reader := rfl
          returns := h.ret fun _ => ⟨by omega, hc.i_le⟩ }⟩

/-- Every step keeps the invariant. -/
lemma step (h : BulkInv size s rp wp) {a : BulkAction α} (hok : Unwrapped s a)
    (hs : s.step a = some s') : ∃ rp' wp', BulkInv size s' rp' wp' := by
  cases a with
  | writer =>
      obtain ⟨wp', h'⟩ := h.writerStep hok hs
      exact ⟨rp, wp', h'⟩
  | reader =>
      obtain ⟨rp', h'⟩ := h.readerStep hok hs
      exact ⟨rp', wp, h'⟩
  | callWriter values nb mn =>
      have hw := h.writer
      simp only [BulkState.step] at hs
      cases hp : s.w with
      | idle =>
          rw [hp] at hs hw
          dsimp only at hs
          split_ifs at hs with hle <;> obtain rfl := Option.some.inj hs
          · exact ⟨rp, wp, { h.setW (p := .idle) hw with
              returns := h.ret fun hle' => absurd hle' (Nat.not_le.mpr hle) }⟩
          · exact ⟨rp, wp, h.setW (writerOk_entry (fits_entry values (by omega)) hw)⟩
      | early1 | early2 | wait1 | wait2 | count1 | count2 | near1 | near2 | far1 | far2 | index
      | copy => simp [hp] at hs
  | callReader values nb mn =>
      have hr := h.reader
      simp only [BulkState.step] at hs
      cases hp : s.r with
      | idle =>
          rw [hp] at hs hr
          dsimp only at hs
          split_ifs at hs with hle <;> obtain rfl := Option.some.inj hs
          · exact ⟨rp, wp, { h.setR (p := .idle) hr with
              returns := h.ret fun hle' => absurd hle' (Nat.not_le.mpr hle) }⟩
          · exact ⟨rp, wp, h.setR (readerOk_entry (fits_entry values (by omega)) hr)⟩
      | early1 | early2 | wait1 | wait2 | count1 | count2 | near1 | near2 | far1 | far2 | index
      | copy => simp [hp] at hs

/-- A fresh ring, both threads idle. -/
lemma start {null : α} {n : UInt64} {mode : ℤ} {callocOk : Bool} {rb : ZxRingbuffer α}
    (hinit : ZxRingbuffer.init null n.toNat mode callocOk = .ok rb) :
    BulkInv rb.size (BulkState.start rb) 0 0 := by
  obtain ⟨hwf, -, -⟩ := ZxRingbuffer.init_ok hinit n.toNat_lt
  obtain ⟨hst, hen⟩ := ZxRingbuffer.init_indices hinit
  have h1 := hwf.one_lt
  exact ⟨rfl, h1, hwf.size_lt, by rw [Nat.zero_mod]; exact hst, by rw [Nat.zero_mod]; exact hen,
    SharedRing.start_memInv rb, List.nil_prefix, le_rfl, le_rfl, le_rfl,
    by change 0 < 0 + rb.size; omega, rfl, rfl, fun r hr => by simp [BulkState.start] at hr⟩

/-- Every state of every run without such a wrap. -/
lemma of_run {null : α} {n : UInt64} {mode : ℤ} {callocOk : Bool} {rb : ZxRingbuffer α}
    (hinit : ZxRingbuffer.init null n.toNat mode callocOk = .ok rb) {as : List (BulkAction α)}
    (hrun : Run BulkState.step Unwrapped (BulkState.start rb) as s) :
    ∃ rp wp, BulkInv rb.size s rp wp :=
  hrun.invariant (I := fun _ s => ∃ rp wp, BulkInv rb.size s rp wp)
    ⟨0, 0, BulkInv.start hinit⟩ fun _ _ _ _ ⟨_, _, h⟩ hok hs => h.step hok hs

/-- What the invariant is for. -/
lemma lossless (h : BulkInv size s rp wp) : Lossless s :=
  ⟨h.mem.clobbered, h.mem.stale, h.taken_prefix, h.returns⟩

end BulkInv

/-- **Bulk transfer is lossless on runs without a wrap between the two loads**:
whatever the two threads call and however their steps interleave, nothing
unread is overwritten, nothing is read before it is written, the values read
are a prefix of the values written, and every call returns between its `min`
and its `nb`. -/
theorem bulk_transfer_lossless {null : α} {n : UInt64} {mode : ℤ} {callocOk : Bool}
    {rb : ZxRingbuffer α} (hinit : ZxRingbuffer.init null n.toNat mode callocOk = .ok rb)
    {as : List (BulkAction α)} {s : BulkState α}
    (hrun : Run BulkState.step Unwrapped (BulkState.start rb) as s) : Lossless s := by
  obtain ⟨rp, wp, h⟩ := BulkInv.of_run hinit hrun
  exact h.lossless

/-- A write of three values and their read, the two threads taking turns. -/
def threeValueRun : List (BulkAction ℕ) :=
  List.flatten
    [[.callWriter (fun i => i + 5) 3 3, .callReader (fun _ => 0) 3 3],
      (List.replicate 27 [BulkAction.writer, .reader]).flatten, List.replicate 8 .reader]

/-- Three values through a ring of two: both calls make a second pass, and both
indices wrap. -/
theorem bulk_transfer_three_lossless :
    ∃ s : BulkState ℕ,
      Run BulkState.step Unwrapped (BulkState.start ⟨0, 3, 1, fun _ => 0, 0⟩) threeValueRun s ∧
      s.taken = [5, 6, 7] ∧ s.returns = [(3, 3, 3), (3, 3, 3)] ∧ s.mem.rb.start = 0 ∧
      s.mem.rb.endIdx = 0 ∧ Lossless s := by
  have hinit : ZxRingbuffer.init 0 (2 : UInt64).toNat 1 true = .ok ⟨0, 3, 1, fun _ => 0, 0⟩ := rfl
  have hrun : (exec (fun s a => if Unwrapped s a then BulkState.step s a else none)
      (BulkState.start ⟨0, 3, 1, fun _ => 0, 0⟩) threeValueRun).map
      (fun s => (s.taken, s.returns, s.mem.rb.start, s.mem.rb.endIdx)) =
        some ([5, 6, 7], [(3, 3, 3), (3, 3, 3)], 0, 0) := by
    decide +kernel
  obtain ⟨s, hs, heq⟩ := Option.map_eq_some_iff.mp hrun
  simp only [Prod.mk.injEq] at heq
  obtain ⟨htaken, hreturns, hstart, hend⟩ := heq
  have hreach := run_of_exec_guarded hs
  exact ⟨s, hreach, htaken, hreturns, hstart, hend, bulk_transfer_lossless hinit hreach⟩

end CLibrary
