import CLibrary.RingBuffer.Basic

/-!
The ring as shared memory.

Threads touch the ring through single loads and stores of `start`, `end` and
the slots.  `SharedRing` watches the slots: a slot is `unread` from the store
of a value to its load, and the two flags remember whether a store ever hit an
unread slot (`clobbered`) and a load one that was not (`stale`).

* `MemInv m log lo`: the slots of the counters from `lo` to the length of `log`
  hold the entries of `log`, exactly these slots are unread, and neither flag
  is up.
* `MemInv.store`, `MemInv.load`: what a slot access does to it.
-/

namespace CLibrary

variable {α : Type*}

/-- The ring, and what has happened to its slots. -/
structure SharedRing (α : Type*) where
  rb : ZxRingbuffer α
  unread : ℕ → Bool
  clobbered : Bool
  stale : Bool

namespace SharedRing

/-- The ring before the first access. -/
def start (rb : ZxRingbuffer α) : SharedRing α := ⟨rb, fun _ => false, false, false⟩

/-- `rb->elements[k] = v`. -/
def storeSlot (m : SharedRing α) (k : ℕ) (v : α) : SharedRing α :=
  { m with
    rb := { m.rb with elements := Function.update m.rb.elements k v }
    unread := Function.update m.unread k true
    clobbered := m.clobbered || m.unread k }

/-- The slot after `rb->elements[k]` is read; the value is `rb.elements k`. -/
def loadSlot (m : SharedRing α) (k : ℕ) : SharedRing α :=
  { m with
    unread := Function.update m.unread k false
    stale := m.stale || !m.unread k }

/-- `rb->start = k`. -/
def storeStart (m : SharedRing α) (k : ℕ) : SharedRing α :=
  { m with rb := { m.rb with start := k } }

/-- `rb->end = k`. -/
def storeEnd (m : SharedRing α) (k : ℕ) : SharedRing α :=
  { m with rb := { m.rb with endIdx := k } }

/-- The slots of the counters in `[lo, log.length)` hold the entries of `log`
and are the unread ones; no access has gone wrong. -/
structure MemInv (m : SharedRing α) (log : List α) (lo : ℕ) : Prop where
  holds : Holds m.rb.elements m.rb.size log lo log.length
  unread_iff : ∀ k, m.unread k = true ↔ ∃ j, lo ≤ j ∧ j < log.length ∧ j % m.rb.size = k
  clobbered : m.clobbered = false
  stale : m.stale = false

lemma start_memInv (rb : ZxRingbuffer α) : MemInv (start rb) [] 0 :=
  ⟨fun k _ hk => absurd hk (Nat.not_lt_zero k), fun k => by simp [start], rfl, rfl⟩

namespace MemInv

variable {m : SharedRing α} {log : List α} {lo : ℕ}

lemma storeStart (h : MemInv m log lo) (k : ℕ) : MemInv (m.storeStart k) log lo :=
  ⟨h.holds, h.unread_iff, h.clobbered, h.stale⟩

lemma storeEnd (h : MemInv m log lo) (k : ℕ) : MemInv (m.storeEnd k) log lo :=
  ⟨h.holds, h.unread_iff, h.clobbered, h.stale⟩

/-- Storing the next value in its slot while there is room clobbers nothing. -/
lemma store (h : MemInv m log lo) (v : α) (hroom : log.length < lo + m.rb.size)
    (hlo : lo ≤ log.length) :
    MemInv (m.storeSlot (log.length % m.rb.size) v) (log ++ [v]) lo := by
  have hfree : m.unread (log.length % m.rb.size) = false := by
    rw [Bool.eq_false_iff, Ne, h.unread_iff]
    rintro ⟨j, h1, h2, h3⟩
    have := mod_inj_window lo h1 (by omega) hlo hroom h3
    omega
  refine ⟨h.holds.push v hroom, fun k => ?_, ?_, h.stale⟩
  · simp only [storeSlot, List.length_append, List.length_singleton]
    by_cases hk : k = log.length % m.rb.size
    · rw [hk, Function.update_self]
      exact ⟨fun _ => ⟨log.length, hlo, Nat.lt_succ_self _, rfl⟩, fun _ => rfl⟩
    · rw [Function.update_of_ne hk, h.unread_iff]
      constructor
      · rintro ⟨j, h1, h2, h3⟩
        exact ⟨j, h1, by omega, h3⟩
      · rintro ⟨j, h1, h2, h3⟩
        refine ⟨j, h1, ?_, h3⟩
        by_contra hge
        exact hk (by rw [← h3, show j = log.length by omega])
  · simp [storeSlot, h.clobbered, hfree]

/-- Loading the oldest unread slot yields the next entry of the log. -/
lemma load (h : MemInv m log lo) (hlo : lo < log.length) (hspan : log.length ≤ lo + m.rb.size) :
    MemInv (m.loadSlot (lo % m.rb.size)) log (lo + 1) := by
  have hread : m.unread (lo % m.rb.size) = true := (h.unread_iff _).mpr ⟨lo, le_rfl, hlo, rfl⟩
  refine ⟨h.holds.mono (Nat.le_succ lo) le_rfl, fun k => ?_, h.clobbered, ?_⟩
  · simp only [loadSlot]
    by_cases hk : k = lo % m.rb.size
    · rw [hk, Function.update_self]
      refine ⟨fun hf => by simp at hf, ?_⟩
      rintro ⟨j, h1, h2, h3⟩
      have := mod_inj_window lo (n := m.rb.size) (by omega) (by omega) le_rfl (by omega) h3
      omega
    · rw [Function.update_of_ne hk, h.unread_iff]
      constructor
      · rintro ⟨j, h1, h2, h3⟩
        refine ⟨j, ?_, h2, h3⟩
        by_contra hlt
        exact hk (by rw [← h3, show j = lo by omega])
      · rintro ⟨j, h1, h2, h3⟩
        exact ⟨j, by omega, h2, h3⟩
  · simp [loadSlot, h.stale, hread]

end MemInv

end SharedRing

end CLibrary
