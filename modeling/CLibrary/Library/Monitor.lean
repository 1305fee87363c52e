import Mathlib.Tactic

/-!
Locks, mutexes and condition variables, over any type of threads.

* `flag_of_free` to `lock_release`: where the threads are (`point`) and who
  holds a lock, tied together by a flag of the points.
* `Monitor`: a mutex and a condition variable waited for under it; `wait` gives
  the mutex back and falls asleep in one step, `broadcast` wakes every sleeper.
* `Monitor.Covered`: what every thread that has the mutex or is asleep goes by
  still holds, or a broadcast is on its way.  `Covered.step` carries it through
  a step of one thread, `Covered.broadcast` through the broadcast itself, which
  the mutex keeps away from a thread between its test and its `wait`.
-/

namespace CLibrary

variable {τ π : Type*}

/-! ### Locks and flags -/

section Locks

variable {point : τ → π} {t : τ} {p : π} {f : π → Bool} {lock : Option τ}

/-- The flag of a lock with no holder is down everywhere. -/
lemma flag_of_free (h : ∀ u, f (point u) = true ↔ lock = some u) (hlock : lock = none) (u : τ) :
    f (point u) = false := by
  rw [Bool.eq_false_iff, Ne, h, hlock]
  exact Option.some_ne_none u ∘ Eq.symm

/-- Only the holder of a lock has its flag up. -/
lemma flag_of_ne (h : ∀ u, f (point u) = true ↔ lock = some u) (ht : f (point t) = true)
    {u : τ} (hu : u ≠ t) : f (point u) = false := by
  rw [Bool.eq_false_iff, Ne, h, (h t).mp ht]
  intro heq
  exact hu (Option.some.inj heq).symm

variable [DecidableEq τ]

/-- What holds of the other threads where they are, and of the moving one at
its new point, holds after the move. -/
lemma points_update {P : τ → π → Prop} (hp : P t p) (h : ∀ u, u ≠ t → P u (point u))
    (u : τ) : P u (Function.update point t p u) := by
  by_cases hu : u = t
  · rw [hu, Function.update_self]
    exact hp
  · rw [Function.update_of_ne hu]
    exact h u hu

/-- What relates the threads of two systems one by one still does after a move of
the same thread in both. -/
lemma points_rel {ρ : Type*} {R : π → ρ → Prop} {point' : τ → ρ} {p' : ρ} (hp : R p p')
    (h : ∀ u, R (point u) (point' u)) (u : τ) :
    R (Function.update point t p u) (Function.update point' t p' u) := by
  by_cases hu : u = t
  · rw [hu, Function.update_self, Function.update_self]
    exact hp
  · rw [Function.update_of_ne hu, Function.update_of_ne hu]
    exact h u

/-- A thread that keeps its flag leaves every flag as it was. -/
lemma flag_update (h : f p = f (point t)) (u : τ) :
    f (Function.update point t p u) = f (point u) :=
  points_update (P := fun u q => f q = f (point u)) h (fun _ _ => rfl) u

/-- A thread that keeps its flag leaves the lock where it is. -/
lemma lock_keep (h : ∀ u, f (point u) = true ↔ lock = some u) (hp : f p = f (point t)) (u : τ) :
    f (Function.update point t p u) = true ↔ lock = some u := by
  rw [flag_update hp]
  exact h u

/-- Taking a free lock. -/
lemma lock_acquire (h : ∀ u, f (point u) = true ↔ lock = some u) (hlock : lock = none)
    (hp : f p = true) (u : τ) : f (Function.update point t p u) = true ↔ some t = some u := by
  refine points_update (P := fun u q => f q = true ↔ some t = some u) (by simp [hp]) ?_ u
  intro u hu
  rw [flag_of_free h hlock u, Option.some_inj]
  simp [Ne.symm hu]

/-- Giving the lock back. -/
lemma lock_release (h : ∀ u, f (point u) = true ↔ lock = some u) (ht : f (point t) = true)
    (hp : f p = false) (u : τ) : f (Function.update point t p u) = true ↔ none = some u := by
  refine points_update (P := fun u q => f q = true ↔ none = some u) (by simp [hp]) ?_ u
  intro u hu
  rw [flag_of_ne h ht hu]
  simp

/-- A thread whose flag is not lowered keeps it up somewhere. -/
lemma exists_flag_update (h : ∃ u, f (point u) = true) (hp : f (point t) = true → f p = true) :
    ∃ u, f (Function.update point t p u) = true := by
  obtain ⟨u, hu⟩ := h
  refine ⟨u, ?_⟩
  by_cases hut : u = t
  · rw [hut, Function.update_self]
    exact hp (hut ▸ hu)
  · rw [Function.update_of_ne hut]
    exact hu

end Locks

/-! ### Monitors -/

/-- A mutex with its holder, and the threads asleep on a condition variable
that is waited for under it. -/
structure Monitor (τ : Type*) where
  holder : Option τ
  asleep : Finset τ

namespace Monitor

/-- A mutex nobody holds and a condition variable nobody waits for. -/
def free : Monitor τ := ⟨none, ∅⟩

/-- Taking the mutex, which waits for it to be free. -/
def lock (m : Monitor τ) (t : τ) : Option (Monitor τ) :=
  match m.holder with
  | none => some { m with holder := some t }
  | some _ => none

/-- Giving the mutex back. -/
def unlock (m : Monitor τ) : Monitor τ := { m with holder := none }

/-- Waking every thread that is asleep. -/
def broadcast (m : Monitor τ) : Monitor τ := { m with asleep := ∅ }

section Sleep

variable [DecidableEq τ]

/-- Giving the mutex back and falling asleep, in one step. -/
def wait (m : Monitor τ) (t : τ) : Monitor τ := ⟨none, insert t m.asleep⟩

/-- A thread waking up, after no broadcast. -/
def wake (m : Monitor τ) (t : τ) : Monitor τ := { m with asleep := m.asleep.erase t }

/-- The way back out of a wait: awake again, taking the mutex. -/
def relock (m : Monitor τ) (t : τ) : Option (Monitor τ) :=
  if t ∈ m.asleep then none else m.lock t

end Sleep

/-- The threads a broadcast must not miss: the one that has the mutex, and may
be about to wait, and those asleep. -/
def Engaged (m : Monitor τ) (t : τ) : Prop := m.holder = some t ∨ t ∈ m.asleep

/-- **No wakeup is lost**: what every engaged thread goes by still holds, or a
broadcast is pending. -/
def Covered (m : Monitor τ) (knows : τ → Prop) (pending : Prop) : Prop :=
  ∀ t, m.Engaged t → knows t ∨ pending

variable {m m' : Monitor τ} {t u : τ} {knows knows' : τ → Prop} {pending pending' : Prop}

lemma lock_eq_some : m.lock t = some m' ↔ m.holder = none ∧ m' = ⟨some t, m.asleep⟩ := by
  cases hm : m.holder with
  | none => simp [lock, hm, eq_comm]
  | some v => simp [lock, hm]

lemma relock_eq_some [DecidableEq τ] :
    m.relock t = some m' ↔ t ∉ m.asleep ∧ m.holder = none ∧ m' = ⟨some t, m.asleep⟩ := by
  rw [relock]
  split_ifs with ht
  · simp [ht]
  · rw [lock_eq_some]
    simp [ht]

/-- Taking the mutex engages the taker only. -/
lemma engaged_of_lock (h : Engaged ⟨some t, m.asleep⟩ u) (hu : u ≠ t) : m.Engaged u := by
  rcases h with h | h
  · exact absurd (Option.some.inj h).symm hu
  · exact Or.inr h

lemma engaged_of_unlock (h : m.unlock.Engaged u) : m.Engaged u := by
  rcases h with h | h
  · simp [unlock] at h
  · exact Or.inr h

/-- Falling asleep engages no other thread. -/
lemma engaged_of_wait [DecidableEq τ] (h : (m.wait t).Engaged u) (hu : u ≠ t) : m.Engaged u := by
  rcases h with h | h
  · simp [wait] at h
  · exact Or.inr (Finset.mem_of_mem_insert_of_ne h hu)

lemma engaged_of_wake [DecidableEq τ] (h : (m.wake t).Engaged u) : m.Engaged u := by
  rcases h with h | h
  · exact Or.inl h
  · exact Or.inr (Finset.mem_of_mem_erase h)

/-- After its broadcast the holder of the mutex is the only thread engaged. -/
lemma engaged_of_broadcast (h : m.broadcast.Engaged u) (ht : m.holder = some t) : u = t := by
  rcases h with h | h
  · exact Option.some.inj (h.symm.trans ht)
  · simp [broadcast] at h

namespace Covered

lemma free : (Monitor.free : Monitor τ).Covered knows pending := by
  rintro t (h | h)
  · simp [Monitor.free] at h
  · simp [Monitor.free] at h

/-- A pending broadcast covers everything. -/
lemma of_pending (h : pending) : m.Covered knows pending := fun _ _ => Or.inr h

/-- **The step rule**: a step of thread `t` that engages nobody else, lowers no
pending broadcast and leaves to the others what they go by. -/
theorem step (h : m.Covered knows pending) (hpending : pending → pending')
    (hothers : ∀ u, u ≠ t → m'.Engaged u → m.Engaged u ∧ (knows u → knows' u))
    (ht : m'.Engaged t → knows' t ∨ pending') : m'.Covered knows' pending' := by
  intro u hu
  by_cases hut : u = t
  · rw [hut] at hu ⊢
    exact ht hu
  · obtain ⟨hm, hk⟩ := hothers u hut hu
    exact (h u hm).imp hk hpending

/-- **The broadcast rule**: the broadcast may be struck off, since with the
mutex held by its caller nobody else is engaged after it. -/
theorem broadcast (ht : m.holder = some t) (hk : knows t) :
    m.broadcast.Covered knows pending := by
  intro u hu
  rw [engaged_of_broadcast hu ht]
  exact Or.inl hk

end Covered

end Monitor

end CLibrary
