import CLibrary.Library.Runs
import CLibrary.Library.StoreBuffers
import CLibrary.SpinLock.Basic

/-!
Processes that share a spin lock, behind the store buffers of x86-64.

`S_LOCK` is a locked exchange and, where that fails, `s_lock`, which reads the lock
before every further exchange; `S_UNLOCK` is a plain store.  Every process has its own
`spins_per_delay`.

* `SpinPc`, `SpinProc`, `SpinSystem`: where a process is, and what it has.
* `SpinOp`, `SpinSystem.step`: one access to memory, with what follows it.
* `SpinSystem.Admits`: what a user owes, to touch what the lock guards only with it.
* `again_cases`, `tas_cases`, `read_cases`, `tasSpin_cases`, `own_cases`: what a step
  does.
-/

namespace CLibrary

variable {P A : Type}

/-- Where `S_LOCK` and `S_UNLOCK` are used. -/
structure CallSite where
  file : String
  line : ℤ
  func : Option String
  deriving DecidableEq

/-- Where a process is: at `*(lock)` of `TAS_SPIN`, at its `TAS`, with the lock, or
elsewhere. -/
inductive SpinPc
  | outside
  | reading
  | testing
  | holding
  deriving DecidableEq

/-- A process: `spinsPerDelay` is the static variable, `status` the local of `s_lock`,
`result` what `update_spins_per_delay` has returned. -/
structure SpinProc where
  pc : SpinPc
  spinsPerDelay : ℤ
  status : SpinDelayStatus
  result : Option ℤ
  deriving DecidableEq

structure SpinSystem (P A : Type) where
  memory : Buffered P A ℤ
  procs : P → SpinProc

/-- The steps.  `tas` is the exchange of `S_LOCK`; a try that fails is followed by
`perform_spin_delay`, which gets `random`.  `setSpins` and `updateSpins` are called with
what is at `a`, and `putBack` stores the result. -/
inductive SpinOp (P A : Type)
  | tas (p : P) (site : CallSite)
  | read (p : P) (random : ℕ)
  | tasSpin (p : P) (random : ℕ)
  | unlock (p : P)
  | load (p : P) (a : A)
  | store (p : P) (a : A) (v : ℤ)
  | setSpins (p : P) (a : A)
  | updateSpins (p : P) (a : A)
  | putBack (p : P) (a : A)
  | flush (p : P)

/-- What a step does that can be seen. -/
inductive SpinEvent (A : Type)
  | nothing
  | spun (printed : Option String) (slept : Option Timeval)
  | returned (delays : ℤ)
  | access (access : MemAccess A ℤ)
  deriving DecidableEq

/-- The accesses to what is guarded. -/
def guardedAccesses (guarded : A → Prop) [DecidablePred guarded] :
    List (SpinEvent A) → List (MemAccess A ℤ) :=
  List.filterMap fun
    | .access (.loaded a v) => if guarded a then some (.loaded a v) else none
    | .access (.stored a v) => if guarded a then some (.stored a v) else none
    | _ => none

namespace SpinSystem

/-- Every process has the default estimate. -/
def start (mem : A → ℤ) : SpinSystem P A :=
  ⟨Buffered.start mem, fun _ =>
    ⟨.outside, defaultSpinsPerDelay, initSpinDelay "" 0 none, none⟩⟩

variable [DecidableEq P] [DecidableEq A] (R : Rounding) (lock : A) (s : SpinSystem P A)

/-- A process moves. -/
def move (p : P) (memory : Buffered P A ℤ) (proc : SpinProc) : SpinSystem P A :=
  ⟨memory, Function.update s.procs p proc⟩

/-- `TAS_SPIN` has failed. -/
def again (p : P) (memory : Buffered P A ℤ) (random : ℕ) :
    Option (SpinEvent A × SpinSystem P A) := do
  let proc := s.procs p
  let spun ← performSpinDelay R proc.spinsPerDelay proc.status random
  some (.spun spun.printed spun.slept,
    s.move p memory { proc with pc := .reading, status := spun.status })

/-- `S_LOCK` before `s_lock`. -/
def tas (p : P) (site : CallSite) : Option (SpinEvent A × SpinSystem P A) := do
  let proc := s.procs p
  if proc.pc = .outside then
    let (res, memory) ← s.memory.exchange p lock 1
    if res ≠ 0 then
      some (.nothing, s.move p memory { proc with
        pc := .reading
        status := initSpinDelay site.file site.line site.func })
    else
      some (.returned 0, s.move p memory { proc with pc := .holding })
  else none

/-- `*(lock)` of `TAS_SPIN`. -/
def read (p : P) (random : ℕ) : Option (SpinEvent A × SpinSystem P A) :=
  let proc := s.procs p
  if proc.pc = .reading then
    if s.memory.load p lock ≠ 0 then s.again R p s.memory random
    else some (.nothing, s.move p s.memory { proc with pc := .testing })
  else none

/-- `TAS` of `TAS_SPIN`, and the end of `s_lock`. -/
def tasSpin (p : P) (random : ℕ) : Option (SpinEvent A × SpinSystem P A) := do
  let proc := s.procs p
  if proc.pc = .testing then
    let (res, memory) ← s.memory.exchange p lock 1
    if res ≠ 0 then s.again R p memory random
    else
      some (.returned proc.status.delays, s.move p memory { proc with
        pc := .holding
        spinsPerDelay := finishSpinDelay proc.spinsPerDelay proc.status })
  else none

/-- A process that is not in a call of `S_LOCK` does something of its own. -/
def own (p : P) (event : SpinEvent A) (memory : Buffered P A ℤ) (proc : SpinProc) :
    Option (SpinEvent A × SpinSystem P A) :=
  if (s.procs p).pc = .outside ∨ (s.procs p).pc = .holding then
    some (event, s.move p memory proc)
  else none

def step : SpinOp P A → Option (SpinEvent A × SpinSystem P A)
  | .tas p site => s.tas lock p site
  | .read p random => s.read R lock p random
  | .tasSpin p random => s.tasSpin R lock p random
  | .unlock p =>
      s.own p .nothing (s.memory.store p lock 0) { s.procs p with pc := .outside }
  | .load p a => s.own p (.access (.loaded a (s.memory.load p a))) s.memory (s.procs p)
  | .store p a v => s.own p (.access (.stored a v)) (s.memory.store p a v) (s.procs p)
  | .setSpins p a => s.own p (.access (.loaded a (s.memory.load p a))) s.memory
      { s.procs p with spinsPerDelay := s.memory.load p a }
  | .updateSpins p a => do
      let result ← updateSpinsPerDelay (s.procs p).spinsPerDelay (s.memory.load p a)
      s.own p (.access (.loaded a (s.memory.load p a))) s.memory
        { s.procs p with result := some result }
  | .putBack p a => do
      let result ← (s.procs p).result
      s.own p (.access (.stored a result)) (s.memory.store p a result) (s.procs p)
  | .flush p => (s.memory.flush p).map fun memory => (.nothing, { s with memory := memory })

/-- The process has the lock. -/
def Holds (p : P) : Prop := (s.procs p).pc = .holding

/-- What a user owes: only the holder unlocks, and only it touches what is guarded. -/
def Admits (guarded : A → Prop) : SpinOp P A → Prop
  | .tas _ _ | .flush _ => True
  | .read _ random | .tasSpin _ random => random ≤ maxRandomValue
  | .unlock p => s.Holds p
  | .load p a | .setSpins p a | .updateSpins p a => guarded a → s.Holds p
  | .store p a _ | .putBack p a => a ≠ lock ∧ (guarded a → s.Holds p)

instance (guarded : A → Prop) [DecidablePred guarded] : ∀ op, Decidable (s.Admits lock guarded op)
  | .tas _ _ | .flush _ => inferInstanceAs (Decidable True)
  | .read _ random | .tasSpin _ random => inferInstanceAs (Decidable (random ≤ maxRandomValue))
  | .unlock p => inferInstanceAs (Decidable ((s.procs p).pc = .holding))
  | .load p a | .setSpins p a | .updateSpins p a =>
      inferInstanceAs (Decidable (guarded a → (s.procs p).pc = .holding))
  | .store p a _ | .putBack p a =>
      inferInstanceAs (Decidable (a ≠ lock ∧ (guarded a → (s.procs p).pc = .holding)))

variable {R lock s} {s' : SpinSystem P A} {p q : P} {proc : SpinProc} {memory : Buffered P A ℤ}
  {event : SpinEvent A} {random : ℕ} {site : CallSite} {guarded : A → Prop}

omit [DecidableEq A] in
@[simp] lemma move_memory : (s.move p memory proc).memory = memory := rfl

omit [DecidableEq A] in
lemma procs_move_self : (s.move p memory proc).procs p = proc := Function.update_self ..

omit [DecidableEq A] in
lemma procs_move_of_ne (h : q ≠ p) : (s.move p memory proc).procs q = s.procs q :=
  Function.update_of_ne h ..

omit [DecidableEq A] in
lemma holds_move_self : (s.move p memory proc).Holds p ↔ proc.pc = .holding := by
  rw [Holds, procs_move_self]

omit [DecidableEq A] in
lemma holds_move_of_ne (h : q ≠ p) : (s.move p memory proc).Holds q ↔ s.Holds q := by
  rw [Holds, procs_move_of_ne h, Holds]

omit [DecidableEq A] in
/-- The others hold the lock as before; so does the process, if its place says so. -/
lemma holds_move (h : proc.pc = .holding ↔ s.Holds p) :
    (s.move p memory proc).Holds q ↔ s.Holds q := by
  rcases eq_or_ne q p with rfl | hne
  · rw [holds_move_self, h]
  · exact holds_move_of_ne hne

/-! ### What a step does -/

omit [DecidableEq A] in
lemma again_cases (h : s.again R p memory random = some (event, s')) :
    ∃ spun, performSpinDelay R (s.procs p).spinsPerDelay (s.procs p).status random = some spun ∧
      event = .spun spun.printed spun.slept ∧
      s' = s.move p memory { s.procs p with pc := .reading, status := spun.status } := by
  obtain ⟨spun, hspun, hs⟩ := Option.bind_eq_some_iff.mp h
  obtain ⟨rfl, rfl⟩ := Prod.mk.inj (Option.some.inj hs)
  exact ⟨spun, hspun, rfl, rfl⟩

lemma tas_cases (h : s.tas lock p site = some (event, s')) :
    (s.procs p).pc = .outside ∧ ∃ res memory, s.memory.exchange p lock 1 = some (res, memory) ∧
      (res ≠ 0 ∧ event = .nothing ∧ s' = s.move p memory { s.procs p with
          pc := .reading
          status := initSpinDelay site.file site.line site.func } ∨
        res = 0 ∧ event = .returned 0 ∧
          s' = s.move p memory { s.procs p with pc := .holding }) := by
  rw [tas] at h
  split_ifs at h with hpc
  obtain ⟨⟨res, memory⟩, hm, hs⟩ := Option.bind_eq_some_iff.mp h
  refine ⟨hpc, res, memory, hm, ?_⟩
  dsimp only at hs
  split_ifs at hs with hres
  · obtain ⟨rfl, rfl⟩ := Prod.mk.inj (Option.some.inj hs)
    exact .inl ⟨hres, rfl, rfl⟩
  · obtain ⟨rfl, rfl⟩ := Prod.mk.inj (Option.some.inj hs)
    exact .inr ⟨not_not.mp hres, rfl, rfl⟩

lemma read_cases (h : s.read R lock p random = some (event, s')) :
    (s.procs p).pc = .reading ∧ (s.memory.load p lock ≠ 0 ∧
        s.again R p s.memory random = some (event, s') ∨
      s.memory.load p lock = 0 ∧ event = .nothing ∧
        s' = s.move p s.memory { s.procs p with pc := .testing }) := by
  rw [read] at h
  split_ifs at h with hpc hres
  · exact ⟨hpc, .inl ⟨hres, h⟩⟩
  · obtain ⟨rfl, rfl⟩ := Prod.mk.inj (Option.some.inj h)
    exact ⟨hpc, .inr ⟨not_not.mp hres, rfl, rfl⟩⟩

lemma tasSpin_cases (h : s.tasSpin R lock p random = some (event, s')) :
    (s.procs p).pc = .testing ∧ ∃ res memory, s.memory.exchange p lock 1 = some (res, memory) ∧
      (res ≠ 0 ∧ s.again R p memory random = some (event, s') ∨
        res = 0 ∧ event = .returned (s.procs p).status.delays ∧
          s' = s.move p memory { s.procs p with
            pc := .holding
            spinsPerDelay := finishSpinDelay (s.procs p).spinsPerDelay (s.procs p).status }) := by
  rw [tasSpin] at h
  split_ifs at h with hpc
  obtain ⟨⟨res, memory⟩, hm, hs⟩ := Option.bind_eq_some_iff.mp h
  refine ⟨hpc, res, memory, hm, ?_⟩
  dsimp only at hs
  split_ifs at hs with hres
  · exact .inl ⟨hres, hs⟩
  · obtain ⟨rfl, rfl⟩ := Prod.mk.inj (Option.some.inj hs)
    exact .inr ⟨not_not.mp hres, rfl, rfl⟩

omit [DecidableEq A] in
lemma own_cases {event' : SpinEvent A} (h : s.own p event memory proc = some (event', s')) :
    event' = event ∧ s' = s.move p memory proc := by
  rw [own] at h
  split_ifs at h
  obtain ⟨rfl, rfl⟩ := Prod.mk.inj (Option.some.inj h)
  exact ⟨rfl, rfl⟩

end SpinSystem

end CLibrary
