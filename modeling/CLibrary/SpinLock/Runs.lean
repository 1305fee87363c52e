import CLibrary.SpinLock.System

/-!
Runs of processes that share a spin lock.

* `SpinSystem.locked_step`: a step keeps the lock, and what it does to what the lock
  guards is what it does to a memory without buffers.
* `SpinInv`, `SpinInv.step`: so does a run.
* `spin_lock_serializes`: mutual exclusion, and no store is seen late.
* `SpinInv.frees`, `SpinInv.takes`: how a process gets the lock.  `spin_lock_never_blocks`.
* `SpinProc.InRange`, `SpinSystem.inRange_step`: the estimates.
  `spin_estimates_in_range`.
-/

namespace CLibrary

variable {P A : Type}

/-! ### The lock is a lock -/

namespace SpinSystem

variable [DecidableEq P] [DecidableEq A] {R : Rounding} {lock : A} {s s' : SpinSystem P A}
  {p q : P} {proc : SpinProc} {memory : Buffered P A ℤ} {event : SpinEvent A} {random : ℕ}
  {guarded : A → Prop} {owner : Option P} {data : A → ℤ}

/-- The lock of a system. -/
def IsLocked (lock : A) (guarded : A → Prop) (s : SpinSystem P A) (owner : Option P)
    (data : A → ℤ) : Prop :=
  Locked lock 0 guarded s.memory s.Holds owner data

/-- Trying once more leaves the lock. -/
lemma locked_again (h : Locked lock 0 guarded memory s.Holds owner data) (hp : ¬ s.Holds p)
    (hs : s.again R p memory random = some (event, s')) :
    IsLocked lock guarded s' owner data ∧ ∃ printed slept, event = .spun printed slept := by
  obtain ⟨spun, -, rfl, rfl⟩ := again_cases hs
  refine ⟨h.congr fun q => holds_move ?_, _, _, rfl⟩
  exact iff_of_false (by simp) hp

/-- A locked exchange of a process that does not hold the lock takes it, or finds it
taken. -/
lemma locked_exchange (proc : SpinProc) (h : IsLocked lock guarded s owner data)
    (hlock : ¬ guarded lock) {res : ℤ} (hm : s.memory.exchange p lock 1 = some (res, memory)) :
    (res ≠ 0 → Locked lock 0 guarded memory s.Holds owner data) ∧
      (res = 0 → proc.pc = .holding →
        IsLocked lock guarded (s.move p memory proc) (some p) data) := by
  constructor
  · exact Locked.exchange_busy h hlock one_ne_zero hm
  · rintro rfl hpc
    exact Locked.exchange_free h hlock one_ne_zero hm (holds_move_self.mpr hpc)
      fun q hq => holds_move_of_ne hq

variable [DecidablePred guarded]

/-- What a guarded access means, or nothing. -/
def Replays (guarded : A → Prop) [DecidablePred guarded] (data : A → ℤ) (event : SpinEvent A)
    (data' : A → ℤ) : Prop :=
  Run MemAccess.step (fun _ _ => True) data (guardedAccesses guarded [event]) data'

omit [DecidableEq P] in
lemma Replays.loaded {a : A} {v : ℤ} (h : guarded a → v = data a) :
    Replays guarded data (.access (.loaded a v)) data := by
  rw [Replays, guardedAccesses]
  by_cases ha : guarded a
  · have hstep : MemAccess.step data (.loaded a v) = some data := if_pos (h ha).symm
    simpa [ha] using Run.single trivial hstep
  · simpa [ha] using Run.nil

lemma Replays.stored {a : A} {v : ℤ} (ha : guarded a) :
    Replays guarded data (.access (.stored a v)) (Function.update data a v) := by
  have hstep : MemAccess.step data (.stored a v) = some (Function.update data a v) := rfl
  simpa [Replays, guardedAccesses, ha] using Run.single trivial hstep

lemma Replays.stored_other {a : A} {v : ℤ} (ha : ¬ guarded a) :
    Replays guarded data (.access (.stored a v)) data := by
  simpa [Replays, guardedAccesses, ha] using Run.nil

lemma Replays.silent (h : guardedAccesses guarded [event] = []) :
    Replays guarded data event data := by
  rw [Replays, h]
  exact .nil

/-- A process of its own accord loads. -/
lemma locked_load (h : IsLocked lock guarded s owner data) {a : A}
    (ha : guarded a → s.Holds p) (hpc : proc.pc = (s.procs p).pc) :
    IsLocked lock guarded (s.move p s.memory proc) owner data ∧
      Replays guarded data (.access (.loaded a (s.memory.load p a))) data :=
  ⟨Locked.congr h fun q => holds_move (by rw [hpc, Holds]),
    Replays.loaded fun hg => Locked.load h (ha hg) hg⟩

/-- A process of its own accord stores. -/
lemma locked_store (h : IsLocked lock guarded s owner data) {a : A} {v : ℤ} (hne : a ≠ lock)
    (ha : guarded a → s.Holds p) :
    ∃ data', IsLocked lock guarded (s.move p (s.memory.store p a v) (s.procs p)) owner data' ∧
      Replays guarded data (.access (.stored a v)) data' := by
  by_cases hg : guarded a
  · exact ⟨_, (Locked.store h (ha hg) hne).congr fun q => holds_move Iff.rfl, Replays.stored hg⟩
  · exact ⟨data, (Locked.store_other h hne hg).congr fun q => holds_move Iff.rfl,
      Replays.stored_other hg⟩

/-- Every step that is admitted keeps the lock, and what it does to what the lock
guards is what it does to a memory without buffers. -/
lemma locked_step (h : IsLocked lock guarded s owner data) (hlock : ¬ guarded lock)
    {op : SpinOp P A} (hop : s.Admits lock guarded op) (hs : s.step R lock op = some (event, s')) :
    ∃ owner' data', IsLocked lock guarded s' owner' data' ∧ Replays guarded data event data' := by
  cases op with
  | tas p site =>
    obtain ⟨hpc, res, memory, hm, ⟨hres, rfl, rfl⟩ | ⟨hres, rfl, rfl⟩⟩ := tas_cases hs
    · have hlocked := (locked_exchange (s.procs p) h hlock hm).1 hres
      refine ⟨owner, data, hlocked.congr fun q => holds_move ?_, .silent rfl⟩
      exact iff_of_false (by simp) (by simp [Holds, hpc])
    · exact ⟨some p, data, (locked_exchange _ h hlock hm).2 hres rfl, .silent rfl⟩
  | read p random =>
    obtain ⟨hpc, ⟨-, hagain⟩ | ⟨-, rfl, rfl⟩⟩ := read_cases hs
    · obtain ⟨h', printed, slept, rfl⟩ := locked_again h (by simp [Holds, hpc]) hagain
      exact ⟨owner, data, h', .silent rfl⟩
    · refine ⟨owner, data, Locked.congr h fun q => holds_move ?_, .silent rfl⟩
      exact iff_of_false (by simp) (by simp [Holds, hpc])
  | tasSpin p random =>
    obtain ⟨hpc, res, memory, hm, ⟨hres, hagain⟩ | ⟨hres, rfl, rfl⟩⟩ := tasSpin_cases hs
    · have hlocked := (locked_exchange (s.procs p) h hlock hm).1 hres
      obtain ⟨h', printed, slept, rfl⟩ := locked_again hlocked (by simp [Holds, hpc]) hagain
      exact ⟨owner, data, h', .silent rfl⟩
    · exact ⟨some p, data, (locked_exchange _ h hlock hm).2 hres rfl, .silent rfl⟩
  | unlock p =>
    obtain ⟨rfl, rfl⟩ := own_cases hs
    refine ⟨owner, data, Locked.unlock h hlock hop ?_ fun q hq => holds_move_of_ne hq, .silent rfl⟩
    rw [holds_move_self]
    simp
  | load p a =>
    obtain ⟨rfl, rfl⟩ := own_cases hs
    exact ⟨owner, data, locked_load h hop rfl⟩
  | store p a v =>
    obtain ⟨rfl, rfl⟩ := own_cases hs
    exact ⟨owner, locked_store h hop.1 hop.2⟩
  | setSpins p a =>
    obtain ⟨rfl, rfl⟩ := own_cases hs
    exact ⟨owner, data, locked_load h hop rfl⟩
  | updateSpins p a =>
    obtain ⟨result, -, hown⟩ := Option.bind_eq_some_iff.mp hs
    obtain ⟨rfl, rfl⟩ := own_cases hown
    exact ⟨owner, data, locked_load h hop rfl⟩
  | putBack p a =>
    obtain ⟨result, -, hown⟩ := Option.bind_eq_some_iff.mp hs
    obtain ⟨rfl, rfl⟩ := own_cases hown
    exact ⟨owner, locked_store h hop.1 hop.2⟩
  | flush p =>
    obtain ⟨memory, hm, heq⟩ := Option.map_eq_some_iff.mp hs
    obtain ⟨rfl, rfl⟩ := Prod.mk.inj heq
    obtain ⟨owner', -, h'⟩ := Locked.flush h hm
    exact ⟨owner', data, h', .silent rfl⟩

end SpinSystem

/-- What holds in every run: the lock is owned, and the guarded accesses so far are
those of a memory without buffers, which holds `data` now. -/
def SpinInv (lock : A) (guarded : A → Prop) [DecidablePred guarded] (init : A → ℤ)
    (t : SpinSystem P A × List (SpinEvent A)) (owner : Option P) (data : A → ℤ) [DecidableEq A] :
    Prop :=
  t.1.IsLocked lock guarded owner data ∧
    Run MemAccess.step (fun _ _ => True) init (guardedAccesses guarded t.2) data

section Runs

variable [DecidableEq P] [DecidableEq A] {R : Rounding} {lock : A} {guarded : A → Prop}
  [DecidablePred guarded] {init : A → ℤ}

lemma SpinInv.step {t : SpinSystem P A × List (SpinEvent A)} {owner : Option P} {data : A → ℤ}
    (h : SpinInv lock guarded init t owner data) (hlock : ¬ guarded lock) {op : SpinOp P A}
    (hop : t.1.Admits lock guarded op) {event : SpinEvent A} {s' : SpinSystem P A}
    (hs : t.1.step R lock op = some (event, s')) :
    ∃ owner' data', SpinInv lock guarded init (s', t.2 ++ [event]) owner' data' ∧
      SpinSystem.Replays guarded data event data' := by
  obtain ⟨owner', data', h', hreplay⟩ := SpinSystem.locked_step h.1 hlock hop hs
  refine ⟨owner', data', ⟨h', ?_⟩, hreplay⟩
  rw [guardedAccesses, List.filterMap_append]
  exact h.2.append hreplay

omit [DecidableEq P] in
lemma SpinInv.start (hinit : init lock = 0) :
    SpinInv lock guarded init (SpinSystem.start (P := P) init, []) none init :=
  ⟨Locked.start hinit fun p => by simp [SpinSystem.Holds, SpinSystem.start], .nil⟩

lemma SpinInv.of_run (hlock : ¬ guarded lock) (hinit : init lock = 0) {ops : List (SpinOp P A)}
    {t : SpinSystem P A × List (SpinEvent A)}
    (h : Run (traced fun s op => s.step R lock op) (fun t op => t.1.Admits lock guarded op)
      (SpinSystem.start init, []) ops t) :
    ∃ owner data, SpinInv lock guarded init t owner data :=
  h.invariant (I := fun _ t => ∃ owner data, SpinInv lock guarded init t owner data)
    ⟨none, init, SpinInv.start hinit⟩ fun _ _ _ _ ⟨_, _, ht⟩ hop hs => by
      obtain ⟨⟨event, s'⟩, hstep, rfl⟩ := Option.map_eq_some_iff.mp hs
      obtain ⟨owner', data', h', -⟩ := ht.step hlock hop hstep
      exact ⟨owner', data', h'⟩

/-- **A spin lock serializes**: whatever any number of processes do that touch what the
lock guards only with the lock, and however late their stores reach the memory, at most
one has the lock at a time; the accesses to what is guarded, in the order in which they
were made, are those of a memory without buffers; who has the lock sees that memory, and
while nobody has it, it is the memory. -/
theorem spin_lock_serializes (hlock : ¬ guarded lock) (hinit : init lock = 0)
    {ops : List (SpinOp P A)} {t : SpinSystem P A × List (SpinEvent A)}
    (h : Run (traced fun s op => s.step R lock op) (fun t op => t.1.Admits lock guarded op)
      (SpinSystem.start init, []) ops t) :
    (∀ p q, t.1.Holds p → t.1.Holds q → p = q) ∧
      ∃ data, Run MemAccess.step (fun _ _ => True) init (guardedAccesses guarded t.2) data ∧
        (∀ p a, t.1.Holds p → guarded a → t.1.memory.load p a = data a) ∧
        (t.1.memory.mem lock = 0 → ∀ a, guarded a → t.1.memory.mem a = data a) := by
  obtain ⟨owner, data, hlocked, hreplay⟩ := SpinInv.of_run hlock hinit h
  exact ⟨fun p q => Locked.exclusive hlocked, data, hreplay,
    fun p a hp ha => Locked.load hlocked hp ha, fun hfree a ha => Locked.mem_eq hlocked hfree ha⟩

/-- A process waits until a store and the unlock behind it have drained. -/
theorem spin_lock_serializes_run : ∃ (t : SpinSystem Bool ℕ × List (SpinEvent ℕ)) (data : ℕ → ℤ),
    t.2 = [.returned 0, .access (.stored 2 5), .nothing, .spun none none, .nothing, .spun none none,
        .nothing, .nothing, .nothing, .returned 0, .access (.loaded 2 5)] ∧
      Run MemAccess.step (fun _ _ => True) (fun _ => 0) (guardedAccesses (0 < ·) t.2) data ∧
      t.1.memory.load false 2 = data 2 := by
  have hexec : (exec (fun (t : SpinSystem Bool ℕ × List (SpinEvent ℕ)) op =>
        if t.1.Admits 0 (0 < ·) op then
          traced (fun s op => SpinSystem.step Rounding.exact 0 s op) t op else none)
      (SpinSystem.start fun _ => 0, [])
      [.tas true ⟨"main.c", 1, none⟩, .store true 2 5, .tas false ⟨"main.c", 2, none⟩,
        .read false 7, .unlock true, .read false 7, .flush true, .flush true, .read false 7,
        .tasSpin false 7, .load false 2]).map (fun t => (t.2, (t.1.procs false).pc)) =
      some ([.returned 0, .access (.stored 2 5), .nothing, .spun none none, .nothing,
        .spun none none, .nothing, .nothing, .nothing, .returned 0, .access (.loaded 2 5)],
        .holding) := by
    decide
  obtain ⟨t, ht, hout⟩ := Option.map_eq_some_iff.mp hexec
  obtain ⟨hevents, hpc⟩ := Prod.mk.inj hout
  obtain ⟨-, data, hreplay, hload, -⟩ := spin_lock_serializes (lt_irrefl 0) rfl
    (run_of_exec_guarded ht)
  exact ⟨t, data, hevents, hreplay, hload false 2 hpc (by decide)⟩

/-! ### Nobody waits in vain -/

/-- The steps that let `p` have the lock: its own in `S_LOCK`, the holder's unlock, and
the stores that drain. -/
def SpinOp.Helps (p : P) : SpinOp P A → Prop
  | .tas q _ | .read q _ | .tasSpin q _ => q = p
  | .unlock _ | .flush _ => True
  | _ => False

/-- A continuation of a run of such steps. -/
def Leads (R : Rounding) (lock : A) (guarded : A → Prop) (p : P)
    (t u : SpinSystem P A × List (SpinEvent A)) : Prop :=
  ∃ ops, (∀ op ∈ ops, SpinOp.Helps p op) ∧
    Run (traced fun s op => s.step R lock op) (fun t op => t.1.Admits lock guarded op) t ops u

section Leads

omit [DecidablePred guarded]

variable {p q : P} {t u w : SpinSystem P A × List (SpinEvent A)} {owner : Option P} {data : A → ℤ}

lemma Leads.refl : Leads R lock guarded p t t := ⟨[], fun _ h => absurd h List.not_mem_nil, .nil⟩

lemma Leads.trans (h : Leads R lock guarded p t u) (h' : Leads R lock guarded p u w) :
    Leads R lock guarded p t w := by
  obtain ⟨ops, hhelps, hrun⟩ := h
  obtain ⟨ops', hhelps', hrun'⟩ := h'
  refine ⟨ops ++ ops', fun op hop => ?_, hrun.append hrun'⟩
  rcases List.mem_append.mp hop with hop | hop
  · exact hhelps op hop
  · exact hhelps' op hop

lemma Leads.single (op : SpinOp P A) {event : SpinEvent A} {s' : SpinSystem P A}
    (hhelps : SpinOp.Helps p op) (hop : t.1.Admits lock guarded op)
    (hs : t.1.step R lock op = some (event, s')) :
    Leads R lock guarded p t (s', t.2 ++ [event]) := by
  refine ⟨[op], fun op' hop' => ?_, ?_⟩
  · rw [List.mem_singleton.mp hop']
    exact hhelps
  · have hstep : traced (fun s op => s.step R lock op) t op = some (s', t.2 ++ [event]) := by
      rw [traced, hs, Option.map_some]
    exact Run.single hop hstep

/-- The stores of a process drain. -/
lemma leads_drained (h : t.1.IsLocked lock guarded owner data) (q : P) :
    ∃ u owner', Leads R lock guarded p t u ∧ u.1.procs = t.1.procs ∧ u.1.memory.buf q = [] ∧
      (owner' = owner ∨ owner' = none) ∧ u.1.IsLocked lock guarded owner' data := by
  generalize hl : t.1.memory.buf q = l
  induction l generalizing t owner with
  | nil => exact ⟨t, owner, .refl, rfl, hl, .inl rfl, h⟩
  | cons x l ih =>
    have hm := Buffered.flush_eq_some.mpr ⟨x, l, hl, rfl⟩
    have hs : t.1.step R lock (.flush q) = some (.nothing, { t.1 with
        memory := ⟨Function.update t.1.memory.mem x.1 x.2,
          Function.update t.1.memory.buf q l⟩ }) := by
      rw [SpinSystem.step, hm, Option.map_some]
    obtain ⟨owner₁, howner₁, h₁⟩ := Locked.flush h hm
    obtain ⟨u, owner', hleads, hprocs, hbuf, howner', h'⟩ :=
      ih (t := ({ t.1 with memory := ⟨Function.update t.1.memory.mem x.1 x.2,
        Function.update t.1.memory.buf q l⟩ }, t.2 ++ [.nothing])) h₁ (Function.update_self ..)
    refine ⟨u, owner', (Leads.single (.flush q) trivial trivial hs).trans hleads, hprocs,
      hbuf, ?_, h'⟩
    rcases howner' with rfl | rfl
    · exact howner₁
    · exact .inr rfl

/-- An owner that has left gives the lock up. -/
lemma leads_left (h : t.1.IsLocked lock guarded (some q) data) (hq : ¬ t.1.Holds q) :
    ∃ u, Leads R lock guarded p t u ∧ u.1.procs = t.1.procs ∧
      u.1.IsLocked lock guarded none data := by
  obtain ⟨u, owner', hleads, hprocs, hbuf, rfl | rfl, h'⟩ := leads_drained (R := R) h q
  · have hnot : ¬ u.1.Holds q := by
      rw [SpinSystem.Holds, hprocs]
      exact hq
    obtain ⟨l₁, l₂, hsplit, -⟩ := Locked.leaving h' q rfl hnot
    rw [hbuf] at hsplit
    simp at hsplit
  · exact ⟨u, hleads, hprocs, h'⟩

/-- The lock becomes free, and a process that does not hold it stays where it is. -/
lemma leads_free (h : t.1.IsLocked lock guarded owner data) (hlock : ¬ guarded lock)
    (hp : ¬ t.1.Holds p) :
    ∃ u, Leads R lock guarded p t u ∧ u.1.procs p = t.1.procs p ∧
      u.1.IsLocked lock guarded none data := by
  cases owner with
  | none => exact ⟨t, .refl, rfl, h⟩
  | some q =>
    by_cases hq : t.1.Holds q
    · have hne : p ≠ q := by
        rintro rfl
        exact hp hq
      have hs : t.1.step R lock (.unlock q) = some (.nothing, t.1.move q
          (t.1.memory.store q lock 0) { t.1.procs q with pc := .outside }) := by
        rw [SpinSystem.step, SpinSystem.own, if_pos (.inr hq)]
      have hleft : ¬ (t.1.move q (t.1.memory.store q lock 0)
          { t.1.procs q with pc := .outside }).Holds q := by
        rw [SpinSystem.holds_move_self]
        simp
      have h₁ : (t.1.move q (t.1.memory.store q lock 0)
          { t.1.procs q with pc := .outside }).IsLocked lock guarded (some q) data :=
        Locked.unlock h hlock hq hleft fun x hx => SpinSystem.holds_move_of_ne hx
      obtain ⟨u, hleads, hprocs, h'⟩ :=
        leads_left (R := R) (p := p) (t := (_, t.2 ++ [.nothing])) h₁ hleft
      refine ⟨u, (Leads.single (.unlock q) trivial hq hs).trans hleads, ?_, h'⟩
      rw [hprocs]
      exact SpinSystem.procs_move_of_ne hne
    · obtain ⟨u, hleads, hprocs, h'⟩ := leads_left (R := R) (p := p) h hq
      exact ⟨u, hleads, by rw [hprocs], h'⟩

/-- A process that tests a free lock gets it. -/
lemma leads_tested (hpc : (t.1.procs p).pc = .testing) (hbuf : t.1.memory.buf p = [])
    (hfree : t.1.memory.mem lock = 0) : ∃ u, Leads R lock guarded p t u ∧ u.1.Holds p := by
  have hm : t.1.memory.exchange p lock 1 =
      some (0, { t.1.memory with mem := Function.update t.1.memory.mem lock 1 }) :=
    Buffered.exchange_eq_some.mpr ⟨hbuf, hfree.symm, rfl⟩
  have hs : t.1.step R lock (.tasSpin p 0) = some (.returned (t.1.procs p).status.delays,
      t.1.move p { t.1.memory with mem := Function.update t.1.memory.mem lock 1 }
        { t.1.procs p with
          pc := .holding
          spinsPerDelay := finishSpinDelay (t.1.procs p).spinsPerDelay (t.1.procs p).status }) := by
    rw [SpinSystem.step, SpinSystem.tasSpin, if_pos hpc, hm]
    rfl
  refine ⟨_, Leads.single (.tasSpin p 0) rfl (Nat.zero_le _) hs, ?_⟩
  rw [SpinSystem.holds_move_self]

/-- Wherever a process is, it gets a free lock. -/
lemma leads_taken (h : t.1.IsLocked lock guarded none data) :
    ∃ u, Leads R lock guarded p t u ∧ u.1.Holds p := by
  obtain ⟨u, owner', hleads, hprocs, hbuf, howner, h'⟩ := leads_drained (R := R) (p := p) h p
  obtain rfl : owner' = none := by simpa using howner
  have hfree : u.1.memory.mem lock = 0 := h'.free_iff.mpr rfl
  suffices htaken : ∃ w, Leads R lock guarded p u w ∧ w.1.Holds p by
    obtain ⟨w, hleads', hw⟩ := htaken
    exact ⟨w, hleads.trans hleads', hw⟩
  cases hpc : (u.1.procs p).pc with
  | outside =>
    have hm : u.1.memory.exchange p lock 1 =
        some (0, { u.1.memory with mem := Function.update u.1.memory.mem lock 1 }) :=
      Buffered.exchange_eq_some.mpr ⟨hbuf, hfree.symm, rfl⟩
    have hs : u.1.step R lock (.tas p ⟨"", 0, none⟩) = some (.returned 0,
        u.1.move p { u.1.memory with mem := Function.update u.1.memory.mem lock 1 }
          { u.1.procs p with pc := .holding }) := by
      rw [SpinSystem.step, SpinSystem.tas, if_pos hpc, hm]
      rfl
    refine ⟨_, Leads.single (.tas p ⟨"", 0, none⟩) rfl trivial hs, ?_⟩
    rw [SpinSystem.holds_move_self]
  | reading =>
    have hload : u.1.memory.load p lock = 0 := by rw [Buffered.load, hbuf, drain_nil, hfree]
    have hs : u.1.step R lock (.read p 0) = some (.nothing,
        u.1.move p u.1.memory { u.1.procs p with pc := .testing }) := by
      rw [SpinSystem.step, SpinSystem.read, if_pos hpc, if_neg (not_not.mpr hload)]
    have hleads₁ : Leads R lock guarded p u (_, u.2 ++ [.nothing]) :=
      Leads.single (.read p 0) rfl (Nat.zero_le _) hs
    obtain ⟨w, hleads₂, hw⟩ : ∃ w, Leads R lock guarded p (_, u.2 ++ [.nothing]) w ∧ w.1.Holds p :=
      leads_tested
        (t := (u.1.move p u.1.memory { u.1.procs p with pc := .testing }, u.2 ++ [.nothing]))
        (congrArg SpinProc.pc SpinSystem.procs_move_self) hbuf hfree
    exact ⟨w, hleads₁.trans hleads₂, hw⟩
  | testing => exact leads_tested hpc hbuf hfree
  | holding => exact ⟨u, .refl, hpc⟩

end Leads

/-- **No process is locked out**: after every run every process can get the lock by
steps of its own, an unlock by who has it, and stores that drain. -/
theorem spin_lock_never_blocks (hlock : ¬ guarded lock) (hinit : init lock = 0)
    {ops : List (SpinOp P A)} {t : SpinSystem P A × List (SpinEvent A)}
    (h : Run (traced fun s op => s.step R lock op) (fun t op => t.1.Admits lock guarded op)
      (SpinSystem.start init, []) ops t) (p : P) :
    ∃ ops' u, (∀ op ∈ ops', SpinOp.Helps p op) ∧
      Run (traced fun s op => s.step R lock op) (fun t op => t.1.Admits lock guarded op) t ops' u ∧
      u.1.Holds p := by
  obtain ⟨owner, data, hlocked, -⟩ := SpinInv.of_run hlock hinit h
  by_cases hp : t.1.Holds p
  · exact ⟨[], t, fun _ hop => absurd hop List.not_mem_nil, .nil, hp⟩
  · obtain ⟨u, hfree, -, hu⟩ := leads_free (R := R) hlocked hlock hp
    obtain ⟨w, htaken, hw⟩ := leads_taken (R := R) (p := p) hu
    obtain ⟨ops', hhelps, hrun⟩ := hfree.trans htaken
    exact ⟨ops', w, hhelps, hrun, hw⟩

/-- One process has the lock and another one waits. -/
theorem spin_lock_never_blocks_run : ∃ (t u : SpinSystem Bool ℕ × List (SpinEvent ℕ)) (ops' : _),
    t.2 = [.returned 0, .nothing] ∧ (∀ op ∈ ops', SpinOp.Helps false op) ∧
      Run (traced fun s op => SpinSystem.step Rounding.exact 0 s op)
        (fun t op => t.1.Admits 0 (0 < ·) op) t ops' u ∧ u.1.Holds false := by
  have hexec : (exec (fun (t : SpinSystem Bool ℕ × List (SpinEvent ℕ)) op =>
        if t.1.Admits 0 (0 < ·) op then
          traced (fun s op => SpinSystem.step Rounding.exact 0 s op) t op else none)
      (SpinSystem.start fun _ => 0, [])
      [.tas true ⟨"main.c", 1, none⟩, .tas false ⟨"main.c", 2, none⟩]).map Prod.snd =
      some [.returned 0, .nothing] := by
    decide
  obtain ⟨t, ht, hevents⟩ := Option.map_eq_some_iff.mp hexec
  obtain ⟨ops', u, hhelps, hrun, hu⟩ := spin_lock_never_blocks (lt_irrefl 0) rfl
    (run_of_exec_guarded ht) false
  exact ⟨t, u, ops', hevents, hhelps, hrun, hu⟩

/-! ### The estimates -/

/-- The estimate of a process, and what it is about to put back. -/
def SpinProc.InRange (proc : SpinProc) : Prop :=
  CLibrary.InRange proc.spinsPerDelay ∧ ∀ r ∈ proc.result, CLibrary.InRange r

/-- The shared estimate is at `est`, and only the routines that support it touch it. -/
def SpinOp.KeepsEstimate (est : A) : SpinOp P A → Prop
  | .store _ a _ => a ≠ est
  | .setSpins _ a | .updateSpins _ a => a = est
  | _ => True

instance (est : A) : ∀ op : SpinOp P A, Decidable (op.KeepsEstimate est)
  | .store _ a _ => inferInstanceAs (Decidable (a ≠ est))
  | .setSpins _ a | .updateSpins _ a => inferInstanceAs (Decidable (a = est))
  | .tas _ _ | .read _ _ | .tasSpin _ _ | .unlock _ | .load _ _ | .putBack _ _ | .flush _ =>
      inferInstanceAs (Decidable True)

section Estimates

variable {est : A} {event : SpinEvent A} {s s' : SpinSystem P A} {p : P}

omit [DecidableEq A] in
/-- The processes that do not move keep theirs. -/
lemma inRange_move {memory : Buffered P A ℤ} {proc : SpinProc}
    (h : ∀ q, (s.procs q).InRange) (hproc : proc.InRange) (q : P) :
    ((s.move p memory proc).procs q).InRange := by
  rcases eq_or_ne q p with rfl | hne
  · rw [SpinSystem.procs_move_self]
    exact hproc
  · rw [SpinSystem.procs_move_of_ne hne]
    exact h q

omit [DecidableEq A] in
lemma inRange_again {memory : Buffered P A ℤ} {random : ℕ} (hshared : memory.Always est InRange)
    (h : ∀ q, (s.procs q).InRange) (hs : s.again R p memory random = some (event, s')) :
    s'.memory.Always est InRange ∧ ∀ q, (s'.procs q).InRange := by
  obtain ⟨spun, -, -, rfl⟩ := SpinSystem.again_cases hs
  exact ⟨hshared, inRange_move h (h p)⟩

/-- Every step leaves the estimates in range: what a process loads from the shared one,
or is about to put back, is. -/
lemma inRange_step (hest : est ≠ lock) (hshared : s.memory.Always est InRange)
    (hprocs : ∀ q, (s.procs q).InRange) {op : SpinOp P A} (hkeeps : op.KeepsEstimate est)
    (hs : s.step R lock op = some (event, s')) :
    s'.memory.Always est InRange ∧ ∀ q, (s'.procs q).InRange := by
  cases op with
  | tas p site =>
    obtain ⟨-, res, memory, hm, ⟨-, rfl, rfl⟩ | ⟨-, rfl, rfl⟩⟩ := SpinSystem.tas_cases hs
    · exact ⟨hshared.exchange hest.symm hm, inRange_move hprocs (hprocs p)⟩
    · exact ⟨hshared.exchange hest.symm hm, inRange_move hprocs (hprocs p)⟩
  | read p random =>
    obtain ⟨-, ⟨-, hagain⟩ | ⟨-, rfl, rfl⟩⟩ := SpinSystem.read_cases hs
    · exact inRange_again hshared hprocs hagain
    · exact ⟨hshared, inRange_move hprocs (hprocs p)⟩
  | tasSpin p random =>
    obtain ⟨-, res, memory, hm, ⟨-, hagain⟩ | ⟨-, rfl, rfl⟩⟩ := SpinSystem.tasSpin_cases hs
    · exact inRange_again (hshared.exchange hest.symm hm) hprocs hagain
    · exact ⟨hshared.exchange hest.symm hm,
        inRange_move hprocs ⟨(hprocs p).1.finish _, (hprocs p).2⟩⟩
  | unlock p =>
    obtain ⟨rfl, rfl⟩ := SpinSystem.own_cases hs
    exact ⟨hshared.store fun heq => absurd heq.symm hest, inRange_move hprocs (hprocs p)⟩
  | load p a =>
    obtain ⟨rfl, rfl⟩ := SpinSystem.own_cases hs
    exact ⟨hshared, inRange_move hprocs (hprocs p)⟩
  | store p a v =>
    obtain ⟨rfl, rfl⟩ := SpinSystem.own_cases hs
    exact ⟨hshared.store fun heq => absurd heq hkeeps, inRange_move hprocs (hprocs p)⟩
  | setSpins p a =>
    obtain ⟨rfl, rfl⟩ := SpinSystem.own_cases hs
    obtain rfl : a = est := hkeeps
    exact ⟨hshared, inRange_move hprocs ⟨hshared.load p, (hprocs p).2⟩⟩
  | updateSpins p a =>
    obtain ⟨result, hresult, hown⟩ := Option.bind_eq_some_iff.mp hs
    obtain ⟨rfl, rfl⟩ := SpinSystem.own_cases hown
    obtain rfl : a = est := hkeeps
    refine ⟨hshared, inRange_move hprocs ⟨(hprocs p).1, fun r hr => ?_⟩⟩
    obtain ⟨next, hnext, hin, -⟩ := (hprocs p).1.update (hshared.load p)
    obtain rfl : next = r := Option.some.inj (hnext.symm.trans (hresult.trans hr))
    exact hin
  | putBack p a =>
    obtain ⟨result, hresult, hown⟩ := Option.bind_eq_some_iff.mp hs
    obtain ⟨rfl, rfl⟩ := SpinSystem.own_cases hown
    exact ⟨hshared.store fun _ => (hprocs p).2 result hresult, inRange_move hprocs (hprocs p)⟩
  | flush p =>
    obtain ⟨memory, hm, heq⟩ := Option.map_eq_some_iff.mp hs
    obtain ⟨rfl, rfl⟩ := Prod.mk.inj heq
    exact ⟨hshared.flush hm, hprocs⟩

end Estimates

omit [DecidablePred guarded] in
/-- **The estimates stay in range**: if the shared estimate is between ten and a
thousand, and is touched only with the lock and by `set_spins_per_delay` and
`update_spins_per_delay`, those of all processes stay there, and so does it: what is in
memory, also while an unlock is under way, and what any process sees of it.  Who has the
lock can always update it. -/
theorem spin_estimates_in_range {est : A} (hlock : ¬ guarded lock) (hest : guarded est)
    (hrange : InRange (init est)) {ops : List (SpinOp P A)}
    {t : SpinSystem P A × List (SpinEvent A)}
    (h : Run (traced fun s op => s.step R lock op)
      (fun t op => t.1.Admits lock guarded op ∧ op.KeepsEstimate est)
      (SpinSystem.start init, []) ops t) :
    (∀ p, InRange (t.1.procs p).spinsPerDelay) ∧ InRange (t.1.memory.mem est) ∧
      (∀ p, InRange (t.1.memory.load p est)) ∧
      ∀ p, t.1.Holds p → ∃ u, t.1.step R lock (.updateSpins p est) = some u := by
  have hne : est ≠ lock := fun heq => hlock (heq ▸ hest)
  obtain ⟨hshared, hprocs⟩ := h.invariant (I := fun _ t =>
      t.1.memory.Always est InRange ∧ ∀ q, (t.1.procs q).InRange)
    ⟨.start hrange, fun q => ⟨inRange_default, fun r hr => by cases hr⟩⟩
    fun _ t op u ⟨hshared, hprocs⟩ ⟨_, hkeeps⟩ hs => by
      obtain ⟨⟨event, s'⟩, hstep, rfl⟩ := Option.map_eq_some_iff.mp hs
      exact inRange_step hne hshared hprocs hkeeps hstep
  refine ⟨fun p => (hprocs p).1, hshared.mem, hshared.load, fun p hp => ?_⟩
  obtain ⟨next, hnext, -⟩ := (hprocs p).1.update (hshared.load p)
  have hown : t.1.own p (.access (.loaded est (t.1.memory.load p est))) t.1.memory
      { t.1.procs p with result := some next } = some (.access (.loaded est
        (t.1.memory.load p est)), t.1.move p t.1.memory
          { t.1.procs p with result := some next }) := if_pos (.inr hp)
  exact ⟨_, by rw [SpinSystem.step, hnext]; exact hown⟩

/-- A process with the default estimate takes a higher one down. -/
theorem spin_estimates_in_range_run : ∃ t : SpinSystem Bool ℕ × List (SpinEvent ℕ),
    t.2 = [.returned 0, .access (.loaded 1 500), .nothing, .nothing, .returned 0,
        .access (.loaded 1 500), .access (.stored 1 475)] ∧
      InRange (t.1.memory.mem 1) ∧ InRange (t.1.memory.load false 1) := by
  have hexec : (exec (fun (t : SpinSystem Bool ℕ × List (SpinEvent ℕ)) op =>
        if t.1.Admits 0 (0 < ·) op ∧ op.KeepsEstimate 1 then
          traced (fun s op => SpinSystem.step Rounding.exact 0 s op) t op else none)
      (SpinSystem.start fun a => if a = 1 then 500 else 0, [])
      [.tas true ⟨"main.c", 1, none⟩, .setSpins true 1, .unlock true, .flush true,
        .tas false ⟨"main.c", 2, none⟩, .updateSpins false 1, .putBack false 1]).map
          Prod.snd =
      some [.returned 0, .access (.loaded 1 500), .nothing, .nothing, .returned 0,
        .access (.loaded 1 500), .access (.stored 1 475)] := by
    decide
  obtain ⟨t, ht, hevents⟩ := Option.map_eq_some_iff.mp hexec
  obtain ⟨-, hmem, hload, -⟩ := spin_estimates_in_range (lt_irrefl 0) (show 0 < 1 by decide)
    ⟨by decide, by decide⟩ (run_of_exec_guarded ht)
  exact ⟨t, hevents, hmem, hload false⟩

end Runs

end CLibrary
