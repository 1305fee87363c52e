import CLibrary.Library.Runs
import CLibrary.RingBuffer.Threads

/-!
`TRY_LOCK` waits for the lock.

The macro calls `pthread_spin_lock`, as `LOCK` does, so `zx_ringbuffer_try_swrite`
and `zx_ringbuffer_try_sread` stand before a lock that another thread holds
until that thread gives it back.  `zx_ringbuffer_try_write` promises to return
at once in that case, and of the `_bl` variants it is said that they, unlike
these two, block on the lock.

* `RingState.TryWaits`: a thread is in front of `TRY_LOCK` while another thread
  holds the lock.  `RingState.Prompt` says that it returns 0 then.
* `try_swrite_waits`: an early test passes on a ring with room, a bulk write
  takes the lock, fills the ring and waits for a reader.
* `overlap_waits`: so does every such call made while another thread has the
  lock, unless its early test fails.
* `Apart`: calls with `TRY_LOCK` are kept apart from the other calls that lock
  the same side.  `Behind`, `Behind.step`: then whoever is under way with such a
  call is behind its lock, if anybody else is there.
* `try_lock_prompt`: in the runs of such calls no thread ever waits at
  `TRY_LOCK`.  `Mix.apart`: the mixes of calls all of whose runs are of the kind.
-/

namespace CLibrary

variable {τ α : Type*}

/-- Thread `t` is in front of `TRY_LOCK`, and another thread holds the lock. -/
def RingState.TryWaits (s : RingState τ α) (t : τ) : Prop :=
  ∃ f, s.frame t = some f ∧ f.pc = .lock ∧ f.call.lock = .tryLock ∧
    ∃ u, u ≠ t ∧ s.spin f.call.side = some u

namespace RingPc

/-- In front of the lock. -/
def atLock : RingPc α → Bool
  | .lock => true
  | _ => false

lemma atLock_iff {pc : RingPc α} : pc.atLock = true ↔ pc = .lock := by
  cases pc <;> simp [atLock]

end RingPc

/-- A thread that waits cannot move. -/
lemma RingState.TryWaits.stuck [DecidableEq τ] {s : RingState τ α} {t : τ} (h : s.TryWaits t) :
    s.move t = none := by
  obtain ⟨⟨call, work, pc, turns⟩, hf, rfl, -, u, -, hspin⟩ := h
  simp only [RingState.move, hf]
  rw [hspin]

/-- What `TRY_LOCK(…, return 0;)` is for: a call that finds the lock with another
thread returns 0 and leaves the ring as it is. -/
def RingState.Prompt [DecidableEq τ] (s : RingState τ α) : Prop :=
  ∀ t, s.TryWaits t → ∃ f s', s.frame t = some f ∧ s.move t = some s' ∧
    s'.ring = s.ring ∧ s'.done = s.done ++ [(f, 0)]

/-- Since it waits instead, it must not come to that. -/
lemma RingState.prompt_iff [DecidableEq τ] {s : RingState τ α} :
    s.Prompt ↔ ∀ t, ¬ s.TryWaits t := by
  refine ⟨fun h t ht => ?_, fun h t ht => absurd ht (h t)⟩
  obtain ⟨f, s', -, hs, -⟩ := h t ht
  rw [ht.stuck] at hs
  exact absurd hs.symm (Option.some_ne_none s')

/-! ### Waits -/

/-- `try_swrite` finds the ring of one empty; before it has the lock, a bulk
write of two takes it, fills the ring and waits for room for the second. -/
def tryWaitRun : List (RingAction ℕ ℕ) :=
  List.flatten
    [[.call 0 (.trySwrite 5)], List.replicate 2 (.move 0),
      [.call 1 (.swriteBulk (fun i => i) 2 2)], List.replicate 12 (.move 1)]

/-- **`try_swrite` waits for a lock** whose holder goes round its wait loop on a
full ring. -/
theorem try_swrite_waits :
    ZxRingbuffer.init 0 1 ZxRingbuffer.polling true = .ok ⟨0, 2, 1, fun _ => 0, 0⟩ ∧
      ∃ s, Run RingState.step (fun _ _ => True) (RingState.start ⟨0, 2, 1, fun _ => 0, 0⟩)
          tryWaitRun s ∧
        ¬ s.Prompt ∧ s.TryWaits 0 ∧ s.move 0 = none ∧ s.ring.isFull = true ∧
        (s.frame 1).map (fun f => f.turns) = some 1 := by
  refine ⟨rfl, ?_⟩
  have hrun : (exec RingState.step (RingState.start ⟨0, 2, 1, fun _ => 0, 0⟩) tryWaitRun).map
      (fun s => ((s.frame 0).map fun f => (f.pc.atLock, f.call.lock, f.call.side),
        s.spin .write, s.ring.isFull, (s.frame 1).map fun f => f.turns)) =
      some (some (true, .tryLock, .write), some 1, true, some 1) := by
    decide +kernel
  obtain ⟨s, hs, heq⟩ := Option.map_eq_some_iff.mp hrun
  simp only [Prod.mk.injEq] at heq
  obtain ⟨hframe, hspin, hfull, hturns⟩ := heq
  obtain ⟨f, hf, hf'⟩ := Option.map_eq_some_iff.mp hframe
  simp only [Prod.mk.injEq, RingPc.atLock_iff] at hf'
  obtain ⟨hpc, hlock, hside⟩ := hf'
  have hwait : s.TryWaits 0 := ⟨f, hf, hpc, hlock, 1, one_ne_zero, by rw [hside, hspin]⟩
  have hprompt : ¬ s.Prompt := fun h => RingState.prompt_iff.mp h 0 hwait
  exact ⟨s, run_of_exec hs, hprompt, hwait, hwait.stuck, hfull, hturns⟩

/-- A call with `TRY_LOCK` begins with the early test. -/
lemma RingCall.entry_tryLock (rb : ZxRingbuffer α) {c : RingCall α} (h : c.lock = .tryLock) :
    c.entry rb = .early1 := by
  cases c with
  | trySwrite value | trySread value => rfl
  | _ => exact LockUse.noConfusion h

/-- **An overlap**: if a `try` operation is called while another thread has the
lock of its side, and there is room or data on that side, it waits after its early
test, whatever the state. -/
theorem overlap_waits [DecidableEq τ] {s : RingState τ α} {t u : τ} {c : RingCall α}
    (hidle : s.frame t = none) (htry : c.lock = .tryLock) (hheld : s.spin c.side = some u)
    (hne : u ≠ t) (hroom : c.side.blockedAt s.ring s.ring.start = false) :
    ∃ s', Run RingState.step (fun _ _ => True) s [.call t c, .move t, .move t] s' ∧
      s'.TryWaits t := by
  have hcall : s.step (.call t c) = some (s.set t ⟨c, c.work, .early1, 0⟩) := by
    rw [RingState.step, hidle, RingCall.entry_tryLock s.ring htry]
  have hlook : (s.set t ⟨c, c.work, .early1, 0⟩).step (.move t) =
      some (s.set t ⟨c, c.work, .early2 s.ring.start, 0⟩) := by
    simp [RingState.step, RingState.move, RingState.set, RingState.goto]
  have htest : (s.set t ⟨c, c.work, .early2 s.ring.start, 0⟩).step (.move t) =
      some (s.set t ⟨c, c.work, .lock, 0⟩) := by
    simp [RingState.step, RingState.move, RingState.set, RingState.goto, hroom]
  refine ⟨_, ((Run.nil.snoc trivial hcall).snoc trivial hlook).snoc trivial htest, ?_⟩
  exact ⟨⟨c, c.work, .lock, 0⟩, Function.update_self .., rfl, htry, u, hne, hheld⟩

/-! ### Calls that are kept apart -/

/-- A call with `TRY_LOCK` is made only while no other thread is under way with a
call that locks its side, and a call that locks a side only while no other thread
is under way with a call with `TRY_LOCK` of that side, unless that is behind its
lock. -/
def Apart (s : RingState τ α) : RingAction τ α → Prop
  | .call _ c => ∀ u, ∀ f ∈ s.frame u, f.call.side = c.side →
      (c.lock = .tryLock → f.call.lock = .alone) ∧
        (f.call.lock = .tryLock → c.lock = .alone ∨ f.pc.inside = true)
  | .move _ | .spurious _ _ => True

instance [Fintype τ] (s : RingState τ α) : ∀ a, Decidable (Apart s a)
  | .call _ c => inferInstanceAs (Decidable (∀ u, ∀ f ∈ s.frame u, f.call.side = c.side →
      (c.lock = .tryLock → f.call.lock = .alone) ∧
        (f.call.lock = .tryLock → c.lock = .alone ∨ f.pc.inside = true)))
  | .move _ | .spurious _ _ => inferInstanceAs (Decidable True)

/-- Where two threads are under way with calls that lock one side, one of them with
`TRY_LOCK`, that one is behind its lock. -/
def Behind (s : RingState τ α) : Prop :=
  ∀ t u f g, t ≠ u → s.frame t = some f → s.frame u = some g → f.call.lock = .tryLock →
    g.call.lock ≠ .alone → g.call.side = f.call.side → f.pc.inside = true

namespace Behind

variable {s s' : RingState τ α} {t : τ}

lemma start (rb : ZxRingbuffer α) : Behind (RingState.start rb : RingState τ α) :=
  fun t u f g _ hf => by cases hf

/-- **Nobody waits**: the holder is another thread that locks the side. -/
lemma not_tryWaits (h : Behind s) (hinv : LockInv s) (t : τ) : ¬ s.TryWaits t := by
  rintro ⟨f, hf, hpc, htry, u, hne, hheld⟩
  have hu := (hinv.spin_iff f.call.side u).mpr hheld
  cases hg : s.frame u with
  | none => rw [hg] at hu; exact Bool.noConfusion hu
  | some g =>
      rw [hg] at hu
      obtain ⟨-, hlock, hside⟩ := holds_eq_true.mp hu
      have hin := h t u f g hne.symm hf hg htry hlock hside
      rw [hpc] at hin
      exact Bool.noConfusion hin

variable [DecidableEq τ]

/-- A thread that stays in its call and does not come out from behind its lock. -/
lemma keep (h : Behind s) {f f' : RingFrame α} (hf : s.frame t = some f)
    (hframe : s'.frame = Function.update s.frame t (some f')) (hcall : f'.call = f.call)
    (hin : f.pc.inside = true → f'.pc.inside = true) : Behind s' := by
  intro x y p q hne hp hq htry hlock hside
  rw [hframe] at hp hq
  by_cases hx : x = t
  · have hy : y ≠ t := fun heq => hne (hx.trans heq.symm)
    rw [hx, Function.update_self] at hp
    rw [Function.update_of_ne hy] at hq
    obtain rfl := Option.some.inj hp
    rw [hcall] at htry hside
    exact hin (h t y f q hy.symm hf hq htry hlock hside)
  · rw [Function.update_of_ne hx] at hp
    by_cases hy : y = t
    · rw [hy, Function.update_self] at hq
      obtain rfl := Option.some.inj hq
      rw [hcall] at hlock hside
      exact h x t p f hx hp hf htry hlock hside
    · rw [Function.update_of_ne hy] at hq
      exact h x y p q hne hp hq htry hlock hside

/-- A thread that returns. -/
lemma returned (h : Behind s) (hframe : s'.frame = Function.update s.frame t none) :
    Behind s' := by
  have hsame : ∀ {x p}, s'.frame x = some p → s.frame x = some p := by
    intro x p hp
    rw [hframe] at hp
    by_cases hx : x = t
    · rw [hx, Function.update_self] at hp
      cases hp
    · rwa [Function.update_of_ne hx] at hp
  exact fun x y p q hne hp hq => h x y p q hne (hsame hp) (hsame hq)

/-- A thread that begins a call. -/
lemma called (h : Behind s) {c : RingCall α} (hapart : Apart s (.call t c)) {f : RingFrame α}
    (hf : f.call = c) (hframe : s'.frame = Function.update s.frame t (some f)) : Behind s' := by
  intro x y p q hne hp hq htry hlock hside
  rw [hframe] at hp hq
  by_cases hx : x = t
  · -- its own call has `TRY_LOCK`, so the other one locks nothing
    have hy : y ≠ t := fun heq => hne (hx.trans heq.symm)
    rw [hx, Function.update_self] at hp
    rw [Function.update_of_ne hy] at hq
    obtain rfl := Option.some.inj hp
    rw [hf] at htry hside
    exact absurd ((hapart y q hq hside).1 htry) hlock
  · rw [Function.update_of_ne hx] at hp
    by_cases hy : y = t
    · -- the other one has, and is behind its lock
      rw [hy, Function.update_self] at hq
      obtain rfl := Option.some.inj hq
      rw [hf] at hlock hside
      exact ((hapart x p hp hside.symm).2 htry).resolve_left hlock
    · rw [Function.update_of_ne hy] at hq
      exact h x y p q hne hp hq htry hlock hside

/-- **One step** of calls that are kept apart. -/
lemma step (h : Behind s) {a : RingAction τ α} (hapart : Apart s a) (hs : s.step a = some s') :
    Behind s' := by
  cases a with
  | call t c =>
      obtain ⟨-, rfl⟩ := RingState.step_call hs
      exact h.called hapart rfl rfl
  | spurious t d =>
      obtain rfl := RingState.step_spurious hs
      exact h
  | move t =>
      cases RingState.move_shape hs with
      | call hf => simp [RingState.step, RingState.move, hf] at hs
      | look hf hpc hf' => exact h.keep hf hf' rfl fun hin => by rw [hpc] at hin; cases hin
      | back hf hpc htest hf' => exact h.returned hf'
      | arrive hf hpc htest hf' => exact h.keep hf hf' rfl fun hin => by rw [hpc] at hin; cases hin
      | acquire hf hpc hfree hf' hspin hcall hin => exact h.keep hf hf' hcall fun _ => hin
      | inside hf hpc hf' hspin hcall hin => exact h.keep hf hf' hcall fun _ => hin
      | leave hf hpc hf' => exact h.returned hf'

end Behind

/-- **When no `try` operation waits for a lock**: over any threads, calls and
interleavings, in every state that a run of calls reaches that are kept apart. -/
theorem try_lock_prompt [DecidableEq τ] {rb : ZxRingbuffer α} {as : List (RingAction τ α)}
    {s : RingState τ α} (hrun : Run RingState.step Apart (RingState.start rb) as s) :
    s.Prompt := by
  obtain ⟨hinv, hbehind⟩ := hrun.invariant (I := fun _ s => LockInv s ∧ Behind s)
    ⟨LockInv.start rb, Behind.start rb⟩
    fun _ _ _ _ ⟨hinv, hbehind⟩ ha hs => ⟨hinv.step hs, hbehind.step ha hs⟩
  exact RingState.prompt_iff.mpr (hbehind.not_tryWaits hinv)

/-- Two `try` operations on a ring of one, step by step in turn, with a `swrite` that
waits for the lock of the first and for the room the second makes. -/
def tryInTurn : List (RingAction (Fin 3) ℕ) :=
  List.flatten
    [[.call 0 (.trySwrite 5)], List.replicate 3 (.move 0), [.call 1 (.swrite 6)],
      List.replicate 9 (.move 0), List.replicate 3 (.move 1), [.call 2 (.trySread 0)],
      (List.replicate 13 [.move 2, .move 1]).flatten, List.replicate 4 (.move 1)]

/-- Nobody waits in front of `TRY_LOCK` in that run, and every call moves its value. -/
theorem try_in_turn_prompt :
    ∃ s : RingState (Fin 3) ℕ,
      Run RingState.step (fun _ _ => True) (RingState.start ⟨0, 2, 1, fun _ => 0, 0⟩) tryInTurn s ∧
      s.done.map (fun r => r.2) = [1, 1, 1] ∧ s.Prompt := by
  have hrun : (exec (fun s a => if Apart s a then RingState.step s a else none)
      (RingState.start ⟨0, 2, 1, fun _ => 0, 0⟩) tryInTurn).map
        (fun s => s.done.map fun r => r.2) = some [1, 1, 1] := by
    decide +kernel
  obtain ⟨s, hs, hdone⟩ := Option.map_eq_some_iff.mp hrun
  have hok := run_of_exec_guarded hs
  exact ⟨s, hok.unguarded, hdone, try_lock_prompt hok⟩

/-! ### Mixes of calls -/

/-- A mix of calls: on either side there is no call with `TRY_LOCK`, or one thread
makes all the calls that lock it. -/
def Mix (calls : τ → RingCall α → Prop) : Prop :=
  ∀ t u c c', t ≠ u → calls t c → calls u c' → c.side = c'.side → c.lock = .tryLock →
    c'.lock = .alone

/-- A call that is under way was before the step, or has just been made. -/
lemma RingState.call_of_step [DecidableEq τ] {s s' : RingState τ α} {a : RingAction τ α}
    (hs : s.step a = some s') {u : τ} {f' : RingFrame α} (hf' : s'.frame u = some f') :
    (∃ f, s.frame u = some f ∧ f'.call = f.call) ∨ a = .call u f'.call := by
  have hupdate : ∀ {t : τ} {g : Option (RingFrame α)}, s'.frame = Function.update s.frame t g →
      u ≠ t → ∃ f, s.frame u = some f ∧ f'.call = f.call := by
    intro t g hframe hu
    rw [hframe, Function.update_of_ne hu] at hf'
    exact ⟨f', hf', rfl⟩
  cases a with
  | spurious t d =>
      obtain rfl := step_spurious hs
      exact .inl ⟨f', hf', rfl⟩
  | call t c =>
      obtain ⟨-, rfl⟩ := step_call hs
      by_cases hu : u = t
      · have hnew : (s.set t ⟨c, c.work, c.entry s.ring, 0⟩).frame u =
            some ⟨c, c.work, c.entry s.ring, 0⟩ := by rw [hu]; exact Function.update_self ..
        obtain rfl := Option.some.inj (hnew.symm.trans hf')
        exact .inr (by rw [hu])
      · exact .inl (hupdate rfl hu)
  | move t =>
      by_cases hu : u = t
      · obtain rfl := hu
        refine .inl ?_
        cases move_shape hs with
        | call hf => simp [step, move, hf] at hs
        | look hf hpc hframe | arrive hf hpc htest hframe =>
            rw [hframe, Function.update_self] at hf'
            exact ⟨_, hf, by rw [← Option.some.inj hf']⟩
        | back hf hpc htest hframe | leave hf hpc hframe =>
            rw [hframe, Function.update_self] at hf'
            cases hf'
        | acquire hf hpc hfree hframe hspin hcall | inside hf hpc hframe hspin hcall =>
            rw [hframe, Function.update_self] at hf'
            obtain rfl := Option.some.inj hf'
            exact ⟨_, hf, hcall⟩
      · refine .inl ?_
        cases move_shape hs with
        | call hf hframe => exact hupdate hframe hu
        | look hf hpc hframe | leave hf hpc hframe | inside hf hpc hframe => exact hupdate hframe hu
        | back hf hpc htest hframe | arrive hf hpc htest hframe => exact hupdate hframe hu
        | acquire hf hpc hfree hframe => exact hupdate hframe hu

/-- **The runs of such a mix** keep their calls apart. -/
theorem Mix.apart [DecidableEq τ] {calls : τ → RingCall α → Prop} (hmix : Mix calls)
    {rb : ZxRingbuffer α} {as : List (RingAction τ α)} {s : RingState τ α}
    (hrun : Run RingState.step (fun _ a => ∀ t c, a = .call t c → calls t c)
      (RingState.start rb) as s) :
    Run RingState.step Apart (RingState.start rb) as s := by
  refine (hrun.invariant (I := fun as s => Run RingState.step Apart (RingState.start rb) as s ∧
    ∀ t f, s.frame t = some f → calls t f.call) ⟨.nil, fun t f hf => by cases hf⟩ ?_).1
  rintro as s a s' ⟨hr, hcalls⟩ ha hs
  refine ⟨hr.snoc ?_ hs, fun u f' hf' => ?_⟩
  · cases a with
    | move t | spurious t d => trivial
    | call t c =>
        obtain ⟨hidle, -⟩ := RingState.step_call hs
        intro u f hf hside
        have hf : s.frame u = some f := hf
        have hne : u ≠ t := by
          rintro rfl
          rw [hidle] at hf
          cases hf
        have hc := ha t c rfl
        have hfc := hcalls u f hf
        exact ⟨hmix t u c f.call hne.symm hc hfc hside.symm,
          fun htry => .inl (hmix u t f.call c hne hfc hc hside htry)⟩
  · rcases RingState.call_of_step hs hf' with ⟨f, hf, hcall⟩ | ha'
    · rw [hcall]
      exact hcalls u f hf
    · exact ha u f'.call ha'

end CLibrary
