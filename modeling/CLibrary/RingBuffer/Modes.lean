import CLibrary.RingBuffer.Linear
import CLibrary.RingBuffer.TryData

/-!
The thread-safe single-element operations in both modes.

In `Linear` the wait loops are bare loops and nobody is notified.  In blocking
mode there are two mutexes and two condition variables besides; they keep a
thread where it is and do nothing to the ring.

* `WriteAt`, `ReadAt`, `Shown`: where `Linear` has a call.
* `SeenAs`, `ShownAction`: a state and a step, as `Linear` has them.  Every step
  is one step there or none.
* `single_ops_linearize_in_both_modes`: so every run in either mode is one of
  `Linear` with more steps in between, with the same ring and the same results.
-/

namespace CLibrary

variable {τ α : Type*}

/-! ### The calls -/

/-- The operations that test first. -/
def WriteKind.tries : WriteKind → Bool
  | .swrite => false
  | .trySwrite | .trySwriteBl => true

def ReadKind.tries : ReadKind → Bool
  | .sread => false
  | .trySread | .trySreadBl => true

/-- A thread-safe write of one element. -/
def RingCall.writes? : RingCall α → Option (WriteCall α)
  | .swrite value => some ⟨.swrite, value⟩
  | .trySwrite value => some ⟨.trySwrite, value⟩
  | .trySwriteBl value => some ⟨.trySwriteBl, value⟩
  | _ => none

/-- A thread-safe read of one element. -/
def RingCall.reads? : RingCall α → Option ReadKind
  | .sread _ => some .sread
  | .trySread _ => some .trySread
  | .trySreadBl _ => some .trySreadBl
  | _ => none

lemma RingCall.of_writes {call : RingCall α} {c : WriteCall α} (h : call.writes? = some c) :
    call.side = .write ∧ call.lock ≠ .alone ∧ call.work = .one c.kind.tries c.value := by
  cases call with
  | swrite | trySwrite | trySwriteBl =>
      obtain rfl := Option.some.inj h
      exact ⟨rfl, by simp [lock], rfl⟩
  | _ => cases h

lemma RingCall.of_reads {call : RingCall α} {k : ReadKind} (h : call.reads? = some k) :
    call.side = .read ∧ call.lock ≠ .alone ∧ ∃ value, call.work = .one k.tries value := by
  cases call with
  | sread value | trySread value | trySreadBl value =>
      obtain rfl := Option.some.inj h
      exact ⟨rfl, by simp [lock], value, rfl⟩
  | _ => cases h

/-- The permitted calls, when every side is shared. -/
lemma Permitted.shared {t : τ} {call : RingCall α} (h : Permitted (fun _ => none) t call) :
    (∃ c, call.writes? = some c) ∨ ∃ k, call.reads? = some k := by
  obtain ⟨hone, -, hlock⟩ := h
  have hlock := hlock rfl
  cases call with
  | swrite | trySwrite | trySwriteBl => exact Or.inl ⟨_, rfl⟩
  | sread | trySread | trySreadBl => exact Or.inr ⟨_, rfl⟩
  | write | writeBulk | tryWrite | read | readBulk | tryRead => exact absurd rfl hlock
  | swriteBulk | sreadBulk => exact Bool.noConfusion hone

/-! ### Where a call is -/

/-- Where `Linear` has the write `c`.  It is in the wait loop until that is left
for good, and at its unlock once `end` is stored. -/
inductive WriteAt (c : WriteCall α) : RingPc α → Point α → Prop
  | early1 : WriteAt c .early1 (.wEarly1 c)
  | early2 (x : ℕ) : WriteAt c (.early2 x) (.wEarly2 c x)
  | lock : WriteAt c .lock (.wLock c)
  | full1 : WriteAt c .full1 (.wFull1 c)
  | full2 (x : ℕ) : WriteAt c (.full2 x) (.wFull2 c x)
  | enter : WriteAt c .enter (.wWait1 c)
  | test1 : WriteAt c .test1 (.wWait1 c)
  | test2 (x : ℕ) : WriteAt c (.test2 x) (.wWait2 c x)
  | wait : WriteAt c .wait (.wWait1 c)
  | wake : WriteAt c .wake (.wWait1 c)
  | leave : WriteAt c .leave (.wIndex c)
  | poll1 : WriteAt c .poll1 (.wWait1 c)
  | poll2 (x : ℕ) : WriteAt c (.poll2 x) (.wWait2 c x)
  | index : WriteAt c .index (.wIndex c)
  | slot (e : ℕ) : WriteAt c (.slot e) (.wSlot c e)
  | next : WriteAt c (.next none) (.wNext c)
  | store (e : ℕ) : WriteAt c (.store none e) (.wEnd c e)
  | notify : WriteAt c (.notify none) (.wUnlock c 1)
  | broadcast : WriteAt c (.broadcast none) (.wUnlock c 1)
  | release : WriteAt c (.release none) (.wUnlock c 1)
  | ret (r : ℕ) : WriteAt c (.ret r) (.wUnlock c r)

/-- Where `Linear` has a read whose variable holds `value`. -/
inductive ReadAt (k : ReadKind) (value : α) : RingPc α → Point α → Prop
  | early1 : ReadAt k value .early1 (.rEarly1 k)
  | early2 (x : ℕ) : ReadAt k value (.early2 x) (.rEarly2 k x)
  | lock : ReadAt k value .lock (.rLock k)
  | full1 : ReadAt k value .full1 (.rEmpty1 k)
  | full2 (x : ℕ) : ReadAt k value (.full2 x) (.rEmpty2 k x)
  | enter : ReadAt k value .enter (.rWait1 k)
  | test1 : ReadAt k value .test1 (.rWait1 k)
  | test2 (x : ℕ) : ReadAt k value (.test2 x) (.rWait2 k x)
  | wait : ReadAt k value .wait (.rWait1 k)
  | wake : ReadAt k value .wake (.rWait1 k)
  | leave : ReadAt k value .leave (.rIndex k)
  | poll1 : ReadAt k value .poll1 (.rWait1 k)
  | poll2 (x : ℕ) : ReadAt k value (.poll2 x) (.rWait2 k x)
  | index : ReadAt k value .index (.rIndex k)
  | slot (e : ℕ) : ReadAt k value (.slot e) (.rSlot k e)
  | next (v : α) : ReadAt k value (.next (some v)) (.rNext k v)
  | store (v : α) (e : ℕ) : ReadAt k value (.store (some v) e) (.rStart k v e)
  | notify (v : α) : ReadAt k value (.notify (some v)) (.rUnlock k 1 (some v))
  | broadcast (v : α) : ReadAt k value (.broadcast (some v)) (.rUnlock k 1 (some v))
  | release (v : α) : ReadAt k value (.release (some v)) (.rUnlock k 1 (some v))
  | assign (v : α) : ReadAt k value (.assign v) (.rUnlock k 1 (some v))
  | ret : ReadAt k value (.ret 1) (.rUnlock k 1 (some value))
  | ret0 : ReadAt k value (.ret 0) (.rUnlock k 0 none)

/-- Where `Linear` has a thread. -/
inductive Shown : Option (RingFrame α) → Point α → Prop
  | idle : Shown none .idle
  | write {call : RingCall α} {c : WriteCall α} {pc : RingPc α} {p : Point α} {turns : ℕ}
      (hcall : call.writes? = some c) (hpc : WriteAt c pc p) :
      Shown (some ⟨call, .one c.kind.tries c.value, pc, turns⟩) p
  | read {call : RingCall α} {k : ReadKind} {value : α} {pc : RingPc α} {p : Point α} {turns : ℕ}
      (hcall : call.reads? = some k) (hpc : ReadAt k value pc p) :
      Shown (some ⟨call, .one k.tries value, pc, turns⟩) p

/-- What `Linear` records of a call that has returned. -/
inductive Recorded : RingFrame α × ℕ → Done τ α → Prop
  | write {f : RingFrame α} {c : WriteCall α} {r : ℕ} (t : τ) (moved : List α)
      (hcall : f.call.writes? = some c) : Recorded (f, r) (.write t c r moved)
  | read {f : RingFrame α} {k : ReadKind} {value : α} (t : τ) (moved : List α)
      (hcall : f.call.reads? = some k) (hwork : f.work = .one k.tries value) :
      Recorded (f, 1) (.read t k 1 (some value) moved)
  | read0 {f : RingFrame α} {k : ReadKind} (t : τ) (moved : List α)
      (hcall : f.call.reads? = some k) : Recorded (f, 0) (.read t k 0 none moved)

/-- The state `s`, as `Linear` has it. -/
structure SeenAs (s : RingState τ α) (l : LinState τ α) : Prop where
  ring : l.mem.rb = s.ring
  wlock : l.wlock = s.spin .write
  rlock : l.rlock = s.spin .read
  points : ∀ t, Shown (s.frame t) (l.point t)
  done : List.Forall₂ Recorded s.done l.done

/-- What `Linear` has of a step: the same call or the same move. -/
inductive ShownAction : LinAction τ α → RingAction τ α → Prop
  | write (t : τ) {call : RingCall α} {c : WriteCall α} (hcall : call.writes? = some c) :
      ShownAction (.callWrite t c) (.call t call)
  | read (t : τ) {call : RingCall α} {k : ReadKind} (hcall : call.reads? = some k) :
      ShownAction (.callRead t k) (.call t call)
  | move (t : τ) : ShownAction (.move t) (.move t)

/-! ### One step -/

lemma WriteAt.waitPc (rb : ZxRingbuffer α) (c : WriteCall α) :
    WriteAt c (waitPc rb) (.wWait1 c) := by
  rw [CLibrary.waitPc]
  split_ifs
  · exact .enter
  · exact .poll1

lemma ReadAt.waitPc (rb : ZxRingbuffer α) (k : ReadKind) (value : α) :
    ReadAt k value (waitPc rb) (.rWait1 k) := by
  rw [CLibrary.waitPc]
  split_ifs
  · exact .enter
  · exact .poll1

lemma WriteAt.body (rb : ZxRingbuffer α) (c : WriteCall α) :
    WriteAt c ((Work.one c.kind.tries c.value).body rb)
      (if c.kind = .swrite then .wWait1 c else .wFull1 c) := by
  cases hk : c.kind with
  | swrite => exact .waitPc rb c
  | trySwrite | trySwriteBl => exact .full1

lemma ReadAt.body (rb : ZxRingbuffer α) (k : ReadKind) (value : α) :
    ReadAt k value ((Work.one k.tries value).body rb)
      (if k = .sread then .rWait1 k else .rEmpty1 k) := by
  cases k with
  | sread => exact .waitPc rb .sread value
  | trySread | trySreadBl => exact .full1

lemma WriteAt.entry (rb : ZxRingbuffer α) {call : RingCall α} {c : WriteCall α}
    (h : call.writes? = some c) :
    WriteAt c (call.entry rb) (if c.kind = .swrite then .wLock c else .wEarly1 c) := by
  cases call with
  | swrite value =>
      obtain rfl := Option.some.inj h
      exact .lock
  | trySwrite value | trySwriteBl value =>
      obtain rfl := Option.some.inj h
      exact .early1
  | _ => cases h

lemma ReadAt.entry (rb : ZxRingbuffer α) {call : RingCall α} {k : ReadKind} (value : α)
    (h : call.reads? = some k) :
    ReadAt k value (call.entry rb) (if k = .sread then .rLock k else .rEarly1 k) := by
  cases call with
  | sread =>
      obtain rfl := Option.some.inj h
      exact .lock
  | trySread | trySreadBl =>
      obtain rfl := Option.some.inj h
      exact .early1
  | _ => cases h

lemma WriteAt.stored (rb : ZxRingbuffer α) (c : WriteCall α) :
    WriteAt c ((Work.one c.kind.tries c.value).stored rb none) (.wUnlock c 1) := by
  rw [Work.stored]
  split_ifs
  · exact .notify
  · exact .ret 1

lemma ReadAt.stored (rb : ZxRingbuffer α) (k : ReadKind) (value v : α) :
    ReadAt k value ((Work.one k.tries value).stored rb (some v)) (.rUnlock k 1 (some v)) := by
  rw [Work.stored]
  split_ifs
  · exact .notify v
  · exact .assign v

namespace SeenAs

/-- A fresh ring, all threads idle. -/
lemma start (rb : ZxRingbuffer α) :
    SeenAs (RingState.start rb : RingState τ α) (LinState.start rb) :=
  ⟨rfl, rfl, rfl, fun _ => .idle, .nil⟩

variable [DecidableEq τ] {s s' : RingState τ α} {l l' : LinState τ α} {t : τ}

/-- The threads after a step of one of them. -/
lemma points_step (h : SeenAs s l) {f' : Option (RingFrame α)} {p : Point α} (hp : Shown f' p)
    (u : τ) : Shown (Function.update s.frame t f' u) (Function.update l.point t p u) :=
  points_rel hp h.points u

/-- A step from point to point in both. -/
lemma goto (h : SeenAs s l) {f : RingFrame α} {pc : RingPc α} {p : Point α}
    (hmove : l.move t = some (l.goto t p)) (hp : Shown (some { f with pc := pc }) p) :
    SeenAs (s.goto t f pc) l ∨ ∃ l', l.move t = some l' ∧ SeenAs (s.goto t f pc) l' :=
  Or.inr ⟨_, hmove, h.ring, h.wlock, h.rlock, h.points_step hp, h.done⟩

/-- A step at a monitor, which `Linear` does not have. -/
lemma stutter (h : SeenAs s l) {f : RingFrame α} {pc : RingPc α} {p : Point α} {d : Side}
    {m : Monitor τ} (hl : l.point t = p) (hp : Shown (some { f with pc := pc }) p) :
    SeenAs (s.gotoWith t f pc d m) l := by
  have hpoints := h.points_step (t := t) hp
  rw [← hl, Function.update_eq_self] at hpoints
  exact ⟨h.ring, h.wlock, h.rlock, hpoints, h.done⟩

/-- An early return in both. -/
lemma finish (h : SeenAs s l) {f : RingFrame α} {r : ℕ} {d : Done τ α} (hr : Recorded (f, r) d) :
    SeenAs (s.finish t f r) (l.finish t d) :=
  ⟨h.ring, h.wlock, h.rlock, h.points_step .idle, List.rel_append h.done (.cons hr .nil)⟩

/-- A move of a thread in a write. -/
lemma write_move (h : SeenAs s l) {call : RingCall α} {c : WriteCall α} {pc : RingPc α}
    {p : Point α} {turns : ℕ} (hcall : call.writes? = some c) (hat : WriteAt c pc p)
    (hf : s.frame t = some ⟨call, .one c.kind.tries c.value, pc, turns⟩) (hl : l.point t = p)
    (hs : s.move t = some s') : SeenAs s' l ∨ ∃ l', l.move t = some l' ∧ SeenAs s' l' := by
  obtain ⟨hside, hlock, -⟩ := RingCall.of_writes hcall
  have hring := h.ring
  have hwlock := h.wlock
  rw [RingState.move, hf] at hs
  dsimp only at hs
  simp only [hside, Side.blockedAt, beq_iff_eq] at hs
  cases hat with
  | early1 =>
      obtain rfl := Option.some.inj hs
      exact h.goto (by simp [LinState.move, hl, hring]) (.write hcall (.early2 _))
  | early2 x =>
      obtain rfl := Option.some.inj hs
      split_ifs with hx
      · refine Or.inr ⟨l.finish t (.write t c 0 (l.moved t)),
          by simp [LinState.move, hl, hring, hx], ?_⟩
        exact h.finish (.write t _ hcall)
      · exact h.goto (by simp [LinState.move, hl, hring, hx]) (.write hcall .lock)
  | lock =>
      cases hfree : s.spin .write with
      | some u => simp [hfree] at hs
      | none =>
          rw [hfree] at hs
          obtain rfl := Option.some.inj hs
          refine Or.inr ⟨_, by simp only [LinState.move, hl, hwlock, hfree]; rfl, ?_⟩
          refine ⟨h.ring, ?_, ?_, h.points_step (.write hcall (.body s.ring c)), h.done⟩
          · simp
          · simpa [LinState.goto] using h.rlock
  | full1 =>
      obtain rfl := Option.some.inj hs
      exact h.goto (by simp [LinState.move, hl, hring]) (.write hcall (.full2 _))
  | full2 x =>
      obtain rfl := Option.some.inj hs
      split_ifs with hx
      · exact h.goto (by simp [LinState.move, hl, hring, hx]) (.write hcall (.ret 0))
      · exact h.goto (by simp [LinState.move, hl, hring, hx]) (.write hcall (.waitPc s.ring c))
  | enter =>
      obtain ⟨m, -, rfl⟩ := Option.map_eq_some_iff.mp hs
      exact Or.inl (h.stutter hl (.write hcall .test1))
  | test1 =>
      obtain rfl := Option.some.inj hs
      exact h.goto (by simp [LinState.move, hl, hring]) (.write hcall (.test2 _))
  | test2 x =>
      obtain rfl := Option.some.inj hs
      split_ifs with hx
      · exact h.goto (by simp [LinState.move, hl, hring, hx]) (.write hcall .wait)
      · exact h.goto (by simp [LinState.move, hl, hring, hx]) (.write hcall .leave)
  | wait =>
      obtain rfl := Option.some.inj hs
      exact Or.inl (h.stutter hl (.write hcall .wake))
  | wake =>
      obtain ⟨m, -, rfl⟩ := Option.map_eq_some_iff.mp hs
      exact Or.inl (h.stutter hl (.write hcall .test1))
  | leave =>
      obtain rfl := Option.some.inj hs
      exact Or.inl (h.stutter hl (.write hcall .index))
  | poll1 =>
      obtain rfl := Option.some.inj hs
      exact h.goto (by simp [LinState.move, hl, hring]) (.write hcall (.poll2 _))
  | poll2 x =>
      obtain rfl := Option.some.inj hs
      split_ifs with hx
      · exact h.goto (by simp [LinState.move, hl, hring, hx]) (.write hcall .poll1)
      · exact h.goto (by simp [LinState.move, hl, hring, hx]) (.write hcall .index)
  | index =>
      obtain rfl := Option.some.inj hs
      exact h.goto (by simp [LinState.move, hl, hring]) (.write hcall (.slot s.ring.endIdx))
  | slot e =>
      obtain rfl := Option.some.inj hs
      refine Or.inr ⟨_, by simp only [LinState.move, hl]; rfl, ?_⟩
      exact ⟨congrArg (fun rb => Side.storeSlot rb e c.value .write) hring, h.wlock, h.rlock,
        h.points_step (.write hcall .next), h.done⟩
  | next =>
      obtain rfl := Option.some.inj hs
      exact h.goto (by simp [LinState.move, hl, hring]) (.write hcall (.store s.ring.endIdx))
  | store e =>
      obtain rfl := Option.some.inj hs
      refine Or.inr ⟨_, by simp only [LinState.move, hl]; rfl, ?_⟩
      exact ⟨congrArg (fun rb => Side.storeIndex rb (uadd 64 e 1 % rb.size) .write) hring,
        h.wlock, h.rlock, h.points_step (.write hcall (.stored s.ring c)), h.done⟩
  | notify =>
      obtain ⟨m, -, rfl⟩ := Option.map_eq_some_iff.mp hs
      exact Or.inl (h.stutter hl (.write hcall .broadcast))
  | broadcast =>
      obtain rfl := Option.some.inj hs
      exact Or.inl (h.stutter hl (.write hcall .release))
  | release =>
      obtain rfl := Option.some.inj hs
      exact Or.inl (h.stutter hl (.write hcall (.ret 1)))
  | ret r =>
      obtain rfl := Option.some.inj hs
      refine Or.inr ⟨_, by simp only [LinState.move, hl]; rfl, ?_⟩
      refine ⟨hring, ?_, ?_, h.points_step .idle,
        List.rel_append h.done (.cons (.write t _ hcall) .nil)⟩
      · simp [hlock]
      · simpa [hlock, LinState.finish, LinState.goto] using h.rlock

/-- A move of a thread in a read. -/
lemma read_move (h : SeenAs s l) {call : RingCall α} {k : ReadKind} {value : α} {pc : RingPc α}
    {p : Point α} {turns : ℕ} (hcall : call.reads? = some k) (hat : ReadAt k value pc p)
    (hf : s.frame t = some ⟨call, .one k.tries value, pc, turns⟩) (hl : l.point t = p)
    (hs : s.move t = some s') : SeenAs s' l ∨ ∃ l', l.move t = some l' ∧ SeenAs s' l' := by
  obtain ⟨hside, hlock, -⟩ := RingCall.of_reads hcall
  have hring := h.ring
  have hrlock := h.rlock
  rw [RingState.move, hf] at hs
  dsimp only at hs
  simp only [hside, Side.blockedAt, beq_iff_eq] at hs
  cases hat with
  | early1 =>
      obtain rfl := Option.some.inj hs
      exact h.goto (by simp [LinState.move, hl, hring]) (.read hcall (.early2 _))
  | early2 x =>
      obtain rfl := Option.some.inj hs
      split_ifs with hx
      · refine Or.inr ⟨l.finish t (.read t k 0 none (l.moved t)),
          by simp [LinState.move, hl, hring, hx], ?_⟩
        exact h.finish (.read0 t _ hcall)
      · exact h.goto (by simp [LinState.move, hl, hring, hx]) (.read hcall .lock)
  | lock =>
      cases hfree : s.spin .read with
      | some u => simp [hfree] at hs
      | none =>
          rw [hfree] at hs
          obtain rfl := Option.some.inj hs
          refine Or.inr ⟨_, by simp only [LinState.move, hl, hrlock, hfree]; rfl, ?_⟩
          refine ⟨h.ring, ?_, ?_, h.points_step (.read hcall (.body s.ring k value)), h.done⟩
          · simpa [LinState.goto] using h.wlock
          · simp
  | full1 =>
      obtain rfl := Option.some.inj hs
      exact h.goto (by simp [LinState.move, hl, hring]) (.read hcall (.full2 _))
  | full2 x =>
      obtain rfl := Option.some.inj hs
      split_ifs with hx
      · exact h.goto (by simp [LinState.move, hl, hring, hx]) (.read hcall .ret0)
      · exact h.goto (by simp [LinState.move, hl, hring, hx]) (.read hcall (.waitPc s.ring k value))
  | enter =>
      obtain ⟨m, -, rfl⟩ := Option.map_eq_some_iff.mp hs
      exact Or.inl (h.stutter hl (.read hcall .test1))
  | test1 =>
      obtain rfl := Option.some.inj hs
      exact h.goto (by simp [LinState.move, hl, hring]) (.read hcall (.test2 _))
  | test2 x =>
      obtain rfl := Option.some.inj hs
      split_ifs with hx
      · exact h.goto (by simp [LinState.move, hl, hring, hx]) (.read hcall .wait)
      · exact h.goto (by simp [LinState.move, hl, hring, hx]) (.read hcall .leave)
  | wait =>
      obtain rfl := Option.some.inj hs
      exact Or.inl (h.stutter hl (.read hcall .wake))
  | wake =>
      obtain ⟨m, -, rfl⟩ := Option.map_eq_some_iff.mp hs
      exact Or.inl (h.stutter hl (.read hcall .test1))
  | leave =>
      obtain rfl := Option.some.inj hs
      exact Or.inl (h.stutter hl (.read hcall .index))
  | poll1 =>
      obtain rfl := Option.some.inj hs
      exact h.goto (by simp [LinState.move, hl, hring]) (.read hcall (.poll2 _))
  | poll2 x =>
      obtain rfl := Option.some.inj hs
      split_ifs with hx
      · exact h.goto (by simp [LinState.move, hl, hring, hx]) (.read hcall .poll1)
      · exact h.goto (by simp [LinState.move, hl, hring, hx]) (.read hcall .index)
  | index =>
      obtain rfl := Option.some.inj hs
      exact h.goto (by simp [LinState.move, hl, hring]) (.read hcall (.slot s.ring.start))
  | slot e =>
      obtain rfl := Option.some.inj hs
      refine Or.inr ⟨_, by simp only [LinState.move, hl, hring]; rfl, ?_⟩
      exact ⟨hring, h.wlock, h.rlock, h.points_step (.read hcall (.next _)), h.done⟩
  | next v =>
      obtain rfl := Option.some.inj hs
      exact h.goto (by simp [LinState.move, hl, hring]) (.read hcall (.store v s.ring.start))
  | store v e =>
      obtain rfl := Option.some.inj hs
      refine Or.inr ⟨_, by simp only [LinState.move, hl]; rfl, ?_⟩
      exact ⟨congrArg (fun rb => Side.storeIndex rb (uadd 64 e 1 % rb.size) .read) hring,
        h.wlock, h.rlock, h.points_step (.read hcall (.stored s.ring k value v)), h.done⟩
  | notify v =>
      obtain ⟨m, -, rfl⟩ := Option.map_eq_some_iff.mp hs
      exact Or.inl (h.stutter hl (.read hcall (.broadcast v)))
  | broadcast v =>
      obtain rfl := Option.some.inj hs
      exact Or.inl (h.stutter hl (.read hcall (.release v)))
  | release v =>
      obtain rfl := Option.some.inj hs
      exact Or.inl (h.stutter hl (.read hcall (.assign v)))
  | assign v =>
      obtain rfl := Option.some.inj hs
      have hshown : Shown (some ⟨call, .one k.tries v, .ret 1, turns⟩) (.rUnlock k 1 (some v)) :=
        .read hcall .ret
      have hpoints := h.points_step (t := t) hshown
      rw [← hl, Function.update_eq_self] at hpoints
      exact Or.inl ⟨hring, h.wlock, h.rlock, hpoints, h.done⟩
  | ret =>
      obtain rfl := Option.some.inj hs
      refine Or.inr ⟨_, by simp only [LinState.move, hl]; rfl, ?_⟩
      refine ⟨hring, ?_, ?_, h.points_step .idle,
        List.rel_append h.done (.cons (.read t _ hcall rfl) .nil)⟩
      · simpa [hlock, LinState.finish, LinState.goto] using h.wlock
      · simp [hlock]
  | ret0 =>
      obtain rfl := Option.some.inj hs
      refine Or.inr ⟨_, by simp only [LinState.move, hl]; rfl, ?_⟩
      refine ⟨hring, ?_, ?_, h.points_step .idle,
        List.rel_append h.done (.cons (.read0 t _ hcall) .nil)⟩
      · simpa [hlock, LinState.finish, LinState.goto] using h.wlock
      · simp [hlock]

/-- Every step is one step of `Linear` or none. -/
lemma step (h : SeenAs s l) {a : RingAction τ α} (ha : Allowed (fun _ => none) s a)
    (hs : s.step a = some s') :
    SeenAs s' l ∨ ∃ b l', ShownAction b a ∧ l.step b = some l' ∧ SeenAs s' l' := by
  cases a with
  | spurious t d =>
      obtain rfl := RingState.step_spurious hs
      exact Or.inl ⟨h.ring, h.wlock, h.rlock, h.points, h.done⟩
  | call t call =>
      obtain ⟨hf, rfl⟩ := RingState.step_call hs
      have hl : l.point t = .idle := by
        have hp := h.points t
        rw [hf] at hp
        generalize l.point t = p at hp
        cases hp
        rfl
      rcases Permitted.shared ha with ⟨c, hcall⟩ | ⟨k, hcall⟩
      · refine Or.inr ⟨.callWrite t c, _, .write t hcall, by simp only [LinState.step, hl]; rfl, ?_⟩
        have hshown : Shown (some ⟨call, call.work, call.entry s.ring, 0⟩)
            (if c.kind = .swrite then .wLock c else .wEarly1 c) := by
          rw [(RingCall.of_writes hcall).2.2]
          exact .write hcall (.entry s.ring hcall)
        exact ⟨h.ring, h.wlock, h.rlock, h.points_step hshown, h.done⟩
      · refine Or.inr ⟨.callRead t k, _, .read t hcall, by simp only [LinState.step, hl]; rfl, ?_⟩
        have hshown : Shown (some ⟨call, call.work, call.entry s.ring, 0⟩)
            (if k = .sread then .rLock k else .rEarly1 k) := by
          obtain ⟨-, -, value, hwork⟩ := RingCall.of_reads hcall
          rw [hwork]
          exact .read hcall (.entry s.ring value hcall)
        exact ⟨h.ring, h.wlock, h.rlock, h.points_step hshown, h.done⟩
  | move t =>
      cases hf : s.frame t with
      | none => simp [RingState.step, RingState.move, hf] at hs
      | some f =>
          have hp := h.points t
          rw [hf] at hp
          generalize hl : l.point t = p at hp
          cases hp with
          | write hcall hpc =>
              rcases h.write_move hcall hpc hf hl hs with hstay | ⟨l', hmove, hl'⟩
              · exact Or.inl hstay
              · exact Or.inr ⟨.move t, l', .move t, hmove, hl'⟩
          | read hcall hpc =>
              rcases h.read_move hcall hpc hf hl hs with hstay | ⟨l', hmove, hl'⟩
              · exact Or.inl hstay
              · exact Or.inr ⟨.move t, l', .move t, hmove, hl'⟩

end SeenAs

/-- **The thread-safe single-element operations are a linearizable bounded FIFO
in both modes**: for any threads, any calls and any interleaving, a run of
`Linear` from the same fresh ring, whose steps are those of the run without some
of them, ends with the same ring, the same locks and the same results; in it the
values returned are a prefix of those written, at most `n` are held, no unread
slot was overwritten and no other slot was read, and every call moved its one
value while it ran or returned 0. -/
theorem single_ops_linearize_in_both_modes [DecidableEq τ] {null : α} {n : UInt64} {mode : ℤ}
    {callocOk : Bool} {rb : ZxRingbuffer α}
    (hinit : ZxRingbuffer.init null n.toNat mode callocOk = .ok rb)
    {as : List (RingAction τ α)} {s : RingState τ α}
    (hrun : Run RingState.step (Allowed fun _ => none) (RingState.start rb) as s) :
    ∃ (bs : List (LinAction τ α)) (l : LinState τ α),
      Run LinState.step (fun _ _ => True) (LinState.start rb) bs l ∧
      List.SublistForall₂ ShownAction bs as ∧ SeenAs s l ∧
      l.returned <+: l.written ∧ l.written.length ≤ l.returned.length + n.toNat ∧
      l.mem.clobbered = false ∧ l.mem.stale = false ∧ ∀ d ∈ l.done, d.Sound := by
  obtain ⟨bs, l, hr, hbs, hl⟩ := hrun.simulates_stuttering (SeenAs.start rb)
    fun _ _ _ _ h ha hs => (h.step ha hs).imp_right
      fun ⟨b, l', hshown, hl, h'⟩ => ⟨b, l', hshown, trivial, hl, h'⟩
  obtain ⟨log, lo, h⟩ := LinInv.of_run hinit hr
  exact ⟨bs, l, hr, hbs, hl, h.fifo⟩

/-- A `try_swrite` and a `sread` that sleeps in between, as `Linear` has them. -/
theorem blocking_ops_linearize :
    ∃ (s : RingState ℕ ℕ) (bs : List (LinAction ℕ ℕ)) (l : LinState ℕ ℕ),
      s.done.map (fun r => (r.1.turns, r.2)) = [(0, 1), (1, 1), (0, 0)] ∧
      Run LinState.step (fun _ _ => True) (LinState.start ⟨0, 2, 0, fun _ => 0, 0⟩) bs l ∧
      List.SublistForall₂ ShownAction bs tryBeside ∧ SeenAs s l ∧ l.returned <+: l.written := by
  have hinit : ZxRingbuffer.init 0 (1 : UInt64).toNat ZxRingbuffer.blocking true =
      .ok ⟨0, 2, 0, fun _ => 0, 0⟩ := rfl
  have hrun : (exec (fun s a => if Allowed (fun _ => none) s a then RingState.step s a else none)
      (RingState.start ⟨0, 2, 0, fun _ => 0, 0⟩) tryBeside).map
        (fun s => s.done.map fun r => (r.1.turns, r.2)) = some [(0, 1), (1, 1), (0, 0)] := by
    decide +kernel
  obtain ⟨s, hs, hdone⟩ := Option.map_eq_some_iff.mp hrun
  obtain ⟨bs, l, hr, hbs, hl, hfifo, -⟩ :=
    single_ops_linearize_in_both_modes hinit (run_of_exec_guarded hs)
  exact ⟨s, bs, l, hdone, hr, hbs, hl, hfifo⟩

end CLibrary
