import CLibrary.RingBuffer.Bulk
import CLibrary.RingBuffer.Threads

/-!
The runs of `Threads` that `Wakeup` and `Bulk` speak of.

* `RingCall.blocking?`, `WaitAt`, `SeenWaiting`: a ring on which all calls are of
  `zx_ringbuffer_swrite` and `zx_ringbuffer_sread`, as `Wakeup` has it.
* `calls_lose_no_wakeup`: every run of such calls is one of `Wakeup`, so it loses
  no wakeup.
* `BulkState.move_eq`: the two threads of `Bulk`, written with the sides of `Threads`.
* `BulkAt`, `SeenPair`: a ring with one thread in `zx_ringbuffer_write_bulk` and one in
  `zx_ringbuffer_read_bulk`, as `Bulk` has it.
* `bulk_calls_lossless`: every run of such calls is one of `Bulk`, in either mode, so it
  is lossless where no index wraps between two loads.
-/

namespace CLibrary

open ZxRingbuffer (BulkCall bulkError nbReady)

variable {τ α : Type*}

/-! ### Waiting calls -/

/-- A call that `Wakeup` speaks of. -/
def RingCall.blocking? : RingCall α → Option (BlockingCall α)
  | .swrite value => some (.swrite value)
  | .sread _ => some .sread
  | _ => none

/-- Where `Wakeup` has the call `c` whose variable holds `value`.  A write has no
value to deliver. -/
inductive WaitAt (c : BlockingCall α) (value : α) : RingPc α → WaitPoint α → Prop
  | lock : WaitAt c value .lock (.lock c)
  | enter : WaitAt c value .enter (.enter c)
  | test1 : WaitAt c value .test1 (.test1 c)
  | test2 (x : ℕ) : WaitAt c value (.test2 x) (.test2 c x)
  | wait : WaitAt c value .wait (.wait c)
  | wake : WaitAt c value .wake (.wake c)
  | leave : WaitAt c value .leave (.leave c)
  | poll1 : WaitAt c value .poll1 (.poll1 c)
  | poll2 (x : ℕ) : WaitAt c value (.poll2 x) (.poll2 c x)
  | index : WaitAt c value .index (.index c)
  | slot (e : ℕ) : WaitAt c value (.slot e) (.slot c e)
  | next {v : Option α} (hv : c.side = .write → v = none) : WaitAt c value (.next v) (.next c v)
  | store {v : Option α} (hv : c.side = .write → v = none) (e : ℕ) :
      WaitAt c value (.store v e) (.store c v e)
  | notify {v : Option α} (hv : c.side = .write → v = none) :
      WaitAt c value (.notify v) (.notify c v)
  | broadcast {v : Option α} (hv : c.side = .write → v = none) :
      WaitAt c value (.broadcast v) (.broadcast c v)
  | release {v : Option α} (hv : c.side = .write → v = none) :
      WaitAt c value (.release v) (.release c v)
  | assign {v : α} (hread : c.side ≠ .write) : WaitAt c value (.assign v) (.unlock c (some v))
  | written : WaitAt c value (.ret 1) (.unlock c none)
  | delivered : WaitAt c value (.ret 1) (.unlock c (some value))

/-- Where `Wakeup` has a thread. -/
inductive WaitShown : Option (RingFrame α) → WaitPoint α → Prop
  | idle : WaitShown none .idle
  | inside {call : RingCall α} {c : BlockingCall α} {value : α} {pc : RingPc α} {p : WaitPoint α}
      {turns : ℕ} (hcall : call.blocking? = some c) (hvalue : ∀ v, c = .swrite v → value = v)
      (hpc : WaitAt c value pc p) : WaitShown (some ⟨call, .one false value, pc, turns⟩) p

/-- The state `s`, as `Wakeup` has it. -/
structure SeenWaiting (s : RingState τ α) (w : WaitState τ α) : Prop where
  ring : w.ring = s.ring
  spin : w.spin = s.spin
  cond : w.cond = s.cond
  points : ∀ t, WaitShown (s.frame t) (w.point t)

/-- Some call of side `d` has stored its index and not yet broadcast. -/
def RingState.Announced (s : RingState τ α) (d : Side) : Prop :=
  ∃ t f v, s.frame t = some f ∧ f.call.side = d ∧ (f.pc = .notify v ∨ f.pc = .broadcast v)

/-- What `Wakeup` has of a step: the same one. -/
inductive WaitShownAction : WaitAction τ α → RingAction τ α → Prop
  | call (t : τ) {call : RingCall α} {c : BlockingCall α} (hcall : call.blocking? = some c) :
      WaitShownAction (.call t c) (.call t call)
  | move (t : τ) : WaitShownAction (.move t) (.move t)
  | spurious (t : τ) (d : Side) : WaitShownAction (.spurious t d) (.spurious t d)

/-- Every call waits until it can move its value. -/
def OnlyBlocking (_ : RingState τ α) : RingAction τ α → Prop
  | .call _ c => c.blocking?.isSome = true
  | .move _ => True
  | .spurious _ _ => True

lemma RingCall.of_blocking {call : RingCall α} {c : BlockingCall α} (h : call.blocking? = some c) :
    call.side = c.side ∧ call.lock ≠ .alone ∧
      (∃ value, call.work = .one false value ∧ ∀ v, c = .swrite v → value = v) ∧
      ∀ rb, call.entry rb = .lock := by
  cases call with
  | swrite value =>
      obtain rfl := Option.some.inj h
      refine ⟨rfl, by simp [lock], ⟨value, rfl, ?_⟩, fun _ => rfl⟩
      rintro v ⟨⟩
      rfl
  | sread value =>
      obtain rfl := Option.some.inj h
      exact ⟨rfl, by simp [lock], ⟨value, rfl, fun v hv => by cases hv⟩, fun _ => rfl⟩
  | _ => cases h

lemma BlockingCall.storeSlot_eq {c : BlockingCall α} {value : α}
    (hvalue : ∀ v, c = .swrite v → value = v) (rb : ZxRingbuffer α) (e : ℕ) :
    c.side.storeSlot rb e value = c.storeSlot rb e := by
  cases c with
  | swrite v =>
      obtain rfl := hvalue v rfl
      rfl
  | sread => rfl

lemma BlockingCall.loadSlot_eq (c : BlockingCall α) (rb : ZxRingbuffer α) (e : ℕ) :
    c.side.loadSlot rb e = c.loadSlot rb e := by
  cases c with
  | swrite v => rfl
  | sread => rfl

namespace WaitAt

variable {c : BlockingCall α} {value : α}

lemma waitPc (rb : ZxRingbuffer α) :
    WaitAt c value (waitPc rb)
      (if rb.mode = ZxRingbuffer.blocking then .enter c else .poll1 c) := by
  rw [CLibrary.waitPc]
  split_ifs
  · exact .enter
  · exact .poll1

lemma after (rb : ZxRingbuffer α) {v : Option α} (hv : c.side = .write → v = none) :
    WaitAt c value ((Work.one false value).after rb v) (.unlock c v) := by
  cases v with
  | none => exact .written
  | some v => exact .assign fun hw => by cases hv hw

lemma stored (rb : ZxRingbuffer α) {v : Option α} (hv : c.side = .write → v = none) :
    WaitAt c value ((Work.one false value).stored rb v)
      (if rb.mode = ZxRingbuffer.blocking then .notify c v else .unlock c v) := by
  rw [Work.stored]
  split_ifs
  · exact .notify hv
  · exact .after rb hv

end WaitAt

namespace SeenWaiting

/-- A fresh ring, all threads idle. -/
lemma start (rb : ZxRingbuffer α) :
    SeenWaiting (RingState.start rb : RingState τ α) (WaitState.start rb) :=
  ⟨rfl, rfl, rfl, fun _ => .idle⟩

variable {s s' : RingState τ α} {w : WaitState τ α} {t : τ}

/-- A broadcast that is still to come in `Wakeup` is so in the ring. -/
lemma announced (h : SeenWaiting s w) {d : Side} (ha : w.Announced d) : s.Announced d := by
  obtain ⟨t, ht⟩ := ha
  have hp := h.points t
  generalize w.point t = p at ht hp
  generalize hf : s.frame t = frame at hp
  cases hp with
  | idle => cases ht
  | inside hcall hvalue hat =>
      have hside := (RingCall.of_blocking hcall).1
      cases hat with
      | notify hv => exact ⟨t, _, _, hf, hside.trans (of_decide_eq_true ht), Or.inl rfl⟩
      | broadcast hv => exact ⟨t, _, _, hf, hside.trans (of_decide_eq_true ht), Or.inr rfl⟩
      | _ => cases ht

variable [DecidableEq τ]

/-- A step from point to point in both. -/
lemma goto (h : SeenWaiting s w) {f : RingFrame α} {pc : RingPc α} {p : WaitPoint α}
    (hmove : w.move t = some (w.goto t p)) (hp : WaitShown (some { f with pc := pc }) p) :
    SeenWaiting (s.goto t f pc) w ∨ ∃ w', w.move t = some w' ∧ SeenWaiting (s.goto t f pc) w' :=
  Or.inr ⟨_, hmove, h.ring, h.spin, h.cond, points_rel hp h.points⟩

/-- A step at a monitor in both. -/
lemma gotoWith (h : SeenWaiting s w) {f : RingFrame α} {pc : RingPc α} {p : WaitPoint α} {d : Side}
    {m : Monitor τ} (hmove : w.move t = some (w.gotoWith t p d m))
    (hp : WaitShown (some { f with pc := pc }) p) :
    SeenWaiting (s.gotoWith t f pc d m) w ∨
      ∃ w', w.move t = some w' ∧ SeenWaiting (s.gotoWith t f pc d m) w' :=
  Or.inr ⟨_, hmove, h.ring, h.spin,
    by simp only [WaitState.gotoWith, RingState.gotoWith, h.cond], points_rel hp h.points⟩

/-- A move of a thread in a call. -/
lemma move (h : SeenWaiting s w) (hs : s.move t = some s') :
    SeenWaiting s' w ∨ ∃ w', w.move t = some w' ∧ SeenWaiting s' w' := by
  have hring := h.ring
  have hspin := h.spin
  have hcond := h.cond
  have hp := h.points t
  generalize hl : w.point t = p at hp
  rw [RingState.move] at hs
  cases hf : s.frame t with
  | none => simp [hf] at hs
  | some f =>
      rw [hf] at hs hp
      cases hp with
      | @inside call c value pc _ turns hcall hvalue hat =>
          obtain ⟨hside, hlock, -, -⟩ := RingCall.of_blocking hcall
          dsimp only at hs
          simp only [hside] at hs
          cases hat with
          | lock =>
              cases hfree : s.spin c.side with
              | some u => simp [hfree] at hs
              | none =>
                  rw [hfree] at hs
                  obtain rfl := Option.some.inj hs
                  refine Or.inr ⟨_, by simp only [WaitState.move, hl, hspin, hfree]; rfl, ?_⟩
                  refine ⟨hring, rfl, hcond, points_rel ?_ h.points⟩
                  rw [hring]
                  exact .inside hcall hvalue (.waitPc s.ring)
          | enter =>
              obtain ⟨m, hm, rfl⟩ := Option.map_eq_some_iff.mp hs
              exact h.gotoWith (by simp only [WaitState.move, hl, hcond, hm]; rfl)
                (.inside hcall hvalue .test1)
          | test1 =>
              obtain rfl := Option.some.inj hs
              exact h.goto (by simp only [WaitState.move, hl, hring])
                (.inside hcall hvalue (.test2 _))
          | test2 x =>
              obtain rfl := Option.some.inj hs
              split_ifs with hx
              · exact h.goto (by simp only [WaitState.move, hl, hring, if_pos hx])
                  (.inside hcall hvalue .wait)
              · exact h.goto (by simp only [WaitState.move, hl, hring, if_neg hx])
                  (.inside hcall hvalue .leave)
          | wait =>
              obtain rfl := Option.some.inj hs
              exact h.gotoWith (by simp only [WaitState.move, hl, hcond])
                (.inside hcall hvalue .wake)
          | wake =>
              obtain ⟨m, hm, rfl⟩ := Option.map_eq_some_iff.mp hs
              exact h.gotoWith (by simp only [WaitState.move, hl, hcond, hm]; rfl)
                (.inside hcall hvalue .test1)
          | leave =>
              obtain rfl := Option.some.inj hs
              exact h.gotoWith (by simp only [WaitState.move, hl, hcond])
                (.inside hcall hvalue .index)
          | poll1 =>
              obtain rfl := Option.some.inj hs
              exact h.goto (by simp only [WaitState.move, hl, hring])
                (.inside hcall hvalue (.poll2 _))
          | poll2 x =>
              obtain rfl := Option.some.inj hs
              split_ifs with hx
              · exact h.goto (by simp only [WaitState.move, hl, hring, if_pos hx])
                  (.inside hcall hvalue .poll1)
              · exact h.goto (by simp only [WaitState.move, hl, hring, if_neg hx])
                  (.inside hcall hvalue .index)
          | index =>
              obtain rfl := Option.some.inj hs
              exact h.goto (by simp only [WaitState.move, hl, hring])
                (.inside hcall hvalue (.slot _))
          | slot e =>
              obtain rfl := Option.some.inj hs
              refine Or.inr ⟨_, by simp only [WaitState.move, hl]; rfl, ?_⟩
              refine ⟨?_, hspin, hcond, points_rel ?_ h.points⟩
              · rw [hring]
                exact (BlockingCall.storeSlot_eq hvalue s.ring e).symm
              · rw [hring, BlockingCall.loadSlot_eq]
                refine .inside hcall hvalue (.next fun hw => ?_)
                cases c with
                | swrite v => rfl
                | sread => cases hw
          | next hv =>
              obtain rfl := Option.some.inj hs
              exact h.goto (by simp only [WaitState.move, hl, hring])
                (.inside hcall hvalue (.store hv _))
          | @store v hv e =>
              obtain rfl := Option.some.inj hs
              refine Or.inr ⟨_, by simp only [WaitState.move, hl]; rfl, ?_⟩
              refine ⟨by rw [hring], hspin, hcond, points_rel ?_ h.points⟩
              rw [hring]
              exact .inside hcall hvalue (.stored s.ring hv)
          | notify hv =>
              obtain ⟨m, hm, rfl⟩ := Option.map_eq_some_iff.mp hs
              exact h.gotoWith (by simp only [WaitState.move, hl, hcond, hm]; rfl)
                (.inside hcall hvalue (.broadcast hv))
          | broadcast hv =>
              obtain rfl := Option.some.inj hs
              exact h.gotoWith (by simp only [WaitState.move, hl, hcond])
                (.inside hcall hvalue (.release hv))
          | release hv =>
              obtain rfl := Option.some.inj hs
              exact h.gotoWith (by simp only [WaitState.move, hl, hcond])
                (.inside hcall hvalue (.after s.ring hv))
          | @assign v hread =>
              obtain rfl := Option.some.inj hs
              have hshown : WaitShown (some ⟨call, .one false v, .ret 1, turns⟩)
                  (.unlock c (some v)) :=
                .inside hcall (fun u hu => absurd (hu ▸ rfl) hread) .delivered
              have hpoints := points_rel (t := t) hshown h.points
              rw [← hl, Function.update_eq_self] at hpoints
              exact Or.inl ⟨hring, hspin, hcond, hpoints⟩
          | written | delivered =>
              obtain rfl := Option.some.inj hs
              refine Or.inr ⟨_, by simp only [WaitState.move, hl]; rfl, ?_⟩
              refine ⟨hring, ?_, hcond, points_rel .idle h.points⟩
              rw [if_neg hlock, hspin]

/-- Every step is one step of `Wakeup` or none. -/
lemma step (h : SeenWaiting s w) {a : RingAction τ α} (ha : OnlyBlocking s a)
    (hs : s.step a = some s') :
    SeenWaiting s' w ∨ ∃ b w', WaitShownAction b a ∧ w.step b = some w' ∧ SeenWaiting s' w' := by
  cases a with
  | call t call =>
      obtain ⟨hf, rfl⟩ := RingState.step_call hs
      obtain ⟨c, hcall⟩ := Option.isSome_iff_exists.mp ha
      obtain ⟨-, -, ⟨value, hwork, hvalue⟩, hentry⟩ := RingCall.of_blocking hcall
      have hl : w.point t = .idle := by
        have hp := h.points t
        rw [hf] at hp
        generalize w.point t = p at hp
        cases hp
        rfl
      refine Or.inr ⟨.call t c, _, .call t hcall, by simp only [WaitState.step, hl]; rfl, ?_⟩
      refine ⟨h.ring, h.spin, h.cond, points_rel ?_ h.points⟩
      rw [hentry, hwork]
      exact .inside hcall hvalue .lock
  | move t =>
      rcases h.move hs with hstay | ⟨w', hmove, h'⟩
      · exact Or.inl hstay
      · exact Or.inr ⟨.move t, w', .move t, hmove, h'⟩
  | spurious t d =>
      simp only [RingState.step] at hs
      split_ifs at hs with hasleep
      obtain rfl := Option.some.inj hs
      refine Or.inr ⟨.spurious t d, _, .spurious t d,
        by simp only [WaitState.step, h.cond]; exact if_pos hasleep, ?_⟩
      exact ⟨h.ring, h.spin, rfl, h.points⟩

end SeenWaiting

/-- **The calls lose no wakeup**: on a blocking ring that any threads use through
`zx_ringbuffer_swrite` and `zx_ringbuffer_sread`, a thread asleep while the ring would
let it through has one of the other side that is still to broadcast, and both sides are
never asleep with no broadcast pending. -/
theorem calls_lose_no_wakeup [DecidableEq τ] {null : α} {n : UInt64} {callocOk : Bool}
    {rb : ZxRingbuffer α}
    (hinit : ZxRingbuffer.init null n.toNat ZxRingbuffer.blocking callocOk = .ok rb)
    {as : List (RingAction τ α)} {s : RingState τ α}
    (hrun : Run RingState.step OnlyBlocking (RingState.start rb) as s) :
    (∀ t ∈ (s.cond .write).asleep, s.ring.isFull = false → s.Announced .read) ∧
      (∀ t ∈ (s.cond .read).asleep, s.ring.isEmpty = false → s.Announced .write) ∧
      ∀ t ∈ (s.cond .write).asleep, ∀ u ∈ (s.cond .read).asleep,
        s.Announced .read ∨ s.Announced .write := by
  obtain ⟨bs, w, hw, -, hseen⟩ := hrun.simulates_stuttering (SeenWaiting.start rb)
    fun _ _ _ _ h ha hs => (h.step ha hs).imp_right
      fun ⟨b, w', hshown, hw, h'⟩ => ⟨b, w', hshown, trivial, hw, h'⟩
  have hinv := WaitInv.of_run hinit hw
  rw [← hseen.cond, ← hseen.ring]
  exact ⟨fun t ht hfull => hseen.announced (hinv.announced_of_asleep (d := .write) ht hfull),
    fun t ht hempty => hseen.announced (hinv.announced_of_asleep (d := .read) ht hempty),
    fun t ht u hu => (hinv.announced_of_both ht hu).imp hseen.announced hseen.announced⟩

/-! ### A bulk writer and a bulk reader -/

/-- The arguments of a bulk call without a lock. -/
def RingCall.bulk? : RingCall α → Option (ℕ × ℕ)
  | .writeBulk _ nb mn | .readBulk _ nb mn => some (nb.toNat, mn.toNat)
  | _ => none

namespace Side

/-- The second load on an `else` branch finds the other side's index where the branch
needs it, or the call wants no more than there is. -/
def Unwrapped (rb : ZxRingbuffer α) (c : BulkCall α) : Side → Prop
  | .write => rb.endIdx < rb.start ∨ c.nbBuffers - c.i ≤ rb.size - 1 - rb.fill
  | .read => rb.start ≤ rb.endIdx ∨ c.nbBuffers - c.i ≤ rb.fill

/-- A step of the thread of this side. -/
def action : Side → BulkAction α
  | .write => .writer
  | .read => .reader

end Side

lemma BulkPoint.far?_eq_some {p : BulkPoint α} {c : BulkCall α} :
    p.far? = some c ↔ p = .far1 c := by
  cases p <;> simp [far?]

namespace BulkState

/-- Where the thread of side `d` is. -/
def point (b : BulkState α) : Side → BulkPoint α
  | .write => b.w
  | .read => b.r

/-- The thread of side `d` goes to point `p`. -/
def setPoint (b : BulkState α) (p : BulkPoint α) : Side → BulkState α
  | .write => { b with w := p }
  | .read => { b with r := p }

/-- The copy of one value. -/
def access (b : BulkState α) (c : BulkCall α) (e : ℕ) : Side → BulkState α
  | .write => { b with
      mem := b.mem.storeSlot e (c.values c.i), written := b.written ++ [c.values c.i] }
  | .read => { b with mem := b.mem.loadSlot e, taken := b.taken ++ [b.mem.rb.elements e] }

/-- The store of the index. -/
def publish (b : BulkState α) (e : ℕ) : Side → BulkState α
  | .write => { b with mem := b.mem.storeEnd e }
  | .read => { b with mem := b.mem.storeStart e }

/-- The next step of the thread of side `d`. -/
def move (b : BulkState α) : Side → Option (BulkState α)
  | .write => b.writerStep
  | .read => b.readerStep

@[simp] lemma setPoint_mem (b : BulkState α) (p : BulkPoint α) (d : Side) :
    (b.setPoint p d).mem = b.mem := by
  cases d <;> rfl

@[simp] lemma setPoint_returns (b : BulkState α) (p : BulkPoint α) (d : Side) :
    (b.setPoint p d).returns = b.returns := by
  cases d <;> rfl

@[simp] lemma point_setPoint (b : BulkState α) (p : BulkPoint α) (d : Side) :
    (b.setPoint p d).point d = p := by
  cases d <;> rfl

@[simp] lemma point_setPoint_other (b : BulkState α) (p : BulkPoint α) (d : Side) :
    (b.setPoint p d).point d.other = b.point d.other := by
  cases d <;> rfl

/-- A record of a return moves no thread. -/
@[simp] lemma point_returns (b : BulkState α) (returns : List (ℕ × ℕ × ℕ)) (d : Side) :
    ({ b with returns := returns } : BulkState α).point d = b.point d := by
  cases d <;> rfl

@[simp] lemma access_rb (b : BulkState α) (c : BulkCall α) (e : ℕ) (d : Side) :
    (b.access c e d).mem.rb = d.storeSlot b.mem.rb e (c.values c.i) := by
  cases d <;> rfl

@[simp] lemma access_returns (b : BulkState α) (c : BulkCall α) (e : ℕ) (d : Side) :
    (b.access c e d).returns = b.returns := by
  cases d <;> rfl

@[simp] lemma access_point (b : BulkState α) (c : BulkCall α) (e : ℕ) (d d' : Side) :
    (b.access c e d).point d' = b.point d' := by
  cases d <;> cases d' <;> rfl

@[simp] lemma publish_rb (b : BulkState α) (e : ℕ) (d : Side) :
    (b.publish e d).mem.rb = d.storeIndex b.mem.rb e := by
  cases d <;> rfl

@[simp] lemma publish_returns (b : BulkState α) (e : ℕ) (d : Side) :
    (b.publish e d).returns = b.returns := by
  cases d <;> rfl

@[simp] lemma publish_point (b : BulkState α) (e : ℕ) (d d' : Side) :
    (b.publish e d).point d' = b.point d' := by
  cases d <;> cases d' <;> rfl

/-- The record of a return has it. -/
lemma mem_ret (b : BulkState α) (c : BulkCall α) (r : ℕ) :
    (c.nbBuffers, c.minNbBuffers, r) ∈ b.ret c r :=
  List.mem_append_right _ (List.mem_singleton_self _)

lemma unwrapped_iff (b : BulkState α) (d : Side) :
    Unwrapped b d.action ↔ ∀ c ∈ (b.point d).far?, d.Unwrapped b.mem.rb c := by
  cases d with
  | write => exact Iff.rfl
  | read => exact Iff.rfl

/-- The two threads are mirror images. -/
lemma move_eq (b : BulkState α) (d : Side) : b.move d =
    let rb := b.mem.rb
    match b.point d with
    | .idle => none
    | .early1 c => some (b.setPoint (.early2 c rb.start) d)
    | .early2 c x =>
        if d.blockedAt rb x then some { b.setPoint .idle d with returns := b.ret c 0 }
        else some (b.setPoint (.wait1 c) d)
    | .wait1 c => some (b.setPoint (.wait2 c rb.start) d)
    | .wait2 c x => some (b.setPoint (if d.blockedAt rb x then .wait1 c else .count1 c) d)
    | .count1 c => some (b.setPoint (.count2 c (d.other.index rb)) d)
    | .count2 c x => some (b.setPoint (if d.nearAt rb x then .near1 c else .far1 c) d)
    | .near1 c => some (b.setPoint (.near2 c (d.other.index rb)) d)
    | .near2 c x => some (b.setPoint (.index c (nbReady (d.nearCount rb x) c)) d)
    | .far1 c => some (b.setPoint (.far2 c (d.other.index rb)) d)
    | .far2 c x => some (b.setPoint (.index c (nbReady (d.farCount rb x) c)) d)
    | .index c ready => some (b.setPoint (.copy c ready (d.index rb)) d)
    | .copy c ready e =>
        if c.i < ready then
          some ((b.access c e d).setPoint (.copy (d.copied rb c e) ready (uadd 64 e 1 % rb.size)) d)
        else if c.i < c.minNbBuffers then some ((b.publish e d).setPoint (.wait1 c) d)
        else some { (b.publish e d).setPoint .idle d with returns := b.ret c c.i } := by
  cases d with
  | write =>
      simp only [move, writerStep, point]
      cases b.w with
      | early2 c x | wait2 c x | count2 c x =>
          simp only [Side.blockedAt, Side.nearAt, beq_iff_eq, decide_eq_true_eq]
          split_ifs <;> rfl
      | _ => rfl
  | read =>
      simp only [move, readerStep, point]
      cases b.r with
      | early2 c x | wait2 c x | count2 c x =>
          simp only [Side.blockedAt, Side.nearAt, beq_iff_eq, decide_eq_true_eq]
          split_ifs <;> rfl
      | _ => rfl

end BulkState

/-- Copying changes none of the arguments. -/
lemma Side.copied_args (rb : ZxRingbuffer α) (c : BulkCall α) (e : ℕ) (d : Side) :
    (some ((d.copied rb c e).nbBuffers, (d.copied rb c e).minNbBuffers) : Option (ℕ × ℕ)) =
      some (c.nbBuffers, c.minNbBuffers) := by
  cases d <;> rfl

/-- Where `Bulk` has the call `c`.  It has returned there once its index is stored for
the last time, and `returns` has its result. -/
inductive BulkAt (returns : List (ℕ × ℕ × ℕ)) (c : BulkCall α) : RingPc α → BulkPoint α → Prop
  | full1 : BulkAt returns c .full1 (.early1 c)
  | full2 (x : ℕ) : BulkAt returns c (.full2 x) (.early2 c x)
  | enter : BulkAt returns c .enter (.wait1 c)
  | test1 : BulkAt returns c .test1 (.wait1 c)
  | test2 (x : ℕ) : BulkAt returns c (.test2 x) (.wait2 c x)
  | wait : BulkAt returns c .wait (.wait1 c)
  | wake : BulkAt returns c .wake (.wait1 c)
  | leave : BulkAt returns c .leave (.count1 c)
  | poll1 : BulkAt returns c .poll1 (.wait1 c)
  | poll2 (x : ℕ) : BulkAt returns c (.poll2 x) (.wait2 c x)
  | count1 : BulkAt returns c .count1 (.count1 c)
  | count2 (x : ℕ) : BulkAt returns c (.count2 x) (.count2 c x)
  | near1 : BulkAt returns c .near1 (.near1 c)
  | near2 (x : ℕ) : BulkAt returns c (.near2 x) (.near2 c x)
  | far1 : BulkAt returns c .far1 (.far1 c)
  | far2 (x : ℕ) : BulkAt returns c (.far2 x) (.far2 c x)
  | base (ready : ℕ) : BulkAt returns c (.base ready) (.index c ready)
  | copy (ready e : ℕ) : BulkAt returns c (.copy ready e) (.copy c ready e)
  /-- The notification after a pass that is not the last. -/
  | notify (hmore : c.i < c.minNbBuffers) : BulkAt returns c (.notify none) (.wait1 c)
  | broadcast (hmore : c.i < c.minNbBuffers) : BulkAt returns c (.broadcast none) (.wait1 c)
  | release (hmore : c.i < c.minNbBuffers) : BulkAt returns c (.release none) (.wait1 c)
  /-- The notification after the last. -/
  | notified (hlast : ¬ c.i < c.minNbBuffers)
      (hret : (c.nbBuffers, c.minNbBuffers, c.i) ∈ returns) :
      BulkAt returns c (.notify none) .idle
  | waking (hlast : ¬ c.i < c.minNbBuffers)
      (hret : (c.nbBuffers, c.minNbBuffers, c.i) ∈ returns) :
      BulkAt returns c (.broadcast none) .idle
  | released (hlast : ¬ c.i < c.minNbBuffers)
      (hret : (c.nbBuffers, c.minNbBuffers, c.i) ∈ returns) :
      BulkAt returns c (.release none) .idle
  | ret {r : ℕ} (hret : (c.nbBuffers, c.minNbBuffers, r) ∈ returns) :
      BulkAt returns c (.ret r) .idle

/-- Where `Bulk` has the thread of side `d`. -/
inductive BulkShown (d : Side) (returns : List (ℕ × ℕ × ℕ)) :
    Option (RingFrame α) → BulkPoint α → Prop
  | idle : BulkShown d returns none .idle
  | inside {call : RingCall α} {c : BulkCall α} {pc : RingPc α} {p : BulkPoint α} {turns : ℕ}
      (hside : call.side = d) (hcall : call.bulk? = some (c.nbBuffers, c.minNbBuffers))
      (hpc : BulkAt returns c pc p) : BulkShown d returns (some ⟨call, .bulk c, pc, turns⟩) p

/-- `Bulk` has the result of a call that has returned. -/
def HasReturned (returns : List (ℕ × ℕ × ℕ)) (q : RingFrame α × ℕ) : Prop :=
  ∃ nb mn, q.1.call.bulk? = some (nb, mn) ∧ (nb, mn, q.2) ∈ returns

/-- The state `s`, as `Bulk` has it; `who` are the two threads. -/
structure SeenPair (who : Side → τ) (s : RingState τ α) (b : BulkState α) : Prop where
  ring : b.mem.rb = s.ring
  points : ∀ d, BulkShown d b.returns (s.frame (who d)) (b.point d)
  others : ∀ t, (∀ d, who d ≠ t) → s.frame t = none
  done : ∀ q ∈ s.done, HasReturned b.returns q

/-- One thread calls `zx_ringbuffer_write_bulk` only and one `zx_ringbuffer_read_bulk`,
and no index wraps between their two loads. -/
def PairUnwrapped (who : Side → τ) (s : RingState τ α) : RingAction τ α → Prop
  | .call t call => ∃ d, who d = t ∧ call.side = d ∧ call.bulk?.isSome = true
  | .move t => ∀ d c, who d = t → ∀ f ∈ s.frame t, f.pc = .far1 → f.work = .bulk c →
      d.Unwrapped s.ring c
  | .spurious _ _ => True

/-- What `Bulk` has of a step: the same call or the same move. -/
inductive BulkShownAction (who : Side → τ) : BulkAction α → RingAction τ α → Prop
  | callWriter (values : ℕ → α) (nb mn : UInt64) : BulkShownAction who (.callWriter values nb mn)
      (.call (who .write) (.writeBulk values nb mn))
  | callReader (values : ℕ → α) (nb mn : UInt64) : BulkShownAction who (.callReader values nb mn)
      (.call (who .read) (.readBulk values nb mn))
  | move (d : Side) : BulkShownAction who d.action (.move (who d))

namespace BulkAt

variable {returns returns' : List (ℕ × ℕ × ℕ)} {c : BulkCall α} {pc : RingPc α} {p : BulkPoint α}

/-- More calls have returned. -/
lemma mono (h : BulkAt returns c pc p) (hsub : returns ⊆ returns') : BulkAt returns' c pc p := by
  cases h with
  | notified hlast hret => exact .notified hlast (hsub hret)
  | waking hlast hret => exact .waking hlast (hsub hret)
  | released hlast hret => exact .released hlast (hsub hret)
  | ret hret => exact .ret (hsub hret)
  | _ => constructor <;> assumption

lemma waitPc (rb : ZxRingbuffer α) : BulkAt returns c (waitPc rb) (.wait1 c) := by
  rw [CLibrary.waitPc]
  split_ifs
  · exact .enter
  · exact .poll1

/-- Behind a pass that is not the last. -/
lemma stored (rb : ZxRingbuffer α) (hmore : c.i < c.minNbBuffers) :
    BulkAt returns c ((Work.bulk c).stored rb none) (.wait1 c) := by
  rw [Work.stored, Work.after]
  split_ifs
  · exact .notify hmore
  · exact .waitPc rb

/-- Behind the last pass. -/
lemma stored_last (rb : ZxRingbuffer α) (hlast : ¬ c.i < c.minNbBuffers)
    (hret : (c.nbBuffers, c.minNbBuffers, c.i) ∈ returns) :
    BulkAt returns c ((Work.bulk c).stored rb none) .idle := by
  rw [Work.stored, Work.after, if_neg hlast]
  split_ifs
  · exact .notified hlast hret
  · exact .ret hret

end BulkAt

lemma BulkShown.mono {d : Side} {returns returns' : List (ℕ × ℕ × ℕ)} {f : Option (RingFrame α)}
    {p : BulkPoint α} (h : BulkShown d returns f p) (hsub : returns ⊆ returns') :
    BulkShown d returns' f p := by
  cases h with
  | idle => exact .idle
  | inside hside hcall hpc => exact .inside hside hcall (hpc.mono hsub)

lemma HasReturned.mono {returns returns' : List (ℕ × ℕ × ℕ)} {q : RingFrame α × ℕ}
    (h : HasReturned returns q) (hsub : returns ⊆ returns') : HasReturned returns' q := by
  obtain ⟨nb, mn, hcall, hret⟩ := h
  exact ⟨nb, mn, hcall, hsub hret⟩

namespace SeenPair

variable {who : Side → τ} {s s' : RingState τ α} {b b' : BulkState α} {d : Side}

/-- A fresh ring, both threads idle. -/
lemma start (rb : ZxRingbuffer α) :
    SeenPair who (RingState.start rb : RingState τ α) (BulkState.start rb) := by
  refine ⟨rfl, fun d => ?_, fun _ _ => rfl, fun q hq => by cases hq⟩
  cases d with
  | write => exact .idle
  | read => exact .idle

/-- The condition on a step is the one of `Bulk`. -/
lemma unwrapped (h : SeenPair who s b)
    (hok : ∀ c, ∀ f ∈ s.frame (who d), f.pc = .far1 → f.work = .bulk c → d.Unwrapped s.ring c) :
    Unwrapped b d.action := by
  rw [BulkState.unwrapped_iff, h.ring]
  intro c hc
  have hp := h.points d
  rw [BulkPoint.far?_eq_some.mp hc] at hp
  generalize hf : s.frame (who d) = frame at hp
  cases hp with
  | inside hside hcall hat =>
      cases hat
      exact hok c _ hf rfl rfl

variable [DecidableEq τ]

/-- A step of the thread of side `d`. -/
lemma update (h : SeenPair who s b) (hinj : Function.Injective who) {f : Option (RingFrame α)}
    (hframe : s'.frame = Function.update s.frame (who d) f) (hring : b'.mem.rb = s'.ring)
    (hpoint : BulkShown d b'.returns f (b'.point d))
    (hother : b'.point d.other = b.point d.other) (hret : b.returns ⊆ b'.returns)
    (hdone : ∀ q ∈ s'.done, q ∈ s.done ∨ HasReturned b'.returns q) : SeenPair who s' b' := by
  refine ⟨hring, fun e => ?_, fun t ht => ?_, fun q hq => ?_⟩
  · rw [hframe]
    by_cases he : e = d
    · rw [he, Function.update_self]
      exact hpoint
    · rw [Function.update_of_ne (hinj.ne he), Side.eq_other_of_ne he, hother]
      exact (h.points d.other).mono hret
  · rw [hframe, Function.update_of_ne (ht d).symm]
    exact h.others t ht
  · rcases hdone q hq with hq | hq
    · exact (h.done q hq).mono hret
    · exact hq

/-- A step from point to point in both. -/
lemma goto (h : SeenPair who s b) (hinj : Function.Injective who) {f : RingFrame α} {pc : RingPc α}
    {p : BulkPoint α} (hmove : b.move d = some (b.setPoint p d))
    (hp : BulkShown d b.returns (some { f with pc := pc }) p) :
    SeenPair who (s.goto (who d) f pc) b ∨
      ∃ b', b.move d = some b' ∧ SeenPair who (s.goto (who d) f pc) b' := by
  refine Or.inr ⟨_, hmove, h.update hinj rfl ?_ ?_ ?_ ?_ fun q hq => Or.inl hq⟩
  · rw [BulkState.setPoint_mem]
    exact h.ring
  · rw [BulkState.setPoint_returns, BulkState.point_setPoint]
    exact hp
  · exact b.point_setPoint_other p d
  · rw [BulkState.setPoint_returns]
    exact List.Subset.refl _

/-- A step at a monitor, which `Bulk` does not have. -/
lemma stutter (h : SeenPair who s b) (hinj : Function.Injective who) {f : RingFrame α}
    {pc : RingPc α} {e : Side} {m : Monitor τ}
    (hp : BulkShown d b.returns (some { f with pc := pc }) (b.point d)) :
    SeenPair who (s.gotoWith (who d) f pc e m) b :=
  h.update hinj rfl h.ring hp rfl (List.Subset.refl _) fun _ hq => Or.inl hq

/-- A move of a thread in a call. -/
lemma move (h : SeenPair who s b) (hinj : Function.Injective who)
    (hs : s.move (who d) = some s') :
    SeenPair who s' b ∨ ∃ b', b.move d = some b' ∧ SeenPair who s' b' := by
  have hring := h.ring
  have hp := h.points d
  have hmove := b.move_eq d
  rw [hring] at hmove
  generalize hl : b.point d = p at hp hmove
  rw [RingState.move] at hs
  cases hf : s.frame (who d) with
  | none => simp [hf] at hs
  | some f =>
      rw [hf] at hs hp
      cases hp with
      | @inside call c pc _ turns hside hcall hat =>
          subst hside
          dsimp only at hs
          cases hat with
          | full1 =>
              obtain rfl := Option.some.inj hs
              exact h.goto hinj hmove (.inside rfl hcall (.full2 _))
          | full2 x =>
              obtain rfl := Option.some.inj hs
              dsimp only at hmove
              split_ifs at hmove ⊢ with hx
              · -- `Bulk` returns 0 at once
                refine Or.inr ⟨_, hmove, h.update hinj rfl ?_ ?_ ?_ ?_ fun q hq => Or.inl hq⟩
                · rw [BulkState.setPoint_mem]
                  exact hring
                · rw [BulkState.point_returns, BulkState.point_setPoint]
                  exact .inside rfl hcall (.ret (b.mem_ret c _))
                · rw [BulkState.point_returns]
                  exact b.point_setPoint_other _ _
                · exact List.subset_append_left _ _
              · exact h.goto hinj hmove (.inside rfl hcall (.waitPc s.ring))
          | enter =>
              obtain ⟨m, -, rfl⟩ := Option.map_eq_some_iff.mp hs
              exact Or.inl (h.stutter hinj (hl ▸ .inside rfl hcall .test1))
          | test1 =>
              obtain rfl := Option.some.inj hs
              exact h.goto hinj hmove (.inside rfl hcall (.test2 _))
          | test2 x =>
              obtain rfl := Option.some.inj hs
              dsimp only at hmove
              split_ifs at hmove ⊢ with hx
              · exact h.goto hinj hmove (.inside rfl hcall .wait)
              · exact h.goto hinj hmove (.inside rfl hcall .leave)
          | wait =>
              obtain rfl := Option.some.inj hs
              exact Or.inl (h.stutter hinj (hl ▸ .inside rfl hcall .wake))
          | wake =>
              obtain ⟨m, -, rfl⟩ := Option.map_eq_some_iff.mp hs
              exact Or.inl (h.stutter hinj (hl ▸ .inside rfl hcall .test1))
          | leave =>
              obtain rfl := Option.some.inj hs
              exact Or.inl (h.stutter hinj (hl ▸ .inside rfl hcall .count1))
          | poll1 =>
              obtain rfl := Option.some.inj hs
              exact h.goto hinj hmove (.inside rfl hcall (.poll2 _))
          | poll2 x =>
              obtain rfl := Option.some.inj hs
              dsimp only at hmove
              split_ifs at hmove ⊢ with hx
              · exact h.goto hinj hmove (.inside rfl hcall .poll1)
              · exact h.goto hinj hmove (.inside rfl hcall .count1)
          | count1 =>
              obtain rfl := Option.some.inj hs
              exact h.goto hinj hmove (.inside rfl hcall (.count2 _))
          | count2 x =>
              obtain rfl := Option.some.inj hs
              dsimp only at hmove ⊢
              split_ifs at hmove ⊢ with hx
              · exact h.goto hinj hmove (.inside rfl hcall .near1)
              · exact h.goto hinj hmove (.inside rfl hcall .far1)
          | near1 =>
              obtain rfl := Option.some.inj hs
              exact h.goto hinj hmove (.inside rfl hcall (.near2 _))
          | near2 x =>
              obtain rfl := Option.some.inj hs
              exact h.goto hinj hmove (.inside rfl hcall (.base _))
          | far1 =>
              obtain rfl := Option.some.inj hs
              exact h.goto hinj hmove (.inside rfl hcall (.far2 _))
          | far2 x =>
              obtain rfl := Option.some.inj hs
              exact h.goto hinj hmove (.inside rfl hcall (.base _))
          | base ready =>
              obtain rfl := Option.some.inj hs
              exact h.goto hinj hmove (.inside rfl hcall (.copy ready _))
          | copy ready e =>
              simp only [RingState.bulkMove] at hs
              dsimp only at hmove
              split_ifs at hs with hi <;> obtain rfl := Option.some.inj hs
              · rw [if_pos hi] at hmove
                refine Or.inr ⟨_, hmove, h.update hinj rfl ?_ ?_ ?_ ?_ fun q hq => Or.inl hq⟩
                · rw [BulkState.setPoint_mem, BulkState.access_rb, hring]
                · rw [BulkState.setPoint_returns, BulkState.point_setPoint,
                    BulkState.access_returns]
                  exact .inside rfl (hcall.trans (Side.copied_args _ _ _ _).symm) (.copy ready _)
                · rw [BulkState.point_setPoint_other, BulkState.access_point]
                · rw [BulkState.setPoint_returns, BulkState.access_returns]
                  exact List.Subset.refl _
              · rw [if_neg hi] at hmove
                split_ifs at hmove with hmore
                · -- another pass
                  refine Or.inr ⟨_, hmove, h.update hinj rfl ?_ ?_ ?_ ?_ fun q hq => Or.inl hq⟩
                  · rw [BulkState.setPoint_mem, BulkState.publish_rb, hring]
                  · rw [BulkState.setPoint_returns, BulkState.point_setPoint,
                      BulkState.publish_returns]
                    exact .inside rfl hcall (.stored s.ring hmore)
                  · rw [BulkState.point_setPoint_other, BulkState.publish_point]
                  · rw [BulkState.setPoint_returns, BulkState.publish_returns]
                    exact List.Subset.refl _
                · -- `Bulk` returns here
                  refine Or.inr ⟨_, hmove, h.update hinj rfl ?_ ?_ ?_ ?_ fun q hq => Or.inl hq⟩
                  · rw [BulkState.setPoint_mem, BulkState.publish_rb, hring]
                  · rw [BulkState.point_returns, BulkState.point_setPoint]
                    exact .inside rfl hcall (.stored_last s.ring hmore (b.mem_ret c _))
                  · rw [BulkState.point_returns, BulkState.point_setPoint_other,
                      BulkState.publish_point]
                  · exact List.subset_append_left _ _
          | notify hmore =>
              obtain ⟨m, -, rfl⟩ := Option.map_eq_some_iff.mp hs
              exact Or.inl (h.stutter hinj (hl ▸ .inside rfl hcall (.broadcast hmore)))
          | broadcast hmore =>
              obtain rfl := Option.some.inj hs
              exact Or.inl (h.stutter hinj (hl ▸ .inside rfl hcall (.release hmore)))
          | release hmore =>
              obtain rfl := Option.some.inj hs
              refine Or.inl (h.stutter hinj (hl ▸ .inside rfl hcall ?_))
              rw [Work.after, if_pos hmore]
              exact .waitPc s.ring
          | notified hlast hret =>
              obtain ⟨m, -, rfl⟩ := Option.map_eq_some_iff.mp hs
              exact Or.inl (h.stutter hinj (hl ▸ .inside rfl hcall (.waking hlast hret)))
          | waking hlast hret =>
              obtain rfl := Option.some.inj hs
              exact Or.inl (h.stutter hinj (hl ▸ .inside rfl hcall (.released hlast hret)))
          | released hlast hret =>
              obtain rfl := Option.some.inj hs
              refine Or.inl (h.stutter hinj (hl ▸ .inside rfl hcall ?_))
              rw [Work.after, if_neg hlast]
              exact .ret hret
          | @ret r hret =>
              obtain rfl := Option.some.inj hs
              refine Or.inl (h.update hinj rfl hring (hl ▸ .idle) rfl (List.Subset.refl _) ?_)
              intro q hq
              rcases List.mem_append.mp hq with hq | hq
              · exact Or.inl hq
              · obtain rfl := List.mem_singleton.mp hq
                exact Or.inr ⟨_, _, hcall, hret⟩

/-- A call in both. -/
lemma called (h : SeenPair who s b) (hinj : Function.Injective who) {call : RingCall α}
    {c : BulkCall α} (hside : call.side = d)
    (hcall : call.bulk? = some (c.nbBuffers, c.minNbBuffers)) (hlock : call.lock = .alone)
    (hwork : call.work = .bulk c) (hidle : b.point d = .idle) :
    SeenPair who (s.set (who d) ⟨call, call.work, call.entry s.ring, 0⟩)
      (if c.minNbBuffers > c.nbBuffers then { b with returns := b.ret c bulkError }
        else b.setPoint (BulkState.entry c) d) := by
  have hentry : call.entry s.ring = (Work.bulk c).body s.ring := by
    rw [RingCall.entry, hlock, hwork]
  rw [hentry, hwork, Work.body]
  split_ifs with herror hmin
  · refine h.update hinj rfl h.ring ?_ (b.point_returns _ _) (List.subset_append_left _ _)
      fun q hq => Or.inl hq
    rw [BulkState.point_returns, hidle]
    exact .inside hside hcall (.ret (b.mem_ret c _))
  · refine h.update hinj rfl ?_ ?_ (b.point_setPoint_other _ _) ?_ fun q hq => Or.inl hq
    · rw [BulkState.setPoint_mem]
      exact h.ring
    · rw [BulkState.point_setPoint, BulkState.entry, if_pos hmin]
      exact .inside hside hcall .full1
    · rw [BulkState.setPoint_returns]
      exact List.Subset.refl _
  · refine h.update hinj rfl ?_ ?_ (b.point_setPoint_other _ _) ?_ fun q hq => Or.inl hq
    · rw [BulkState.setPoint_mem]
      exact h.ring
    · rw [BulkState.point_setPoint, BulkState.entry, if_neg hmin]
      exact .inside hside hcall (.waitPc s.ring)
    · rw [BulkState.setPoint_returns]
      exact List.Subset.refl _

/-- Every step is one step of `Bulk` or none. -/
lemma step (h : SeenPair who s b) (hinj : Function.Injective who) {a : RingAction τ α}
    (ha : PairUnwrapped who s a) (hs : s.step a = some s') :
    SeenPair who s' b ∨ ∃ x b', BulkShownAction who x a ∧ Unwrapped b x ∧ b.step x = some b' ∧
      SeenPair who s' b' := by
  cases a with
  | call t call =>
      obtain ⟨hf, rfl⟩ := RingState.step_call hs
      obtain ⟨d, rfl, hside, hsome⟩ := ha
      have hidle : b.point d = .idle := by
        have hp := h.points d
        rw [hf] at hp
        generalize b.point d = p at hp
        cases hp
        rfl
      cases call with
      | writeBulk values nb mn =>
          obtain rfl := hside
          refine Or.inr ⟨.callWriter values nb mn, _, .callWriter values nb mn, trivial, ?_,
            h.called hinj (c := ⟨values, nb.toNat, mn.toNat, 0⟩) rfl rfl rfl rfl hidle⟩
          rw [BulkState.step, show b.w = .idle from hidle]
          split_ifs <;> rfl
      | readBulk values nb mn =>
          obtain rfl := hside
          refine Or.inr ⟨.callReader values nb mn, _, .callReader values nb mn, trivial, ?_,
            h.called hinj (c := ⟨values, nb.toNat, mn.toNat, 0⟩) rfl rfl rfl rfl hidle⟩
          rw [BulkState.step, show b.r = .idle from hidle]
          split_ifs <;> rfl
      | _ => cases hsome
  | move t =>
      by_cases ht : ∃ d, who d = t
      · obtain ⟨d, rfl⟩ := ht
        rcases h.move hinj hs with hstay | ⟨b', hmove, h'⟩
        · exact Or.inl hstay
        · refine Or.inr ⟨d.action, b', .move d, h.unwrapped fun c f => ha d c rfl f, ?_, h'⟩
          rw [← hmove]
          cases d <;> rfl
      · -- the other threads never call
        rw [not_exists] at ht
        simp [RingState.step, RingState.move, h.others t ht] at hs
  | spurious t d =>
      obtain rfl := RingState.step_spurious hs
      exact Or.inl ⟨h.ring, h.points, h.others, h.done⟩

end SeenPair

/-- **Bulk calls are lossless in both modes** between one writer and one reader: a run
of theirs in which no index wraps between two loads is one of `Bulk` with more steps in
between, with the same ring; there nothing is lost, and every call that has returned
did so between its `min` and its `nb`. -/
theorem bulk_calls_lossless [DecidableEq τ] {null : α} {n : UInt64} {mode : ℤ} {callocOk : Bool}
    {rb : ZxRingbuffer α} (hinit : ZxRingbuffer.init null n.toNat mode callocOk = .ok rb)
    {who : Side → τ} (hinj : Function.Injective who) {as : List (RingAction τ α)}
    {s : RingState τ α}
    (hrun : Run RingState.step (PairUnwrapped who) (RingState.start rb) as s) :
    (∃ (bs : List (BulkAction α)) (b : BulkState α),
      Run BulkState.step Unwrapped (BulkState.start rb) bs b ∧
      List.SublistForall₂ (BulkShownAction who) bs as ∧ SeenPair who s b ∧ Lossless b) ∧
    ∀ q ∈ s.done, ∃ nb mn, q.1.call.bulk? = some (nb, mn) ∧
      (mn ≤ nb → mn ≤ q.2 ∧ q.2 ≤ nb) := by
  obtain ⟨bs, b, hb, hbs, hseen⟩ := hrun.simulates_stuttering (SeenPair.start rb)
    fun _ _ _ _ h ha hs => h.step hinj ha hs
  obtain ⟨rp, wp, hinv⟩ := BulkInv.of_run hinit hb
  have hlossless := hinv.lossless
  refine ⟨⟨bs, b, hb, hbs, hseen, hlossless⟩, fun q hq => ?_⟩
  obtain ⟨nb, mn, hcall, hret⟩ := hseen.done q hq
  exact ⟨nb, mn, hcall, hlossless.returns _ hret⟩

end CLibrary
