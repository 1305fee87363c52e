import CLibrary.Library.Runs
import CLibrary.RingBuffer.Threads

/-!
The `try` operations never wait for data.

A `try` operation tests the ring and then goes through the wait loop of the
blocking one, which tests it again: two separate pairs of loads, with other
threads in between.  The other side only ever makes more room, and the own side
is kept out, by the lock or because nobody else uses it.

* `Permitted`: the single-element operations, each side left to one thread or
  to the operations with a lock.
* `Space`, `Loaded`: how far a side can still move on, and what an earlier load
  of `start` says about it.
* `TryInv`: `start` and `end` are the residues of the counters of the two
  sides, and past its test a `try` operation has room.
* `try_never_waits`: it never goes round its wait loop, the ring stays open to
  it until it stores its own index, and with result 0 it has changed nothing.
-/

namespace CLibrary

variable {τ α : Type*}

/-! ### The calls -/

namespace Work

/-- One element. -/
def single : Work α → Bool
  | .one _ _ => true
  | .bulk _ => false

/-- One element, after a test. -/
def tries : Work α → Bool
  | .one tries _ => tries
  | .bulk _ => false

lemma single_iff {w : Work α} : w.single = true ↔ ∃ value, w = .one w.tries value := by
  cases w <;> simp [single, tries]

end Work

/-- A call of a single-element operation, on a side that is all the thread's own
or that every thread uses behind the lock. -/
def Permitted (sole : Side → Option τ) (t : τ) (c : RingCall α) : Prop :=
  c.work.single = true ∧ (∀ u ∈ sole c.side, t = u) ∧ (sole c.side = none → c.lock ≠ .alone)

/-- The runs of permitted calls. -/
def Allowed (sole : Side → Option τ) (_ : RingState τ α) : RingAction τ α → Prop
  | .call t c => Permitted sole t c
  | .move _ => True
  | .spurious _ _ => True

instance [DecidableEq τ] (sole : Side → Option τ) (t : τ) (c : RingCall α) :
    Decidable (Permitted sole t c) :=
  inferInstanceAs (Decidable (_ ∧ _))

instance [DecidableEq τ] (sole : Side → Option τ) (s : RingState τ α) :
    ∀ a, Decidable (Allowed sole s a)
  | .call t c => inferInstanceAs (Decidable (Permitted sole t c))
  | .move _ => isTrue trivial
  | .spurious _ _ => isTrue trivial

/-- From the test of a `try` operation to its store of the index. -/
def RingPc.committed : RingPc α → Bool
  | .enter | .test1 | .test2 _ | .wait | .wake | .leave | .poll1 | .poll2 _ | .index | .slot _
  | .next _ | .store _ _ => true
  | _ => false

/-! ### Counters -/

/-- With `w` values written and `r` returned, side `d` can move on `k` times
and does not run into the other. -/
def Space (size w r k : ℕ) : Side → Prop
  | .write => w + k < r + size
  | .read => r + k ≤ w

/-- `x` is `start` as it was, and at that time the side had space. -/
def Loaded (size : ℕ) (n : Side → ℕ) (k x : ℕ) (d : Side) : Prop :=
  ∃ ρ ≤ n .read, (d = .read → ρ = n .read) ∧ x = ρ % size ∧ Space size (n .write) ρ k d

/-- `start` and `end` follow the counters of their sides. -/
structure Counted (rb : ZxRingbuffer α) (n : Side → ℕ) : Prop where
  one_lt : 1 < rb.size
  size_lt : rb.size < 2 ^ 64
  index_eq : ∀ d : Side, d.index rb = n d % rb.size
  space : ∀ d, Space rb.size (n .write) (n .read) 0 d

lemma Space.mono {size w r r' k : ℕ} {d : Side} (h : Space size w r k d) (hr : r ≤ r')
    (hd : d = .read → r = r') : Space size w r' k d := by
  cases d with
  | write => exact h.trans_le (Nat.add_le_add_right hr size)
  | read => exact hd rfl ▸ h

lemma Space.of_le {size w r k k' : ℕ} {d : Side} (h : Space size w r k d) (hk : k' ≤ k) :
    Space size w r k' d := by
  cases d with
  | write => exact lt_of_le_of_lt (Nat.add_le_add_left hk w) h
  | read => exact (Nat.add_le_add_left hk r).trans h

/-- The other side only makes room. -/
lemma Space.advance {size k : ℕ} {n : Side → ℕ} {d : Side}
    (h : Space size (n .write) (n .read) k d) :
    Space size (Function.update n d.other (n d.other + 1) .write)
      (Function.update n d.other (n d.other + 1) .read) k d := by
  cases d with
  | write =>
      simp only [Space, Side.other, Function.update_self, ne_eq, reduceCtorEq,
        not_false_eq_true, Function.update_of_ne] at h ⊢
      omega
  | read =>
      simp only [Space, Side.other, Function.update_self, ne_eq, reduceCtorEq,
        not_false_eq_true, Function.update_of_ne] at h ⊢
      omega

/-- What a load said about the room stays true. -/
lemma Loaded.space {size k x : ℕ} {n : Side → ℕ} {d : Side} (h : Loaded size n k x d) :
    Space size (n .write) (n .read) k d := by
  obtain ⟨ρ, hρ, hd, -, hspace⟩ := h
  exact hspace.mono hρ hd

lemma Loaded.advance {size k x : ℕ} {n : Side → ℕ} {d : Side} (h : Loaded size n k x d) :
    Loaded size (Function.update n d.other (n d.other + 1)) k x d := by
  obtain ⟨ρ, hρ, hd, hx, hspace⟩ := h
  cases d with
  | write =>
      refine ⟨ρ, ?_, fun hr => Side.noConfusion hr, hx, ?_⟩
      · rw [Side.other, Function.update_self]
        omega
      · rwa [Side.other, Function.update_of_ne (by simp)]
  | read =>
      obtain rfl := hd rfl
      refine ⟨n .read, ?_, fun _ => ?_, hx, ?_⟩
      · rw [Side.other, Function.update_of_ne (by simp)]
      · rw [Side.other, Function.update_of_ne (by simp)]
      · rw [Side.other, Function.update_self]
        exact hspace.trans (Nat.le_succ _)

namespace Counted

variable {rb : ZxRingbuffer α} {n : Side → ℕ} {d : Side} {k x : ℕ}

/-- A load of `start` sees the space there is. -/
lemma load (h : Counted rb n) (hspace : Space rb.size (n .write) (n .read) k d) :
    Loaded rb.size n k rb.start d :=
  ⟨n .read, le_rfl, fun _ => rfl, h.index_eq .read, hspace⟩

/-- The test, on `start` as it was, comes out false just when there was room
for one more step. -/
lemma blockedAt_iff {ρ : ℕ} (h : Counted rb n) (hρ : ρ ≤ n .read) (hd : d = .read → ρ = n .read)
    (hspace : Space rb.size (n .write) ρ 0 d) :
    d.blockedAt rb (ρ % rb.size) = false ↔ Space rb.size (n .write) ρ 1 d := by
  have h1 := h.one_lt
  have hend := h.index_eq .write
  simp only [Side.index] at hend
  cases d with
  | write =>
      have hrw : n .read ≤ n .write := h.space .read
      simp only [Side.blockedAt, Space, beq_eq_false_iff_ne, ne_eq, hend] at hspace ⊢
      rw [ZxRingbuffer.next_eq h.size_lt (Nat.mod_lt _ (by omega)), Nat.mod_add_mod,
        ← Nat.add_mod_right ρ]
      refine ⟨fun hne => ?_, fun hlt heq => ?_⟩
      · by_contra hge
        exact hne (by rw [show ρ + rb.size = n .write + 1 by omega])
      · have := mod_inj_window (ρ + 1) (by omega) (by omega) (by omega) (by omega) heq
        omega
  | read =>
      obtain rfl := hd rfl
      have hlt : n .write + 0 < n .read + rb.size := h.space .write
      simp only [Side.blockedAt, Space, beq_eq_false_iff_ne, ne_eq, hend] at hspace ⊢
      refine ⟨fun hne => ?_, fun hle heq => ?_⟩
      · by_contra hge
        exact hne (by rw [show n .read = n .write by omega])
      · have := mod_inj_window (n .read) le_rfl (by omega) (by omega) (by omega) heq
        omega

/-- A test that comes out false has seen room for one more step. -/
lemma space_of_test (h : Counted rb n) (hx : Loaded rb.size n 0 x d)
    (htest : d.blockedAt rb x = false) : Space rb.size (n .write) (n .read) 1 d := by
  obtain ⟨ρ, hρ, hd, rfl, hspace⟩ := hx
  exact ((h.blockedAt_iff hρ hd hspace).mp htest).mono hρ hd

/-- A test begun with room for one more step comes out false. -/
lemma test_of_space (h : Counted rb n) (hx : Loaded rb.size n 1 x d) :
    d.blockedAt rb x = false := by
  obtain ⟨ρ, hρ, hd, rfl, hspace⟩ := hx
  exact (h.blockedAt_iff hρ hd (hspace.of_le (Nat.zero_le 1))).mpr hspace

/-- A side with room for one more step is not blocked. -/
lemma not_blocked (h : Counted rb n) (hspace : Space rb.size (n .write) (n .read) 1 d) :
    d.blocked rb = false := by
  rw [← Side.blockedAt_start]
  exact h.test_of_space (h.load hspace)

/-- The store of the index is the step there was room for. -/
lemma storeIndex (h : Counted rb n) (hspace : Space rb.size (n .write) (n .read) 1 d) :
    Counted (d.storeIndex rb (uadd 64 (n d % rb.size) 1 % rb.size))
      (Function.update n d (n d + 1)) := by
  have h1 := h.one_lt
  have hw : n .write + 0 < n .read + rb.size := h.space .write
  have hr : n .read + 0 ≤ n .write := h.space .read
  have hnext : uadd 64 (n d % rb.size) 1 % rb.size = (n d + 1) % rb.size :=
    calc uadd 64 (n d % rb.size) 1 % rb.size
        = (n d % rb.size + 1) % rb.size :=
          ZxRingbuffer.next_eq h.size_lt (Nat.mod_lt _ (by omega))
      _ = (n d + 1) % rb.size := Nat.mod_add_mod ..
  rw [hnext]
  cases d with
  | write =>
      refine ⟨h.one_lt, h.size_lt, fun e => ?_, fun e => ?_⟩
      · cases e with
        | write => rw [Function.update_self]; rfl
        | read => exact (h.index_eq .read).trans (by rw [Function.update_of_ne (by simp)]; rfl)
      · rw [Function.update_self, Function.update_of_ne (by simp)]
        cases e with
        | write => exact hspace
        | read =>
            calc n .read + 0
                ≤ n .write := hr
              _ ≤ n .write + 1 := Nat.le_succ _
  | read =>
      refine ⟨h.one_lt, h.size_lt, fun e => ?_, fun e => ?_⟩
      · cases e with
        | write => exact (h.index_eq .write).trans (by rw [Function.update_of_ne (by simp)]; rfl)
        | read => rw [Function.update_self]; rfl
      · rw [Function.update_self, Function.update_of_ne (by simp)]
        cases e with
        | write =>
            calc n .write + 0
                < n .read + rb.size := hw
              _ ≤ n .read + 1 + rb.size := Nat.add_le_add_right (Nat.le_succ _) _
        | read => exact hspace

lemma storeSlot (h : Counted rb n) (e : ℕ) (value : α) : Counted (d.storeSlot rb e value) n := by
  cases d with
  | read => exact h
  | write =>
      refine ⟨h.one_lt, h.size_lt, fun d => ?_, h.space⟩
      cases d with
      | write => exact h.index_eq .write
      | read => exact h.index_eq .read

end Counted

lemma Side.storeIndex_size (rb : ZxRingbuffer α) (d : Side) (k : ℕ) :
    (d.storeIndex rb k).size = rb.size := by
  cases d <;> rfl

lemma Side.storeSlot_size (rb : ZxRingbuffer α) (d : Side) (e : ℕ) (value : α) :
    (d.storeSlot rb e value).size = rb.size := by
  cases d <;> rfl

/-! ### The invariant -/

/-- The room a call has when it enters its wait loop. -/
def RingCall.need (c : RingCall α) : ℕ := c.work.tries.toNat

lemma RingCall.need_le (c : RingCall α) : c.need ≤ 1 := Bool.toNat_le _

/-- A call that does not try needs none. -/
lemma Counted.space_need {rb : ZxRingbuffer α} {n : Side → ℕ} (h : Counted rb n) {c : RingCall α}
    (htry : c.work.tries = false) : Space rb.size (n .write) (n .read) c.need c.side := by
  rw [RingCall.need, htry]
  exact h.space c.side

/-- What a call knows where it is. -/
def PcOk (size : ℕ) (n : Side → ℕ) (c : RingCall α) : RingPc α → Prop
  | .early1 | .early2 _ | .lock | .full1 | .notify _ | .broadcast _ | .release _ | .assign _
  | .ret _ => True
  | .full2 x => Loaded size n 0 x c.side
  | .enter | .test1 | .poll1 => Space size (n .write) (n .read) c.need c.side
  | .test2 x | .poll2 x => Loaded size n c.need x c.side
  | .wait | .wake => c.work.tries = false
  | .leave | .index | .slot _ | .next _ => Space size (n .write) (n .read) 1 c.side
  | .store _ e => Space size (n .write) (n .read) 1 c.side ∧ e = n c.side % size
  | .count1 | .count2 _ | .near1 | .near2 _ | .far1 | .far2 _ | .base _ | .copy _ _ => False

/-- What holds of a call under way.  `work` is the caller's variable, which only
a call about to return 1 has changed. -/
structure FrameOk (sole : Side → Option τ) (size : ℕ) (n : Side → ℕ) (t : τ)
    (f : RingFrame α) : Prop where
  permitted : Permitted sole t f.call
  work : f.pc ≠ .ret 1 → f.work = f.call.work
  turns : f.call.work.tries = true → f.turns = 0
  pc : PcOk size n f.call f.pc

/-- What holds of a call that has returned `r`. -/
def ReturnOk (f : RingFrame α) (r : ℕ) : Prop :=
  (f.call.work.tries = true → f.turns = 0) ∧ (r = 0 → f.work = f.call.work)

/-- The invariant. -/
structure TryInv (sole : Side → Option τ) (s : RingState τ α) (n : Side → ℕ) : Prop where
  lock : LockInv s
  counted : Counted s.ring n
  frames : ∀ t f, s.frame t = some f → FrameOk sole s.ring.size n t f
  done : ∀ r ∈ s.done, ReturnOk r.1 r.2

namespace PcOk

variable {size : ℕ} {n : Side → ℕ} {c : RingCall α} {pc : RingPc α}

/-- A step of the other side takes nothing from what a call knows; one of the
own side is made only while the call is in front of its lock. -/
lemma advance {d : Side} (h : PcOk size n c pc) (hd : pc.inside = true → c.side ≠ d) :
    PcOk size (Function.update n d (n d + 1)) c pc := by
  by_cases hout : pc.inside = false
  · cases pc with
    | early1 | early2 x | lock => trivial
    | _ => exact Bool.noConfusion hout
  · obtain rfl : d = c.side.other := Side.eq_other_of_ne (hd (by simpa using hout)).symm
    cases pc with
    | full2 x | test2 x | poll2 x => exact Loaded.advance h
    | enter | test1 | poll1 | leave | index | slot e | next v => exact Space.advance h
    | store v e =>
        refine ⟨Space.advance h.1, ?_⟩
        rw [Function.update_of_ne (Side.other_ne c.side).symm]
        exact h.2
    | _ => exact h

/-- The beginning of the wait loop. -/
lemma waitPc {rb : ZxRingbuffer α} (h : Space size (n .write) (n .read) c.need c.side) :
    PcOk size n c (waitPc rb) := by
  rw [CLibrary.waitPc]
  split_ifs <;> exact h

/-- Behind the lock. -/
lemma body {rb : ZxRingbuffer α} (hw : c.work.single = true) (h : Counted rb n) :
    PcOk rb.size n c (c.work.body rb) := by
  obtain ⟨value, hwork⟩ := Work.single_iff.mp hw
  cases htry : c.work.tries with
  | true =>
      rw [hwork, htry]
      trivial
  | false =>
      rw [hwork, htry]
      exact .waitPc (h.space_need htry)

/-- The first statement of a call. -/
lemma entry {rb : ZxRingbuffer α} (hw : c.work.single = true) (h : Counted rb n) :
    PcOk rb.size n c (c.entry rb) := by
  rw [RingCall.entry]
  cases c.lock with
  | alone => exact body hw h
  | lock | tryLock => cases c.work.early <;> trivial

/-- Behind the store of the index a single element has nothing to go by. -/
lemma after {rb : ZxRingbuffer α} {v : Option α} {w : Work α} (hw : w.single = true) :
    PcOk size n c (w.after rb v) := by
  cases w with
  | bulk b => exact Bool.noConfusion hw
  | one tries value => cases v <;> trivial

lemma stored {rb : ZxRingbuffer α} {v : Option α} {w : Work α} (hw : w.single = true) :
    PcOk size n c (w.stored rb v) := by
  rw [Work.stored]
  split_ifs
  · trivial
  · exact after hw

lemma access {w : Work α} (hw : w.single = true)
    (h : Space size (n .write) (n .read) 1 c.side) : PcOk size n c w.access := by
  cases w with
  | bulk b => exact Bool.noConfusion hw
  | one tries value => exact h

/-- What a `try` operation has seen holds until its store of the index. -/
lemma committed (h : PcOk size n c pc) (htry : c.work.tries = true)
    (hpc : pc.committed = true) : Space size (n .write) (n .read) 1 c.side := by
  have hneed : c.need = 1 := by rw [RingCall.need, htry]; rfl
  cases pc with
  | enter | test1 | poll1 => exact hneed ▸ h
  | test2 x | poll2 x => exact hneed ▸ Loaded.space h
  | wait | wake => exact absurd htry (by simp [show c.work.tries = false from h])
  | leave | index | slot e | next v => exact h
  | store v e => exact h.1
  | _ => exact Bool.noConfusion hpc

end PcOk

namespace TryInv

variable {sole : Side → Option τ} {s s' : RingState τ α} {n n' : Side → ℕ} {t u : τ}

/-- Two calls behind the lock of one side are one. -/
lemma eq_of_inside (h : TryInv sole s n) {f g : RingFrame α} (hf : s.frame t = some f)
    (hg : s.frame u = some g) (hfin : f.pc.inside = true) (hgin : g.pc.inside = true)
    (hside : g.call.side = f.call.side) : u = t := by
  have hpf := (h.frames t f hf).permitted.2
  have hpg := (h.frames u g hg).permitted.2
  rw [hside] at hpg
  cases hsole : sole f.call.side with
  | some v => exact (hpg.1 v hsole).trans (hpf.1 v hsole).symm
  | none =>
      have ht : s.spin f.call.side = some t := by
        rw [← h.lock.spin_iff, hf, holds_eq_true]
        exact ⟨hfin, hpf.2 hsole, rfl⟩
      have hu : s.spin f.call.side = some u := by
        rw [← h.lock.spin_iff, hg, holds_eq_true]
        exact ⟨hgin, hpg.2 hsole, hside⟩
      exact Option.some.inj (hu.symm.trans ht)

/-- The test of a wait loop lets a call through when there is room. -/
lemma pass (h : TryInv sole s n) {f : RingFrame α} {x : ℕ}
    (hx : Loaded s.ring.size n f.call.need x f.call.side)
    (htest : f.call.side.blockedAt s.ring x = false) :
    Space s.ring.size (n .write) (n .read) 1 f.call.side := by
  obtain ⟨ρ, hρ, hd, hx, hspace⟩ := hx
  exact h.counted.space_of_test ⟨ρ, hρ, hd, hx, hspace.of_le (Nat.zero_le _)⟩ htest

/-- A fresh ring, all threads idle. -/
lemma start {null : α} {n : UInt64} {mode : ℤ} {callocOk : Bool} {rb : ZxRingbuffer α}
    (hinit : ZxRingbuffer.init null n.toNat mode callocOk = .ok rb) :
    TryInv sole (RingState.start rb : RingState τ α) (fun _ => 0) := by
  obtain ⟨hwf, -, -⟩ := ZxRingbuffer.init_ok hinit n.toNat_lt
  obtain ⟨hst, hen⟩ := ZxRingbuffer.init_indices hinit
  have h1 := hwf.one_lt
  refine ⟨LockInv.start rb, ⟨h1, hwf.size_lt, fun d => ?_, fun d => ?_⟩, ?_, ?_⟩
  · cases d with
    | write => exact hen.trans (Nat.zero_mod _).symm
    | read => exact hst.trans (Nat.zero_mod _).symm
  · cases d with
    | write => change 0 < 0 + rb.size; omega
    | read => exact le_rfl
  · exact fun t f hf => by simp [RingState.start] at hf
  · exact fun r hr => by simp [RingState.start] at hr

variable [DecidableEq τ]

/-- A step changes the call of one thread; the others know what they know. -/
lemma of_update {f' : Option (RingFrame α)} (hlock : LockInv s')
    (hframe : s'.frame = Function.update s.frame t f') (hcount : Counted s'.ring n')
    (hdone : ∀ r ∈ s'.done, ReturnOk r.1 r.2)
    (hf' : ∀ f, f' = some f → FrameOk sole s'.ring.size n' t f)
    (hothers : ∀ u g, u ≠ t → s.frame u = some g → FrameOk sole s'.ring.size n' u g) :
    TryInv sole s' n' := by
  refine ⟨hlock, hcount, fun u f hf => ?_, hdone⟩
  rw [hframe] at hf
  by_cases hu : u = t
  · rw [hu, Function.update_self] at hf
    exact hu ▸ hf' f hf
  · rw [Function.update_of_ne hu] at hf
    exact hothers u f hu hf

/-- A step that leaves the indices alone. -/
lemma keep (h : TryInv sole s n) {f' : Option (RingFrame α)} (hlock : LockInv s')
    (hframe : s'.frame = Function.update s.frame t f') (hcount : Counted s'.ring n)
    (hsize : s'.ring.size = s.ring.size) (hdone : ∀ r ∈ s'.done, ReturnOk r.1 r.2)
    (hf' : ∀ f, f' = some f → FrameOk sole s.ring.size n t f) : TryInv sole s' n := by
  refine of_update hlock hframe hcount hdone ?_ ?_
  · rw [hsize]
    exact hf'
  · rw [hsize]
    exact fun u g _ hg => h.frames u g hg

/-- A step within a call that changes neither the ring nor the caller's
variable. -/
lemma stay (h : TryInv sole s n) {f : RingFrame α} {pc : RingPc α} (hf : s.frame t = some f)
    (hlock : LockInv s')
    (hframe : s'.frame = Function.update s.frame t (some { f with pc := pc }))
    (hring : s'.ring = s.ring) (hdone : s'.done = s.done) (hret : f.pc ≠ .ret 1)
    (hpc : PcOk s.ring.size n f.call pc) : TryInv sole s' n := by
  have hok := h.frames t f hf
  refine h.keep hlock hframe (hring ▸ h.counted) (by rw [hring]) (hdone ▸ h.done) fun g hg => ?_
  obtain rfl := Option.some.inj hg
  exact ⟨hok.permitted, fun _ => hok.work hret, hok.turns, hpc⟩

/-- A call that returns. -/
lemma finish (h : TryInv sole s n) {f : RingFrame α} {r : ℕ} (hf : s.frame t = some f)
    (hlock : LockInv s') (hframe : s'.frame = Function.update s.frame t none)
    (hring : s'.ring = s.ring) (hdone : s'.done = s.done ++ [(f, r)])
    (hret : r = 0 → f.pc ≠ .ret 1) : TryInv sole s' n := by
  have hok := h.frames t f hf
  refine h.keep hlock hframe (hring ▸ h.counted) (by rw [hring]) ?_ (by simp)
  rw [hdone]
  intro r' hr'
  rcases List.mem_append.mp hr' with hr' | hr'
  · exact h.done r' hr'
  · rw [List.mem_singleton.mp hr']
    exact ⟨hok.turns, fun hr => hok.work (hret hr)⟩

/-- The test of a wait loop sends a call round only if it does not try. -/
lemma again (h : TryInv sole s n) {f : RingFrame α} {x : ℕ} {pc : RingPc α}
    (hf : s.frame t = some f) (hlock : LockInv s')
    (hframe : s'.frame = Function.update s.frame t (some { f.again with pc := pc }))
    (hring : s'.ring = s.ring) (hdone : s'.done = s.done) (hret : f.pc ≠ .ret 1)
    (hx : Loaded s.ring.size n f.call.need x f.call.side)
    (htest : f.call.side.blockedAt s.ring x = true)
    (hpc : f.call.work.tries = false → PcOk s.ring.size n f.call pc) : TryInv sole s' n := by
  have hok := h.frames t f hf
  have htry : f.call.work.tries = false := by
    by_contra hno
    rw [RingCall.need, Bool.eq_true_of_not_eq_false hno] at hx
    rw [h.counted.test_of_space hx] at htest
    exact Bool.noConfusion htest
  refine h.keep hlock hframe (hring ▸ h.counted) (by rw [hring]) (hdone ▸ h.done) fun g hg => ?_
  obtain rfl := Option.some.inj hg
  exact ⟨hok.permitted, fun _ => hok.work hret, fun hyes => Bool.noConfusion (htry.symm.trans hyes),
    hpc htry⟩

/-- The store of the index. -/
lemma store (h : TryInv sole s n) {f : RingFrame α} {pc : RingPc α} {e : ℕ}
    (hf : s.frame t = some f) (hin : f.pc.inside = true) (hlock : LockInv s')
    (hframe : s'.frame = Function.update s.frame t (some { f with pc := pc }))
    (hring : s'.ring = f.call.side.storeIndex s.ring (uadd 64 e 1 % s.ring.size))
    (hdone : s'.done = s.done) (hret : f.pc ≠ .ret 1)
    (hspace : Space s.ring.size (n .write) (n .read) 1 f.call.side)
    (he : e = n f.call.side % s.ring.size)
    (hpc : PcOk s.ring.size (Function.update n f.call.side (n f.call.side + 1)) f.call pc) :
    TryInv sole s' (Function.update n f.call.side (n f.call.side + 1)) := by
  have hok := h.frames t f hf
  have hsize : s'.ring.size = s.ring.size := by rw [hring, Side.storeIndex_size]
  have hcount : Counted s'.ring (Function.update n f.call.side (n f.call.side + 1)) := by
    rw [hring, he]
    exact h.counted.storeIndex hspace
  refine of_update hlock hframe hcount (hdone ▸ h.done) (fun g hg => ?_) fun u g hu hg => ?_
  · obtain rfl := Option.some.inj hg
    rw [hsize]
    exact ⟨hok.permitted, fun _ => hok.work hret, hok.turns, hpc⟩
  · have hgok := h.frames u g hg
    rw [hsize]
    refine ⟨hgok.permitted, hgok.work, hgok.turns, hgok.pc.advance fun hgin hside => ?_⟩
    exact hu (h.eq_of_inside hf hg hin hgin hside)

/-- **A step of a thread keeps the invariant.** -/
lemma move (h : TryInv sole s n) (hs : s.move t = some s') : ∃ n', TryInv sole s' n' := by
  have hlock := h.lock.of_shape (RingState.move_shape hs)
  rw [RingState.move] at hs
  cases hf : s.frame t with
  | none => simp [hf] at hs
  | some f =>
      obtain ⟨call, work, pc, turns⟩ := f
      have hok := h.frames t _ hf
      have hpc := hok.pc
      have hsingle : pc ≠ .ret 1 → work.single = true := fun hret => by
        rw [show work = call.work from hok.work hret]
        exact hok.permitted.1
      rw [hf] at hs
      dsimp only at hs
      cases pc with
      | early1 =>
          obtain rfl := Option.some.inj hs
          exact ⟨n, h.stay hf hlock rfl rfl rfl (by simp) trivial⟩
      | early2 x =>
          obtain rfl := Option.some.inj hs
          split_ifs at hlock ⊢
          · exact ⟨n, h.finish hf hlock rfl rfl rfl (by simp)⟩
          · exact ⟨n, h.stay hf hlock rfl rfl rfl (by simp) trivial⟩
      | lock =>
          cases hfree : s.spin call.side with
          | some u => simp [hfree] at hs
          | none =>
              rw [hfree] at hs
              obtain rfl := Option.some.inj hs
              refine ⟨n, h.stay hf hlock rfl rfl rfl (by simp) ?_⟩
              rw [show work = call.work from hok.work (by simp)]
              exact .body hok.permitted.1 h.counted
      | full1 =>
          obtain rfl := Option.some.inj hs
          refine ⟨n, h.stay hf hlock rfl rfl rfl (by simp) ?_⟩
          exact h.counted.load (h.counted.space call.side)
      | full2 x =>
          obtain rfl := Option.some.inj hs
          refine ⟨n, h.stay hf hlock rfl rfl rfl (by simp) ?_⟩
          split_ifs with htest
          · trivial
          · have hspace := h.counted.space_of_test hpc (by simpa using htest)
            exact .waitPc (hspace.of_le call.need_le)
      | enter =>
          obtain ⟨m, -, rfl⟩ := Option.map_eq_some_iff.mp hs
          exact ⟨n, h.stay hf hlock rfl rfl rfl (by simp) hpc⟩
      | test1 =>
          obtain rfl := Option.some.inj hs
          exact ⟨n, h.stay hf hlock rfl rfl rfl (by simp) (h.counted.load hpc)⟩
      | test2 x =>
          obtain rfl := Option.some.inj hs
          split_ifs at hlock ⊢ with htest
          · exact ⟨n, h.again hf hlock rfl rfl rfl (by simp) hpc htest fun htry => htry⟩
          · have hspace := h.pass hpc (by simpa using htest)
            exact ⟨n, h.stay hf hlock rfl rfl rfl (by simp) hspace⟩
      | wait =>
          obtain rfl := Option.some.inj hs
          exact ⟨n, h.stay hf hlock rfl rfl rfl (by simp) hpc⟩
      | wake =>
          obtain ⟨m, -, rfl⟩ := Option.map_eq_some_iff.mp hs
          exact ⟨n, h.stay hf hlock rfl rfl rfl (by simp) (h.counted.space_need hpc)⟩
      | poll1 =>
          obtain rfl := Option.some.inj hs
          exact ⟨n, h.stay hf hlock rfl rfl rfl (by simp) (h.counted.load hpc)⟩
      | poll2 x =>
          obtain rfl := Option.some.inj hs
          split_ifs at hlock ⊢ with htest
          · exact ⟨n, h.again hf hlock rfl rfl rfl (by simp) hpc htest h.counted.space_need⟩
          · have hspace := h.pass hpc (by simpa using htest)
            exact ⟨n, h.stay hf hlock rfl rfl rfl (by simp) (.access (hsingle (by simp)) hspace)⟩
      | leave =>
          obtain rfl := Option.some.inj hs
          exact ⟨n, h.stay hf hlock rfl rfl rfl (by simp) (.access (hsingle (by simp)) hpc)⟩
      | index =>
          obtain rfl := Option.some.inj hs
          exact ⟨n, h.stay hf hlock rfl rfl rfl (by simp) hpc⟩
      | slot e =>
          cases work with
          | bulk c => exact Bool.noConfusion (hsingle (by simp))
          | one tries value =>
              obtain rfl := Option.some.inj hs
              have hcount := h.counted.storeSlot (d := call.side) e value
              refine ⟨n, h.keep hlock rfl hcount (Side.storeSlot_size ..) h.done fun g hg => ?_⟩
              obtain rfl := Option.some.inj hg
              exact ⟨hok.permitted, fun _ => hok.work (by simp), hok.turns, hpc⟩
      | next v =>
          obtain rfl := Option.some.inj hs
          exact ⟨n, h.stay hf hlock rfl rfl rfl (by simp) ⟨hpc, h.counted.index_eq call.side⟩⟩
      | store v e =>
          obtain rfl := Option.some.inj hs
          have hone := hsingle (by simp)
          exact ⟨_, h.store hf rfl hlock rfl rfl rfl (by simp) hpc.1 hpc.2 (.stored hone)⟩
      | notify v =>
          obtain ⟨m, -, rfl⟩ := Option.map_eq_some_iff.mp hs
          exact ⟨n, h.stay hf hlock rfl rfl rfl (by simp) trivial⟩
      | broadcast v =>
          obtain rfl := Option.some.inj hs
          exact ⟨n, h.stay hf hlock rfl rfl rfl (by simp) trivial⟩
      | release v =>
          obtain rfl := Option.some.inj hs
          exact ⟨n, h.stay hf hlock rfl rfl rfl (by simp) (.after (hsingle (by simp)))⟩
      | assign v =>
          obtain rfl := Option.some.inj hs
          refine ⟨n, h.keep hlock rfl h.counted rfl h.done fun g hg => ?_⟩
          obtain rfl := Option.some.inj hg
          exact ⟨hok.permitted, fun hno => absurd rfl hno, hok.turns, trivial⟩
      | ret r =>
          obtain rfl := Option.some.inj hs
          exact ⟨n, h.finish hf hlock rfl rfl rfl fun hr => by simp [hr]⟩
      | count1 | count2 | near1 | near2 | far1 | far2 | base | copy => exact hpc.elim

/-- Every step of a permitted run keeps the invariant. -/
lemma step (h : TryInv sole s n) {a : RingAction τ α} (ha : Allowed sole s a)
    (hs : s.step a = some s') : ∃ n', TryInv sole s' n' := by
  have hlock := h.lock.step hs
  cases a with
  | move t => exact h.move hs
  | spurious t d =>
      obtain rfl := RingState.step_spurious hs
      exact ⟨n, hlock, h.counted, h.frames, h.done⟩
  | call t c =>
      obtain ⟨hf, rfl⟩ := RingState.step_call hs
      refine ⟨n, h.keep hlock rfl h.counted rfl h.done fun g hg => ?_⟩
      obtain rfl := Option.some.inj hg
      exact ⟨ha, fun _ => rfl, fun _ => rfl, .entry ha.1 h.counted⟩

end TryInv

/-- **The `try` operations never wait for data**: in either mode, over any
threads and interleavings, with each side left to one thread or to the
operations with a lock, a `try` operation never goes round its wait loop.  From
its test of the ring to its own store of the index its side is not blocked,
whatever the others do; and when it returns 0 the caller's variable is as it
was. -/
theorem try_never_waits [DecidableEq τ] {null : α} {n : UInt64} {mode : ℤ} {callocOk : Bool}
    {rb : ZxRingbuffer α} (hinit : ZxRingbuffer.init null n.toNat mode callocOk = .ok rb)
    {sole : Side → Option τ} {as : List (RingAction τ α)} {s : RingState τ α}
    (hrun : Run RingState.step (Allowed sole) (RingState.start rb) as s) :
    (∀ t f, s.frame t = some f → f.call.work.tries = true →
        f.turns = 0 ∧ (f.pc.committed = true → f.call.side.blocked s.ring = false)) ∧
      ∀ f r, (f, r) ∈ s.done → f.call.work.tries = true →
        f.turns = 0 ∧ (r = 0 → f.work = f.call.work) := by
  obtain ⟨n, h⟩ := hrun.invariant (I := fun _ s => ∃ n, TryInv sole s n)
    ⟨_, TryInv.start hinit⟩ fun _ _ _ _ ⟨_, h⟩ ha hs => h.step ha hs
  refine ⟨fun t f hf htry => ?_, fun f r hr htry => ?_⟩
  · have hok := h.frames t f hf
    exact ⟨hok.turns htry, fun hpc => h.counted.not_blocked (hok.pc.committed htry hpc)⟩
  · have hok := h.done (f, r) hr
    exact ⟨hok.1 htry, hok.2⟩

/-- A `try_swrite` beside a `sread` in blocking mode, then a `try_sread` of the
empty ring. -/
def tryBeside : List (RingAction ℕ ℕ) :=
  List.flatten
    [[.call 0 (.trySwrite 5)], List.replicate 5 (.move 0), [.call 1 (.sread 0)],
      List.replicate 5 (.move 1), List.replicate 12 (.move 0), List.replicate 13 (.move 1),
      [.call 2 (.trySread 9)], List.replicate 2 (.move 2)]

/-- The `sread` sleeps once, the `try` operations do not, and the second returns
0. -/
theorem try_beside_never_waits :
    ∃ s : RingState ℕ ℕ,
      s.done.map (fun r => (r.1.call.work.tries, r.1.turns, r.2)) =
          [(true, 0, 1), (false, 1, 1), (true, 0, 0)] ∧
        ∀ f r, (f, r) ∈ s.done → f.call.work.tries = true →
          f.turns = 0 ∧ (r = 0 → f.work = f.call.work) := by
  have hinit : ZxRingbuffer.init 0 (1 : UInt64).toNat ZxRingbuffer.blocking true =
      .ok ⟨0, 2, 0, fun _ => 0, 0⟩ := rfl
  have hrun : (exec (fun s a => if Allowed (fun _ => none) s a then RingState.step s a else none)
      (RingState.start ⟨0, 2, 0, fun _ => 0, 0⟩) tryBeside).map
        (fun s => s.done.map fun r => (r.1.call.work.tries, r.1.turns, r.2)) =
      some [(true, 0, 1), (false, 1, 1), (true, 0, 0)] := by
    decide +kernel
  obtain ⟨s, hs, hdone⟩ := Option.map_eq_some_iff.mp hrun
  exact ⟨s, hdone, (try_never_waits hinit (run_of_exec_guarded hs)).2⟩

end CLibrary
