import CLibrary.Library.Circular
import CLibrary.Library.Deadlines
import CLibrary.Library.Runs
import CLibrary.Timer.Basic

/-!
Runs of the wheel timer, and what one tick of it does.

* `WheelRun`, `WheelOp.step`: the calls on one timer, with the history its user
  sees.  `WheelOp.Admitted` keeps times from going back and quotients and tick
  counts inside an `int`.
* `wheelOfSix`: the wheel that `main.c` tests.
* `dueTick`: the tick an element runs in, from its spoke and rotation count.  A
  tick leaves it as it is (`dueTick_next_of_ne`, `dueTick_next_self`).
* `walkSpoke_uncut`, `breakFront`, `walkSpoke_cut`: the walk along a spoke when
  the budget lasts, and when it does not.
-/

namespace CLibrary

variable {ε : Type*}

/-! ### Runs -/

/-- A wheel timer, the number of the next element, the time of the last call,
and the armings and checks so far. -/
structure WheelRun (ε : Type*) where
  timer : ZxTimer (TimerWheel ε)
  next : ℕ
  now : ℕ
  history : History ℕ

/-- The calls; `del` and `reset` name a linked element. -/
inductive WheelOp (ε : Type*) where
  | add (currentTime timeout : ℕ) (event : ε)
  | del (id : ℕ)
  | reset (id currentTime timeout : ℕ)
  | check (currentTime maxCbTimes : ℕ)

/-- A wheel timer just created. -/
def WheelRun.start (timer : ZxTimer (TimerWheel ε)) : WheelRun ε := ⟨timer, 0, 0, History.start⟩

/-- The wheel of `wheel_test`, just created. -/
def wheelOfSix : ZxTimer (TimerWheel ε) := ⟨⟨6, ulongMax, 0, ulongMax, fun _ => []⟩, 0, 160⟩

lemma createWheel_six : ZxTimer.createWheel 6 = some (wheelOfSix : ZxTimer (TimerWheel ε)) := rfl

/-- The wheel. -/
def WheelRun.wheel (s : WheelRun ε) : TimerWheel ε := s.timer.inner

namespace WheelOp

/-- One call.  An element is armed with its `expire`.  A check that takes a rotation
count below the range of `int` has no result. -/
def step (s : WheelRun ε) : WheelOp ε → Option (WheelRun ε)
  | .add currentTime timeout event =>
      some ⟨s.timer.addWheel s.next currentTime timeout event, s.next + 1, currentTime,
        s.history.arm s.next (uadd 64 currentTime timeout)⟩
  | .del id =>
      (s.timer.delWheel id).map fun r => { s with timer := r.2, history := s.history.disarm id }
  | .reset id currentTime timeout =>
      (s.timer.resetWheel id currentTime timeout).map fun timer =>
        ⟨timer, s.next, currentTime, s.history.arm id (uadd 64 currentTime timeout)⟩
  | .check currentTime maxCbTimes =>
      ((s.timer.checkWheel currentTime maxCbTimes).filter fun r => r.2.inner.CountsFit).map fun r =>
        ⟨r.2, s.next, currentTime, s.history.check currentTime (r.1.map TimerElem.id)⟩

/-- What a check does to a run. -/
lemma step_check {s s' : WheelRun ε} {currentTime maxCbTimes : ℕ}
    (hs : step s (.check currentTime maxCbTimes) = some s') :
    ∃ r, s.timer.checkWheel currentTime maxCbTimes = some r ∧
      s' = ⟨r.2, s.next, currentTime, s.history.check currentTime (r.1.map TimerElem.id)⟩ := by
  obtain ⟨r, hr, rfl⟩ := Option.map_eq_some_iff.mp hs
  exact ⟨r, (Option.filter_eq_some_iff.mp hr).1, rfl⟩

/-- Time does not go back, and quotients and tick counts fit in an `int`. -/
def Admitted (s : WheelRun ε) : WheelOp ε → Prop
  | .add currentTime timeout _ | .reset _ currentTime timeout =>
      s.now ≤ currentTime ∧ currentTime ≤ ulongMax ∧ timeout ≤ ulongMax ∧
        timeout / s.wheel.wheelSize < 2 ^ 31
  | .del _ => True
  | .check currentTime _ =>
      s.now ≤ currentTime ∧ currentTime ≤ ulongMax ∧
        (s.wheel.createTime ≠ ulongMax → s.wheel.tickCnt currentTime < 2 ^ 31)

instance (s : WheelRun ε) : ∀ a, Decidable (Admitted s a)
  | .add _ _ _ => inferInstanceAs (Decidable (_ ∧ _))
  | .del _ => isTrue trivial
  | .reset _ _ _ => inferInstanceAs (Decidable (_ ∧ _))
  | .check _ _ => inferInstanceAs (Decidable (_ ∧ _))

end WheelOp

namespace TimerWheel

/-! ### The tick an element is due in -/

/-- The tick in which an element of spoke `c` runs, when tick `k` is the one
that visits `spoke_index`. -/
def dueTick (wheel : TimerWheel ε) (k c : ℕ) (e : TimerElem ε) : ℕ :=
  k + turn wheel.wheelSize wheel.spokeIndex c + wheel.wheelSize * e.rotationCnt.toNat

/-- The element after a visit that did not run it. -/
def decr (e : TimerElem ε) : TimerElem ε := { e with rotationCnt := e.rotationCnt - 1 }

/-- The wheel after a tick that left `kept` on its spoke. -/
def ticked (wheel : TimerWheel ε) (kept : List (TimerElem ε)) : TimerWheel ε :=
  (wheel.walked kept).nextSpoke

section Tick

variable {wheel : TimerWheel ε} {kept : List (TimerElem ε)} {k c : ℕ} {e : TimerElem ε}

@[simp] lemma walked_wheelSize : (wheel.walked kept).wheelSize = wheel.wheelSize := rfl

@[simp] lemma walked_createTime : (wheel.walked kept).createTime = wheel.createTime := rfl

@[simp] lemma walked_spokeIndex : (wheel.walked kept).spokeIndex = wheel.spokeIndex := rfl

@[simp] lemma ticked_wheelSize : (wheel.ticked kept).wheelSize = wheel.wheelSize := by
  rw [ticked, nextSpoke, walked_wheelSize]

@[simp] lemma ticked_createTime : (wheel.ticked kept).createTime = wheel.createTime := by
  rw [ticked, nextSpoke, walked_createTime]

lemma ticked_spokeIndex (hspoke : wheel.spokeIndex < wheel.wheelSize)
    (hsize : wheel.wheelSize < 2 ^ 64) :
    (wheel.ticked kept).spokeIndex = (wheel.spokeIndex + 1) % wheel.wheelSize := by
  rw [ticked, nextSpoke, walked_spokeIndex, walked_wheelSize, uadd_of_lt (by omega)]

/-- The spoke visited. -/
lemma walked_spokes_self : (wheel.walked kept).spokes wheel.spokeIndex = kept :=
  Function.update_self _ _ _

/-- The other spokes. -/
lemma walked_spokes_of_ne (h : c ≠ wheel.spokeIndex) :
    (wheel.walked kept).spokes c = wheel.spokes c := Function.update_of_ne h _ _

lemma ticked_spokes (c : ℕ) : (wheel.ticked kept).spokes c = (wheel.walked kept).spokes c := by
  rw [ticked, nextSpoke]

/-- A tick leaves the elements of other spokes due when they were. -/
lemma dueTick_next_of_ne (hspoke : wheel.spokeIndex < wheel.wheelSize)
    (hsize : wheel.wheelSize < 2 ^ 64) (hc : c < wheel.wheelSize) (h : c ≠ wheel.spokeIndex) :
    (wheel.ticked kept).dueTick (k + 1) c e = wheel.dueTick k c e := by
  have hturn := turn_succ_of_ne hspoke hc h
  rw [dueTick, dueTick, ticked_wheelSize, ticked_spokeIndex hspoke hsize]
  omega

/-- A tick leaves the elements it passes over due when they were. -/
lemma dueTick_next_self (hspoke : wheel.spokeIndex < wheel.wheelSize)
    (hsize : wheel.wheelSize < 2 ^ 64) (h : 0 < e.rotationCnt) :
    (wheel.ticked kept).dueTick (k + 1) wheel.spokeIndex (decr e) =
      wheel.dueTick k wheel.spokeIndex e := by
  have hturn := turn_succ_self hspoke
  rw [dueTick, dueTick, ticked_wheelSize, ticked_spokeIndex hspoke hsize, turn_self hspoke]
  obtain ⟨m, hm⟩ : ∃ m, e.rotationCnt.toNat = m + 1 := ⟨e.rotationCnt.toNat - 1, by omega⟩
  have hdecr : (decr e).rotationCnt.toNat = m := by
    change (e.rotationCnt - 1).toNat = m
    omega
  rw [hm, hdecr, Nat.mul_succ]
  omega

/-- On the spoke visited, the elements due are those with no rotations left. -/
lemma dueTick_self_iff (hspoke : wheel.spokeIndex < wheel.wheelSize) (h : 0 ≤ e.rotationCnt) :
    wheel.dueTick k wheel.spokeIndex e = k ↔ e.rotationCnt = 0 := by
  rw [dueTick, turn_self hspoke, Nat.add_zero]
  constructor
  · intro heq
    have hzero : wheel.wheelSize * e.rotationCnt.toNat = 0 := by omega
    rcases Nat.mul_eq_zero.mp hzero with h0 | h0
    · omega
    · omega
  · intro heq
    rw [heq, Int.toNat_zero, Nat.mul_zero, Nat.add_zero]

end Tick

/-- The rounds of a check on a wheel that was started and checked no later. -/
lemma tickCnt_of_le {wheel : TimerWheel ε} {currentTime : ℕ}
    (hle : wheel.createTime + wheel.lastCheckRelativeTick ≤ currentTime)
    (hmax : currentTime ≤ ulongMax) :
    usub 64 currentTime wheel.createTime = currentTime - wheel.createTime ∧
      wheel.tickCnt currentTime =
        currentTime - wheel.createTime - wheel.lastCheckRelativeTick := by
  have hlt := ulongMax_lt
  have hrel : usub 64 currentTime wheel.createTime = currentTime - wheel.createTime :=
    usub_of_le (by omega) (by omega)
  refine ⟨hrel, ?_⟩
  rw [tickCnt, hrel]
  exact usub_of_le (by omega) (by omega)

/-! ### Linking and unlinking -/

section Linking

variable {wheel : TimerWheel ε} {currentTime timeout c : ℕ} {e f : TimerElem ε}

lemma startAt_wheelSize (wheel : TimerWheel ε) (currentTime : ℕ) :
    (wheel.startAt currentTime).wheelSize = wheel.wheelSize := by
  rw [startAt]
  split_ifs <;> rfl

lemma startAt_spokes (wheel : TimerWheel ε) (currentTime : ℕ) :
    (wheel.startAt currentTime).spokes = wheel.spokes := by
  rw [startAt]
  split_ifs <;> rfl

lemma startAt_linked (wheel : TimerWheel ε) (currentTime : ℕ) :
    (wheel.startAt currentTime).linked = wheel.linked := by
  rw [linked, startAt_wheelSize, startAt_spokes, linked]

lemma startAt_spoke_lt (h : wheel.spokeIndex < wheel.wheelSize) :
    (wheel.startAt currentTime).spokeIndex < (wheel.startAt currentTime).wheelSize := by
  rw [startAt]
  split_ifs
  · exact (Nat.zero_le _).trans_lt h
  · exact h

lemma mem_linked : e ∈ wheel.linked ↔ ∃ c < wheel.wheelSize, e ∈ wheel.spokes c := by
  simp only [linked, List.mem_flatMap, List.mem_range]

/-- The elements linked after an insertion. -/
lemma mem_insertElem (hf : f ∈ (wheel.insertElem e currentTime timeout).spokes c) :
    f ∈ wheel.spokes c ∨ c = wheel.cursorOf currentTime timeout ∧
      f = { e with
        expire := uadd 64 currentTime timeout
        rotationCnt := toInt (timeout / wheel.wheelSize)
        cursor := wheel.cursorOf currentTime timeout } := by
  change f ∈ Function.update wheel.spokes (wheel.cursorOf currentTime timeout) _ c at hf
  by_cases hc : c = wheel.cursorOf currentTime timeout
  · subst hc
    rw [Function.update_self] at hf
    rcases List.mem_append.mp hf with hf | hf
    · exact Or.inl hf
    · exact Or.inr ⟨rfl, List.mem_singleton.mp hf⟩
  · rw [Function.update_of_ne hc] at hf
    exact Or.inl hf

/-- The elements linked after a removal. -/
lemma mem_removeElem (hf : f ∈ (wheel.removeElem e).spokes c) : f ∈ wheel.spokes c := by
  change f ∈ Function.update wheel.spokes e.cursor _ c at hf
  by_cases hc : c = e.cursor
  · subst hc
    rw [Function.update_self] at hf
    exact List.mem_of_mem_eraseP hf
  · rwa [Function.update_of_ne hc] at hf

end Linking

/-! ### The walk along a spoke -/

/-- The budget lasts: the elements with no rotations left are run, the others
lose one. -/
lemma walkSpoke_uncut {maxCbTimes : ℕ} {l : List (TimerElem ε)} {cbCnt : ℕ}
    (h : cbCnt + (l.filter fun e => e.rotationCnt = 0).length ≤ maxCbTimes) :
    walkSpoke maxCbTimes l cbCnt =
      ⟨(l.filter fun e => e.rotationCnt ≠ 0).map decr, l.filter fun e => e.rotationCnt = 0,
        false⟩ := by
  induction l generalizing cbCnt with
  | nil => rfl
  | cons e rest ih =>
      rw [walkSpoke]
      by_cases he : e.rotationCnt = 0
      · simp only [List.filter_cons, he, decide_true, if_true, List.length_cons] at h
        rw [if_neg (by simp [he]), if_neg (by omega), ih (by omega)]
        simp [he]
      · simp only [List.filter_cons, he, decide_false] at h
        rw [if_pos he, ih (by simpa using h)]
        simp [he, decr]

/-- The elements a walk passes over before it stops at its budget `b`, if it
stops. -/
def breakFront : ℕ → List (TimerElem ε) → Option (List (TimerElem ε))
  | _, [] => none
  | b, e :: rest =>
      if e.rotationCnt ≠ 0 then (breakFront b rest).map fun front => e :: front
      else if b = 0 then some []
      else breakFront (b - 1) rest

/-- A walk that does not stop has the budget it needs. -/
lemma length_le_of_breakFront_eq_none {b : ℕ} {l : List (TimerElem ε)}
    (h : breakFront b l = none) : (l.filter fun e => e.rotationCnt = 0).length ≤ b := by
  induction l generalizing b with
  | nil => exact Nat.zero_le b
  | cons e rest ih =>
      rw [breakFront] at h
      by_cases he : e.rotationCnt = 0
      · rw [if_neg (by simp [he])] at h
        split_ifs at h with hb
        have := ih h
        simp only [List.filter_cons, he, decide_true, if_true, List.length_cons]
        omega
      · rw [if_pos he, Option.map_eq_none_iff] at h
        simpa [List.filter_cons, he] using ih h

/-- The budget does not last: what the walk ran was due, and what it leaves was
on the spoke or is an element it passed over. -/
lemma walkSpoke_cut {maxCbTimes cbCnt b : ℕ} {l front : List (TimerElem ε)}
    (hb : maxCbTimes = cbCnt + b) (h : breakFront b l = some front) :
    (walkSpoke maxCbTimes l cbCnt).cut = true ∧
      (∀ e ∈ (walkSpoke maxCbTimes l cbCnt).fired, e ∈ l ∧ e.rotationCnt = 0) ∧
      (∀ e ∈ (walkSpoke maxCbTimes l cbCnt).kept, e ∈ l ∨ ∃ f ∈ front, e = decr f) ∧
      ∀ f ∈ front, f ∈ l ∧ f.rotationCnt ≠ 0 := by
  induction l generalizing b cbCnt front with
  | nil => cases h
  | cons e rest ih =>
      rw [breakFront] at h
      rw [walkSpoke]
      by_cases he : e.rotationCnt = 0
      · rw [if_neg (by simp [he])] at h ⊢
        split_ifs at h with hb0
        · obtain rfl := Option.some.inj h
          rw [if_pos (by omega)]
          exact ⟨rfl, fun f hf => (List.not_mem_nil hf).elim, fun f hf => Or.inl hf,
            fun f hf => (List.not_mem_nil hf).elim⟩
        · rw [if_neg (by omega)]
          have hb' : maxCbTimes = cbCnt + 1 + (b - 1) := by omega
          obtain ⟨hcut, hfired, hkept, hfront⟩ := ih hb' h
          refine ⟨hcut, fun f hf => ?_, fun f hf => ?_, fun f hf => ?_⟩
          · rcases List.mem_cons.mp hf with rfl | hf
            · exact ⟨List.mem_cons_self, he⟩
            · exact ⟨List.mem_cons_of_mem _ (hfired f hf).1, (hfired f hf).2⟩
          · exact (hkept f hf).imp (List.mem_cons_of_mem _) id
          · exact ⟨List.mem_cons_of_mem _ (hfront f hf).1, (hfront f hf).2⟩
      · rw [if_pos he] at h ⊢
        obtain ⟨front', hfront', rfl⟩ := Option.map_eq_some_iff.mp h
        obtain ⟨hcut, hfired, hkept, hfront⟩ := ih hb hfront'
        refine ⟨hcut, fun f hf => ?_, fun f hf => ?_, fun f hf => ?_⟩
        · exact ⟨List.mem_cons_of_mem _ (hfired f hf).1, (hfired f hf).2⟩
        · rcases List.mem_cons.mp hf with rfl | hf
          · exact Or.inr ⟨e, List.mem_cons_self, rfl⟩
          · rcases hkept f hf with hf | ⟨g, hg, rfl⟩
            · exact Or.inl (List.mem_cons_of_mem _ hf)
            · exact Or.inr ⟨g, List.mem_cons_of_mem _ hg, rfl⟩
        · rcases List.mem_cons.mp hf with rfl | hf
          · exact ⟨List.mem_cons_self, he⟩
          · exact ⟨List.mem_cons_of_mem _ (hfront f hf).1, (hfront f hf).2⟩

end TimerWheel

end CLibrary
