import CLibrary.Timer.Wheel

/-!
Callbacks of the wheel before their time.

An element is placed by the time of its add, and visited by the time of the
last check.  Without a check before the add the two differ, and a check that
stops at its budget has taken a rotation from elements it then visits again.

* `wheel_runs_early`: an add five ticks after the last check is visited at once.
* `breakOk`, `OnTime`: no add, reset or stopped walk places an element where a
  check could run it before its expire.
* `InTime`: every linked element is past its expire, or due no earlier than the
  tick before it.  `InTime.tickLoop` runs it through a check, with any budget.
* `wheel_never_early`: runs that keep to `OnTime` run no callback early.
-/

namespace CLibrary

open TimerWheel

variable {ε : Type*}

/-- Where the ticks of a check at `now` with budget `b` stop, the elements just
passed over may be visited again from `now` on; their expires allow for it. -/
def TimerWheel.breakOk (now : ℕ) : ℕ → TimerWheel ε → ℕ → Bool
  | 0, _, _ => true
  | n + 1, wheel, b =>
      match breakFront b (wheel.spokes wheel.spokeIndex) with
      | some front => front.all fun e =>
          decide ((e.expire : ℤ) ≤ now + wheel.wheelSize * (e.rotationCnt - 1) + 1)
      | none =>
          let l := wheel.spokes wheel.spokeIndex
          breakOk now n (wheel.ticked ((l.filter fun e => e.rotationCnt ≠ 0).map decr))
            (b - (l.filter fun e => e.rotationCnt = 0).length)

/-- An add or reset sets an expire no later than the first time a check can run the
element, which is at its own time at the earliest; a check stops at its budget only
where `breakOk` lets it. -/
def WheelOp.OnTime (s : WheelRun ε) : WheelOp ε → Prop
  | .add currentTime timeout _ | .reset _ currentTime timeout =>
      let wheel := s.wheel.startAt currentTime
      uadd 64 currentTime timeout ≤ max currentTime (wheel.createTime +
        wheel.lastCheckRelativeTick +
        turn wheel.wheelSize wheel.spokeIndex (wheel.cursorOf currentTime timeout) +
        wheel.wheelSize * (timeout / wheel.wheelSize) + 1)
  | .del _ => True
  | .check currentTime maxCbTimes => s.wheel.createTime ≠ ulongMax →
      breakOk currentTime (s.wheel.tickCnt currentTime) s.wheel maxCbTimes = true

instance (s : WheelRun ε) : ∀ a, Decidable (WheelOp.OnTime s a)
  | .add _ _ _ => inferInstanceAs (Decidable (_ ≤ _))
  | .del _ => isTrue trivial
  | .reset _ _ _ => inferInstanceAs (Decidable (_ ≤ _))
  | .check _ _ => inferInstanceAs (Decidable (_ → _))

/-- **A callback before its time**: a wheel of six, one element added at 0 and
one at 5 with a timeout of 1; the check at 5 runs it. -/
theorem wheel_runs_early :
    ∃ (timer : ZxTimer (TimerWheel Unit)) (s : WheelRun Unit) (r : _ × _),
      ZxTimer.createWheel 6 = some timer ∧
      Run WheelOp.step (fun s a => a.Admitted s) (WheelRun.start timer)
        [.add 0 10 (), .add 5 1 ()] s ∧
      WheelOp.Admitted s (.check 5 1) ∧ s.timer.checkWheel 5 1 = some r ∧
      r.1.map TimerElem.expire = [6] := by
  have hrun : (exec (fun s a => if a.Admitted s then WheelOp.step s a else none)
      (WheelRun.start wheelOfSix)
      [.add 0 10 (), .add 5 1 ()]).map
      (fun s => (decide (WheelOp.Admitted s (.check 5 1)),
        (s.timer.checkWheel 5 1).map fun r => r.1.map TimerElem.expire)) =
        some (true, some [6]) := by
    decide +kernel
  obtain ⟨s, hs, heq⟩ := Option.map_eq_some_iff.mp hrun
  rw [Prod.mk.injEq, decide_eq_true_eq] at heq
  obtain ⟨r, hr, hexp⟩ := Option.map_eq_some_iff.mp heq.2
  exact ⟨_, s, r, createWheel_six, run_of_exec_guarded hs, heq.1, hr, hexp⟩

/-! ### Elements in time -/

/-- Tick `k` being the next one, every linked element is past its expire at `now`,
or due no earlier than the tick before it. -/
def InTime (wheel : TimerWheel ε) (k now : ℕ) : Prop :=
  ∀ c < wheel.wheelSize, ∀ e ∈ wheel.spokes c,
    0 ≤ e.rotationCnt ∧ e.expire ≤ max now (wheel.createTime + wheel.dueTick k c e + 1)

namespace InTime

variable {wheel : TimerWheel ε} {k now : ℕ}

/-- Time passes. -/
lemma mono (h : InTime wheel k now) {later : ℕ} (hle : now ≤ later) : InTime wheel k later :=
  fun c hc e he => ⟨(h c hc e he).1, (h c hc e he).2.trans (max_le_max_right _ hle)⟩

/-- The elements run in tick `k` have an expire of at most the time after it. -/
lemma expire_le (h : InTime wheel k now) (hspoke : wheel.spokeIndex < wheel.wheelSize)
    {e : TimerElem ε} (he : e ∈ wheel.spokes wheel.spokeIndex) (hrot : e.rotationCnt = 0) :
    e.expire ≤ max now (wheel.createTime + k + 1) := by
  have hexp := (h _ hspoke e he).2
  rwa [(dueTick_self_iff (k := k) hspoke hrot.ge).mpr hrot] at hexp

/-- A tick keeps every element in time. -/
lemma ticked (h : InTime wheel k now) (hspoke : wheel.spokeIndex < wheel.wheelSize)
    (hsize : wheel.wheelSize < 2 ^ 64) :
    InTime (wheel.ticked (((wheel.spokes wheel.spokeIndex).filter fun e =>
      e.rotationCnt ≠ 0).map decr)) (k + 1) now := by
  intro c hc e he
  rw [ticked_wheelSize] at hc
  rw [ticked_spokes] at he
  rw [ticked_createTime]
  by_cases hcs : c = wheel.spokeIndex
  · subst hcs
    rw [walked_spokes_self] at he
    obtain ⟨f, hf, rfl⟩ := List.mem_map.mp he
    rw [List.mem_filter, decide_eq_true_eq] at hf
    obtain ⟨hnn, hexp⟩ := h _ hc f hf.1
    have hpos : 0 < f.rotationCnt := lt_of_le_of_ne hnn (Ne.symm hf.2)
    rw [dueTick_next_self hspoke hsize hpos]
    refine ⟨?_, hexp⟩
    change 0 ≤ f.rotationCnt - 1
    omega
  · rw [walked_spokes_of_ne hcs] at he
    rw [dueTick_next_of_ne hspoke hsize hc hcs]
    exact h c hc e he

/-- Where the ticks stop, the next one is `n` later than it should be. -/
lemma walked (h : InTime wheel k now) (hspoke : wheel.spokeIndex < wheel.wheelSize) {n : ℕ}
    {kept front : List (TimerElem ε)} (hnow : now = wheel.createTime + k + n)
    (hkept : ∀ e ∈ kept, e ∈ wheel.spokes wheel.spokeIndex ∨ ∃ f ∈ front, e = decr f)
    (hfront : ∀ f ∈ front, f ∈ wheel.spokes wheel.spokeIndex ∧ f.rotationCnt ≠ 0)
    (hok : ∀ f ∈ front, (f.expire : ℤ) ≤ now + wheel.wheelSize * (f.rotationCnt - 1) + 1) :
    InTime (wheel.walked kept) (k + n) now := by
  have hlater : ∀ c e, wheel.dueTick k c e ≤ (wheel.walked kept).dueTick (k + n) c e := by
    intro c e
    rw [dueTick, dueTick, walked_wheelSize, walked_spokeIndex]
    omega
  intro c hc e he
  rw [walked_createTime]
  by_cases hcs : c = wheel.spokeIndex
  · subst hcs
    rw [walked_spokes_self] at he
    rcases hkept e he with he | ⟨f, hf, rfl⟩
    · obtain ⟨hnn, hexp⟩ := h _ hc e he
      have := hlater wheel.spokeIndex e
      exact ⟨hnn, by omega⟩
    · -- an element passed over has lost a rotation without the ticks for it
      obtain ⟨hmem, hrot⟩ := hfront f hf
      have hnn := (h _ hc f hmem).1
      have hpos : 0 ≤ f.rotationCnt - 1 := by omega
      refine ⟨hpos, ?_⟩
      have hexp := hok f hf
      have hdue : (wheel.walked kept).dueTick (k + n) wheel.spokeIndex (decr f) =
          k + n + wheel.wheelSize * (f.rotationCnt - 1).toNat := by
        rw [dueTick, walked_wheelSize, walked_spokeIndex, turn_self hspoke, Nat.add_zero]
        rfl
      rw [hdue]
      have hcast : ((wheel.wheelSize * (f.rotationCnt - 1).toNat : ℕ) : ℤ) =
          wheel.wheelSize * (f.rotationCnt - 1) := by
        rw [Nat.cast_mul, Int.toNat_of_nonneg hpos]
      change f.expire ≤ _
      omega
  · rw [walked_spokes_of_ne hcs] at he
    obtain ⟨hnn, hexp⟩ := h c hc e he
    have := hlater c e
    exact ⟨hnn, by omega⟩

/-- **The loop of a check** runs no callback early, whatever its budget, and
leaves every element in time if it stops where `breakOk` lets it. -/
lemma tickLoop (h : InTime wheel k now) (hspoke : wheel.spokeIndex < wheel.wheelSize)
    (hsize : wheel.wheelSize < 2 ^ 64) (n : ℕ) {maxCbTimes cbCnt b : ℕ}
    (hnow : now = wheel.createTime + k + n) (hb : maxCbTimes = cbCnt + b) :
    let r := TimerWheel.tickLoop maxCbTimes n wheel cbCnt
    (∀ e ∈ r.fired, e.expire ≤ now) ∧ r.wheel.createTime = wheel.createTime ∧
      r.wheel.wheelSize = wheel.wheelSize ∧ r.wheel.spokeIndex < r.wheel.wheelSize ∧
      (breakOk now n wheel b = true → InTime r.wheel (k + n) now) := by
  induction n generalizing wheel k cbCnt b with
  | zero => exact ⟨fun e he => (List.not_mem_nil he).elim, rfl, rfl, hspoke, fun _ => h⟩
  | succ n ih =>
      rw [TimerWheel.tickLoop, breakOk]
      cases hfront : breakFront b (wheel.spokes wheel.spokeIndex) with
      | some front =>
          obtain ⟨hcut, hfired, hkept, hmem⟩ := walkSpoke_cut hb hfront
          dsimp only
          rw [hcut, if_pos rfl]
          refine ⟨fun e he => ?_, rfl, rfl, hspoke, fun hok => ?_⟩
          · have := h.expire_le hspoke (hfired e he).1 (hfired e he).2
            omega
          · rw [List.all_eq_true] at hok
            exact h.walked hspoke hnow hkept hmem fun f hf => of_decide_eq_true (hok f hf)
      | none =>
          have hlen := length_le_of_breakFront_eq_none hfront
          rw [walkSpoke_uncut (show cbCnt + _ ≤ maxCbTimes by omega)]
          dsimp only
          rw [if_neg Bool.false_ne_true]
          set l := wheel.spokes wheel.spokeIndex with hl
          have hspoke' :
              (wheel.ticked ((l.filter fun e => e.rotationCnt ≠ 0).map decr)).spokeIndex <
                (wheel.ticked ((l.filter fun e => e.rotationCnt ≠ 0).map decr)).wheelSize := by
            rw [ticked_spokeIndex hspoke hsize, ticked_wheelSize]
            exact Nat.mod_lt _ (by omega)
          obtain ⟨hle, hct, hws, hsp, hin⟩ := ih (h.ticked hspoke hsize) hspoke'
            (by rw [ticked_wheelSize]; exact hsize) (by rw [ticked_createTime]; omega)
            (show maxCbTimes = cbCnt + (l.filter fun e => e.rotationCnt = 0).length +
              (b - (l.filter fun e => e.rotationCnt = 0).length) by omega)
          rw [ticked_createTime] at hct
          rw [ticked_wheelSize] at hws
          refine ⟨fun e he => ?_, hct, hws, hsp, fun hok => ?_⟩
          · rcases List.mem_append.mp he with he | he
            · rw [List.mem_filter, decide_eq_true_eq] at he
              have := h.expire_le hspoke he.1 he.2
              omega
            · exact hle e he
          · rw [show k + (n + 1) = k + 1 + n by omega]
            exact hin hok

/-- Linking an element that is past its expire, or due no earlier than the tick before
it. -/
lemma insert (h : InTime wheel k now) {e : TimerElem ε} {currentTime timeout : ℕ}
    (htime : now ≤ currentTime) (hquot : timeout / wheel.wheelSize < 2 ^ 31)
    (hexp : uadd 64 currentTime timeout ≤ max currentTime (wheel.createTime + k +
      turn wheel.wheelSize wheel.spokeIndex (wheel.cursorOf currentTime timeout) +
      wheel.wheelSize * (timeout / wheel.wheelSize) + 1)) :
    InTime (wheel.insertElem e currentTime timeout) k currentTime := by
  intro c hc f hf
  rcases mem_insertElem hf with hf | ⟨rfl, rfl⟩
  · exact h.mono htime c hc f hf
  · refine ⟨toInt_nonneg hquot, ?_⟩
    change uadd 64 currentTime timeout ≤ max currentTime (wheel.createTime + (k +
      turn wheel.wheelSize wheel.spokeIndex (wheel.cursorOf currentTime timeout) +
      wheel.wheelSize * (toInt (timeout / wheel.wheelSize)).toNat) + 1)
    rw [toNat_toInt hquot]
    omega

/-- Unlinking an element. -/
lemma remove (h : InTime wheel k now) (e : TimerElem ε) : InTime (wheel.removeElem e) k now :=
  fun c hc f hf => h c hc f (mem_removeElem hf)

end InTime

/-! ### Every call -/

/-- No check runs anything: nothing has been added yet, or the time is at its
last value and so is `create_time`. -/
def Idle (wheel : TimerWheel ε) (now : ℕ) : Prop :=
  wheel.createTime = ulongMax ∧
    (now = ulongMax ∨ wheel.lastCheckRelativeTick = ulongMax ∧ ∀ c, wheel.spokes c = [])

/-- The wheel runs, and its elements are in time for its next tick. -/
structure Punctual (wheel : TimerWheel ε) (now : ℕ) : Prop where
  create : wheel.createTime < ulongMax
  le_now : wheel.createTime + wheel.lastCheckRelativeTick ≤ now
  spoke : wheel.spokeIndex < wheel.wheelSize
  inTime : InTime wheel wheel.lastCheckRelativeTick now

/-- Nothing linked can run early. -/
structure EarlyInv (s : WheelRun ε) : Prop where
  size_pos : 0 < s.wheel.wheelSize
  size_lt : s.wheel.wheelSize < 2 ^ 64
  mode : Idle s.wheel s.now ∨ Punctual s.wheel s.now

section Modes

variable {wheel : TimerWheel ε} {now currentTime timeout : ℕ} {e : TimerElem ε}

/-- A wheel started at the end of time is idle. -/
lemma idle_insert (hcreate : (wheel.startAt currentTime).createTime = ulongMax)
    (hend : currentTime = ulongMax) :
    Idle ((wheel.startAt currentTime).insertElem e currentTime timeout) currentTime :=
  ⟨hcreate, Or.inl hend⟩

/-- **Setting an element** with an expire that is on time. -/
lemma mode_insert (hmode : Idle wheel now ∨ Punctual wheel now) (hpos : 0 < wheel.wheelSize)
    (htime : now ≤ currentTime) (hmax : currentTime ≤ ulongMax)
    (hquot : timeout / wheel.wheelSize < 2 ^ 31)
    (hexp : let w := wheel.startAt currentTime
      uadd 64 currentTime timeout ≤ max currentTime (w.createTime + w.lastCheckRelativeTick +
        turn w.wheelSize w.spokeIndex (w.cursorOf currentTime timeout) +
        w.wheelSize * (timeout / w.wheelSize) + 1)) :
    Idle ((wheel.startAt currentTime).insertElem e currentTime timeout) currentTime ∨
      Punctual ((wheel.startAt currentTime).insertElem e currentTime timeout) currentTime := by
  rw [← startAt_wheelSize wheel currentTime] at hquot
  by_cases hlast : wheel.lastCheckRelativeTick = ulongMax
  · have hstart : wheel.startAt currentTime =
        { wheel with createTime := currentTime, spokeIndex := 0, lastCheckRelativeTick := 0 } := by
      rw [startAt, if_pos hlast]
    by_cases hend : currentTime = ulongMax
    · exact Or.inl (idle_insert (by rw [hstart]; exact hend) hend)
    · -- the first add: before the end of time no running wheel starts again
      have hempty : ∀ c, wheel.spokes c = [] := by
        rcases hmode with ⟨-, hnow | ⟨-, hempty⟩⟩ | hmode
        · omega
        · exact hempty
        · have := hmode.le_now
          omega
      have hin : InTime (wheel.startAt currentTime)
          (wheel.startAt currentTime).lastCheckRelativeTick now := by
        intro c _ f hf
        rw [startAt_spokes, hempty c] at hf
        exact (List.not_mem_nil hf).elim
      refine Or.inr ⟨?_, ?_, ?_, hin.insert htime hquot hexp⟩
      · rw [hstart]
        change currentTime < ulongMax
        omega
      · rw [hstart]
        exact le_rfl
      · rw [hstart]
        exact hpos
  · have hstart : wheel.startAt currentTime = wheel := by rw [startAt, if_neg hlast]
    rw [hstart] at hexp hquot ⊢
    rcases hmode with ⟨hcreate, hnow | ⟨hlast', -⟩⟩ | hmode
    · exact Or.inl ⟨hcreate, Or.inl (by omega)⟩
    · exact absurd hlast' hlast
    · exact Or.inr ⟨hmode.create, hmode.le_now.trans htime, hmode.spoke,
        hmode.inTime.insert htime hquot hexp⟩

/-- Unlinking an element. -/
lemma mode_remove (hmode : Idle wheel now ∨ Punctual wheel now)
    (he : e ∈ wheel.linked) :
    Idle (wheel.removeElem e) now ∨ Punctual (wheel.removeElem e) now := by
  rcases hmode with ⟨hcreate, hnow | ⟨-, hempty⟩⟩ | hmode
  · exact Or.inl ⟨hcreate, Or.inl hnow⟩
  · obtain ⟨c, -, hmem⟩ := mem_linked.mp he
    rw [hempty c] at hmem
    exact (List.not_mem_nil hmem).elim
  · exact Or.inr ⟨hmode.create, hmode.le_now, hmode.spoke, hmode.inTime.remove e⟩

end Modes

namespace EarlyInv

variable {s s' : WheelRun ε} {currentTime timeout id maxCbTimes : ℕ}

/-- An add keeps the invariant. -/
lemma add (h : EarlyInv s) {event : ε} (hok : WheelOp.Admitted s (.add currentTime timeout event))
    (hexp : WheelOp.OnTime s (.add currentTime timeout event))
    (hs : WheelOp.step s (.add currentTime timeout event) = some s') : EarlyInv s' := by
  obtain rfl := Option.some.inj hs
  obtain ⟨htime, hmax, -, hquot⟩ := hok
  have hmode := mode_insert (e := ⟨s.next, 0, 0, 0, event⟩) h.mode h.size_pos htime hmax hquot hexp
  have hsize := startAt_wheelSize s.wheel currentTime
  refine ⟨?_, ?_, ?_⟩
  all_goals rw [WheelRun.wheel, ZxTimer.addWheel_inner]
  · exact hsize.symm ▸ h.size_pos
  · exact hsize.symm ▸ h.size_lt
  · exact hmode

/-- A del keeps the invariant. -/
lemma del (h : EarlyInv s) (hs : WheelOp.step s (.del id) = some s') : EarlyInv s' := by
  obtain ⟨r, hr, rfl⟩ := Option.map_eq_some_iff.mp hs
  obtain ⟨e, he, rfl⟩ := ZxTimer.delWheel_spec hr
  refine ⟨?_, ?_, ?_⟩
  all_goals rw [WheelRun.wheel, ZxTimer.countDown_inner]
  · exact h.size_pos
  · exact h.size_lt
  · exact mode_remove h.mode (elemOf_spec he).1

/-- A reset keeps the invariant. -/
lemma reset (h : EarlyInv s) (hok : WheelOp.Admitted s (.reset id currentTime timeout))
    (hexp : WheelOp.OnTime s (.reset id currentTime timeout))
    (hs : WheelOp.step s (.reset id currentTime timeout) = some s') : EarlyInv s' := by
  obtain ⟨htime, hmax, -, hquot⟩ := hok
  obtain ⟨timer, hr, rfl⟩ := Option.map_eq_some_iff.mp hs
  obtain ⟨e, he, rfl⟩ := ZxTimer.resetWheel_spec hr
  have hremoved := mode_remove h.mode (elemOf_spec he).1
  have hsize : ((s.timer.inner.removeElem e).startAt currentTime).wheelSize =
      s.wheel.wheelSize := startAt_wheelSize _ _
  have hstart : (s.timer.inner.removeElem e).startAt currentTime =
      (s.timer.inner.startAt currentTime).removeElem e := by
    rw [startAt, startAt, removeElem, removeElem]
    split_ifs <;> rfl
  refine ⟨hsize.symm ▸ h.size_pos, hsize.symm ▸ h.size_lt,
    mode_insert (e := e) hremoved h.size_pos htime hmax hquot ?_⟩
  rw [hstart]
  exact hexp

/-- A check runs nothing early, and keeps the invariant where it stops on time. -/
lemma check (h : EarlyInv s) (hok : WheelOp.Admitted s (.check currentTime maxCbTimes))
    {r : List (TimerElem ε) × ZxTimer (TimerWheel ε)}
    (hr : s.timer.checkWheel currentTime maxCbTimes = some r) :
    (∀ e ∈ r.1, e.expire ≤ currentTime) ∧
      (WheelOp.OnTime s (.check currentTime maxCbTimes) →
        Idle r.2.inner currentTime ∨ Punctual r.2.inner currentTime) ∧
      r.2.inner.wheelSize = s.wheel.wheelSize := by
  obtain ⟨htime, hmax, hticks⟩ := hok
  rcases ZxTimer.checkWheel_spec hr with ⟨hcreate, rfl⟩ | ⟨hcreate, rfl⟩
  · refine ⟨fun e he => (List.not_mem_nil he).elim, fun _ => ?_, rfl⟩
    rcases h.mode with ⟨hidle, hnow | hempty⟩ | hmode
    · exact Or.inl ⟨hidle, Or.inl (by omega)⟩
    · exact Or.inl ⟨hidle, Or.inr hempty⟩
    · exact absurd hcreate hmode.create.ne
  · have hmode : Punctual s.timer.inner s.now := h.mode.resolve_left fun hidle =>
      hcreate hidle.1
    have hlt : s.timer.inner.tickCnt currentTime < 2 ^ 31 := hticks hcreate
    have hnow := hmode.le_now
    obtain ⟨hrel, hcnt⟩ := tickCnt_of_le (hnow.trans htime) hmax
    rw [min_eq_left (le_of_lt hlt), hrel, ZxTimer.countDown_iterate_inner]
    have hcur : currentTime = s.timer.inner.createTime + s.timer.inner.lastCheckRelativeTick +
        s.timer.inner.tickCnt currentTime := by omega
    obtain ⟨hfired, hct, hws, hsp, hin⟩ := (hmode.inTime.mono htime).tickLoop hmode.spoke h.size_lt
      (s.timer.inner.tickCnt currentTime) hcur (Nat.zero_add maxCbTimes).symm
    refine ⟨hfired, fun hbreak => Or.inr ⟨hct.symm ▸ hmode.create, ?_, hsp, ?_⟩, hws⟩
    · dsimp only
      rw [hct]
      omega
    · have hin' := hin (hbreak hcreate)
      rw [show s.timer.inner.lastCheckRelativeTick + s.timer.inner.tickCnt currentTime =
        currentTime - s.timer.inner.createTime by omega] at hin'
      exact hin'

/-- **Every call on time keeps the invariant.** -/
lemma step (h : EarlyInv s) {a : WheelOp ε} (hok : a.Admitted s) (hexp : a.OnTime s)
    (hs : a.step s = some s') : EarlyInv s' := by
  cases a with
  | add currentTime timeout event => exact h.add hok hexp hs
  | del id => exact h.del hs
  | reset id currentTime timeout => exact h.reset hok hexp hs
  | check currentTime maxCbTimes =>
      obtain ⟨r, hr, rfl⟩ := WheelOp.step_check hs
      obtain ⟨-, hmode, hws⟩ := h.check hok hr
      replace hws : r.2.inner.wheelSize = s.wheel.wheelSize := hws
      exact ⟨hws.symm ▸ h.size_pos, hws.symm ▸ h.size_lt, hmode hexp⟩

/-- A wheel just created. -/
lemma start {wheelSize : ℕ} {timer : ZxTimer (TimerWheel ε)}
    (hcreate : ZxTimer.createWheel wheelSize = some timer) : EarlyInv (WheelRun.start timer) := by
  obtain ⟨hpos, hlt, rfl⟩ := ZxTimer.createWheel_spec hcreate
  exact ⟨hpos, hlt, Or.inl ⟨rfl, Or.inr ⟨rfl, fun _ => rfl⟩⟩⟩

end EarlyInv

/-- **The wheel never fires early** on time: after any run whose adds, resets
and stopped walks are `OnTime`, a check with any budget runs only callbacks
whose expire is not past `current_time`. -/
theorem wheel_never_early {wheelSize : ℕ} {timer : ZxTimer (TimerWheel ε)}
    (hcreate : ZxTimer.createWheel wheelSize = some timer) {as : List (WheelOp ε)} {s : WheelRun ε}
    (hrun : Run WheelOp.step (fun s a => a.Admitted s ∧ a.OnTime s) (WheelRun.start timer) as s)
    {currentTime maxCbTimes : ℕ} {r : List (TimerElem ε) × ZxTimer (TimerWheel ε)}
    (hok : WheelOp.Admitted s (.check currentTime maxCbTimes))
    (hr : s.timer.checkWheel currentTime maxCbTimes = some r) :
    ∀ e ∈ r.1, e.expire ≤ currentTime := by
  have h : EarlyInv s := hrun.invariant (I := fun _ s => EarlyInv s) (EarlyInv.start hcreate)
    fun _ _ _ _ h hok hs => h.step hok.1 hok.2 hs
  exact (h.check hok hr).1

/-- Adds without a check before them, a check that stops at its budget between
two elements, and the check that runs what it left. -/
theorem wheel_of_six_never_early :
    ∃ (timer : ZxTimer (TimerWheel Unit)) (s : WheelRun Unit) (r : _ × _),
      ZxTimer.createWheel 6 = some timer ∧
      Run WheelOp.step (fun s a => a.Admitted s ∧ a.OnTime s) (WheelRun.start timer)
        [.add 0 2 (), .add 1 1 (), .check 3 1] s ∧
      s.timer.checkWheel 4 1 = some r ∧ r.1.map TimerElem.expire = [2] ∧
      ∀ e ∈ r.1, e.expire ≤ 4 := by
  have hrun : (exec (fun s a => if a.Admitted s ∧ a.OnTime s then WheelOp.step s a else none)
      (WheelRun.start wheelOfSix)
      [.add 0 2 (), .add 1 1 (), .check 3 1]).map
      (fun s => (decide (WheelOp.Admitted s (.check 4 1)),
        (s.timer.checkWheel 4 1).map fun r => r.1.map TimerElem.expire)) =
        some (true, some [2]) := by
    decide +kernel
  obtain ⟨s, hs, heq⟩ := Option.map_eq_some_iff.mp hrun
  rw [Prod.mk.injEq, decide_eq_true_eq] at heq
  obtain ⟨r, hr, hexp⟩ := Option.map_eq_some_iff.mp heq.2
  have hrun := run_of_exec_guarded hs
  exact ⟨_, s, r, createWheel_six, hrun, hr, hexp,
    wheel_never_early createWheel_six hrun heq.1 hr⟩

end CLibrary
