import CLibrary.Timer.Ledger

/-!
The time arithmetic of the wheel against that of the integers.

* `ArmsExactly`: the rotation count and the cursor that `zx_timer_add` and
  `zx_timer_reset` store are those of the integers.  `toInt_eq_iff`,
  `cursorOf_exact_iff`: when they are.
* `roundsMade`, `TicksExactly`: the rounds of `zx_timer_check`, and that they are
  the ticks since the last check.  `ticksExactly_iff`: when they are.
* `wheel_arithmetic_wraps`: a long timeout, an add and a check at times that go
  back.
* `wheel_arithmetic_iff`: which calls are exact, in every reachable state.
-/

namespace CLibrary

open TimerWheel

variable {ε : Type*}

/-! ### Adds and resets -/

/-- Element `id`, armed at `current_time`, has the quotient of its timeout as its
rotation count, and its expire relative to `create_time`, modulo the size of the
wheel, as its cursor. -/
def ArmsExactly (wheel : TimerWheel ε) (id currentTime timeout : ℕ) : Prop :=
  ∃ e ∈ wheel.linked, e.id = id ∧ e.rotationCnt = (timeout / wheel.wheelSize : ℕ) ∧
    (e.cursor : ℤ) = ((currentTime : ℤ) + timeout - wheel.createTime) % wheel.wheelSize

/-- The time is not so far before the start of the wheel that the difference
wraps, or the size of the wheel divides what it wraps by. -/
def CursorFits (wheel : TimerWheel ε) (currentTime timeout : ℕ) : Prop :=
  (wheel.startAt currentTime).createTime ≤ currentTime + timeout % wheel.wheelSize ∨
    wheel.wheelSize ∣ 2 ^ 64

/-- A quotient is stored in an `int` as it is if it fits. -/
lemma toInt_eq_iff {x : ℕ} : toInt x = x ↔ x < 2 ^ 31 := by
  refine ⟨fun heq => ?_, toInt_of_lt⟩
  have hlt : toInt x < 2 ^ 31 := by
    delta toInt
    have := Int.bmod_lt (x := (x : ℤ)) (m := 2 ^ 32) (by decide)
    omega
  rw [heq] at hlt
  exact_mod_cast hlt

namespace TimerWheel

variable {wheel : TimerWheel ε} {currentTime timeout : ℕ}

/-- The cursor, over the integers: where `create_time` lies ahead of the time
and the rest of the timeout, it is off by what the type wraps by. -/
lemma cursorOf_eq (hcreate : wheel.createTime < 2 ^ 64)
    (hwrap : currentTime + timeout ≤ ulongMax) :
    (wheel.cursorOf currentTime timeout : ℤ) =
      ((currentTime : ℤ) + timeout - wheel.createTime +
        if wheel.createTime ≤ currentTime + timeout % wheel.wheelSize then 0 else 2 ^ 64) %
        wheel.wheelSize := by
  have hrest : timeout % wheel.wheelSize ≤ timeout := Nat.mod_le _ _
  have hdiv : (timeout : ℤ) = (timeout % wheel.wheelSize : ℕ) +
      wheel.wheelSize * (timeout / wheel.wheelSize : ℕ) := by
    exact_mod_cast (Nat.mod_add_div timeout wheel.wheelSize).symm
  have hsum : (uadd 64 (usub 64 currentTime wheel.createTime) (timeout % wheel.wheelSize) : ℤ) =
      (currentTime : ℤ) + (timeout % wheel.wheelSize : ℕ) - wheel.createTime +
        if wheel.createTime ≤ currentTime + timeout % wheel.wheelSize then 0 else 2 ^ 64 := by
    generalize timeout % wheel.wheelSize = td at hrest
    rw [ulongMax] at hwrap
    rw [uadd, usub]
    split_ifs with hle
    · omega
    · omega
  rw [cursorOf, Int.natCast_mod, hsum]
  conv_rhs => rw [hdiv]
  rw [← Int.add_mul_emod_self_left _ (wheel.wheelSize : ℤ) (timeout / wheel.wheelSize : ℕ)]
  congr 1
  ring

/-- **When the cursor is exact.** -/
lemma cursorOf_exact_iff (hcreate : wheel.createTime < 2 ^ 64)
    (hwrap : currentTime + timeout ≤ ulongMax) :
    (wheel.cursorOf currentTime timeout : ℤ) =
        ((currentTime : ℤ) + timeout - wheel.createTime) % wheel.wheelSize ↔
      wheel.createTime ≤ currentTime + timeout % wheel.wheelSize ∨ wheel.wheelSize ∣ 2 ^ 64 := by
  rw [cursorOf_eq hcreate hwrap]
  split_ifs with hle
  · rw [add_zero]
    exact iff_of_true rfl (Or.inl hle)
  · rw [or_iff_right hle, Int.emod_eq_emod_iff_emod_sub_eq_zero, add_sub_cancel_left,
      ← Int.dvd_iff_emod_eq_zero]
    exact_mod_cast Iff.rfl

end TimerWheel

/-- **Which adds and resets are exact**: those whose quotient fits in an `int`
and whose cursor fits, in a wheel that links no other element of that `id`. -/
lemma armsExactly_iff {wheel : TimerWheel ε} (elem : TimerElem ε) {currentTime timeout : ℕ}
    (hpos : 0 < wheel.wheelSize) (hcreate : wheel.createTime < 2 ^ 64)
    (hother : ∀ e ∈ wheel.linked, e.id ≠ elem.id) (hwrap : currentTime + timeout ≤ ulongMax) :
    ArmsExactly (wheel.insertElem elem currentTime timeout) elem.id currentTime timeout ↔
      timeout / wheel.wheelSize < 2 ^ 31 ∧
        (wheel.createTime ≤ currentTime + timeout % wheel.wheelSize ∨
          wheel.wheelSize ∣ 2 ^ 64) := by
  have hperm := insertElem_perm hpos elem currentTime timeout
  set f : TimerElem ε := { elem with
    expire := uadd 64 currentTime timeout
    rotationCnt := toInt (timeout / wheel.wheelSize)
    cursor := wheel.cursorOf currentTime timeout } with hf
  have honly : ∀ e, e ∈ (wheel.insertElem elem currentTime timeout).linked ∧ e.id = elem.id ↔
      e = f := by
    intro e
    rw [hperm.mem_iff, List.mem_cons]
    constructor
    · rintro ⟨rfl | he, hid⟩
      · rfl
      · exact absurd hid (hother e he)
    · rintro rfl
      exact ⟨Or.inl rfl, rfl⟩
  rw [← toInt_eq_iff, ← cursorOf_exact_iff hcreate hwrap]
  constructor
  · rintro ⟨e, he, hid, hrot, hcur⟩
    obtain rfl := (honly e).mp ⟨he, hid⟩
    exact ⟨hrot, hcur⟩
  · rintro ⟨hrot, hcur⟩
    exact ⟨f, ((honly f).mpr rfl).1, rfl, hrot, hcur⟩

/-! ### Checks -/

namespace TimerWheel

/-- The rounds the loop of `zx_timer_check` enters, of at most `n`. -/
def roundsMade (maxCbTimes : ℕ) : ℕ → TimerWheel ε → ℕ → ℕ
  | 0, _, _ => 0
  | n + 1, wheel, cbCnt =>
      let walk := walkSpoke maxCbTimes (wheel.spokes wheel.spokeIndex) cbCnt
      if walk.cut then 1
      else roundsMade maxCbTimes n (wheel.walked walk.kept).nextSpoke
        (cbCnt + walk.fired.length) + 1

section Rounds

variable {wheel : TimerWheel ε} (maxCbTimes : ℕ)

lemma roundsMade_le (n : ℕ) (wheel : TimerWheel ε) (cbCnt : ℕ) :
    roundsMade maxCbTimes n wheel cbCnt ≤ n := by
  induction n generalizing wheel cbCnt with
  | zero => exact Nat.le_refl 0
  | succ n ih =>
      rw [roundsMade]
      split_ifs with hcut
      · omega
      · exact Nat.succ_le_succ (ih _ _)

/-- A loop with rounds to make enters the first. -/
lemma roundsMade_pos {n : ℕ} (hn : 0 < n) (wheel : TimerWheel ε) (cbCnt : ℕ) :
    0 < roundsMade maxCbTimes n wheel cbCnt := by
  cases n with
  | zero => exact absurd hn (lt_irrefl 0)
  | succ n =>
      rw [roundsMade]
      split_ifs
      · exact Nat.one_pos
      · exact Nat.succ_pos _

/-- A loop that is not cut makes all its rounds. -/
lemma roundsMade_of_uncut {n : ℕ} {wheel : TimerWheel ε} {cbCnt : ℕ}
    (h : (tickLoop maxCbTimes n wheel cbCnt).cut = false) :
    roundsMade maxCbTimes n wheel cbCnt = n := by
  induction n generalizing wheel cbCnt with
  | zero => rfl
  | succ n ih =>
      rw [tickLoop] at h
      rw [roundsMade]
      dsimp only at h ⊢
      split_ifs at h ⊢ with hcut
      rw [ih h]

/-- **A budget cuts the loop** exactly when more is due in its rounds. -/
lemma tickLoop_cut_iff (hspoke : wheel.spokeIndex < wheel.wheelSize)
    (hsize : wheel.wheelSize < 2 ^ 64) (n : ℕ) :
    (tickLoop maxCbTimes n wheel 0).cut = true ↔ maxCbTimes < wheel.dueBy 0 n := by
  have hlength : (rounds n wheel).2.length = wheel.dueBy 0 (0 + n) := rounds_length n hspoke hsize
  rw [Nat.zero_add] at hlength
  rw [← hlength]
  constructor
  · intro hcut
    by_contra hle
    rw [tickLoop_of_le n (by omega)] at hcut
    cases hcut
  · intro hlt
    exact (tickLoop_of_lt n (Nat.zero_le _) (by omega)).1

end Rounds

/-- The rounds that the loop of `zx_timer_check` is set to make before its index
overflows. -/
def roundsSet (wheel : TimerWheel ε) (currentTime : ℕ) : ℕ :=
  if wheel.createTime = ulongMax then 0 else min (wheel.tickCnt currentTime) (2 ^ 31)

end TimerWheel

/-- The check has a result, so its index does not overflow, and it makes a round
for every tick since the last check, or fewer when its budget cuts it. -/
def TicksExactly (timer : ZxTimer (TimerWheel ε)) (currentTime maxCbTimes : ℕ) : Prop :=
  let wheel := timer.inner
  let ticks := ((currentTime : ℤ) - wheel.createTime - wheel.lastCheckRelativeTick).toNat
  let n := wheel.roundsSet currentTime
  (timer.checkWheel currentTime maxCbTimes).isSome = true ∧
    roundsMade maxCbTimes n wheel 0 ≤ ticks ∧
    ((tickLoop maxCbTimes n wheel 0).cut = false → roundsMade maxCbTimes n wheel 0 = ticks)

/-- The wheel has not been started, or the last check was at this time, or it was
before and the ticks since fit in an `int` or the budget cuts the loop where they
still do. -/
def TicksFit (wheel : TimerWheel ε) (currentTime maxCbTimes : ℕ) : Prop :=
  wheel.createTime = ulongMax ∨
    wheel.createTime + wheel.lastCheckRelativeTick = currentTime + 2 ^ 64 ∨
    wheel.createTime + wheel.lastCheckRelativeTick ≤ currentTime ∧
      (currentTime - wheel.createTime - wheel.lastCheckRelativeTick < 2 ^ 31 ∨
        maxCbTimes < wheel.dueBy 0 (2 ^ 31))

section Checks

variable {timer : ZxTimer (TimerWheel ε)} {currentTime maxCbTimes : ℕ}

/-- A check has a result unless its index overflows. -/
lemma checkWheel_isSome_iff :
    (timer.checkWheel currentTime maxCbTimes).isSome = true ↔
      timer.inner.createTime = ulongMax ∨ timer.inner.tickCnt currentTime < 2 ^ 31 ∨
        (tickLoop maxCbTimes (2 ^ 31) timer.inner 0).cut = true := by
  rw [ZxTimer.checkWheel]
  dsimp only
  split_ifs with hcreate hover
  · exact iff_of_true rfl (Or.inl hcreate)
  · rw [min_eq_right hover.1] at hover
    refine iff_of_false (fun h => by cases h) ?_
    rintro (h | h | h)
    · exact hcreate h
    · omega
    · exact Bool.false_ne_true (hover.2.symm.trans h)
  · refine iff_of_true rfl (Or.inr ?_)
    by_cases hint : timer.inner.tickCnt currentTime < 2 ^ 31
    · exact Or.inl hint
    · rw [not_lt] at hint
      rw [not_and, min_eq_right hint, Bool.not_eq_false] at hover
      exact Or.inr (hover hint)

/-- The rounds of a check, against the ticks over the integers. -/
lemma tickCnt_cases {wheel : TimerWheel ε} (h : WheelOk wheel) (hmax : currentTime ≤ ulongMax) :
    (wheel.createTime + wheel.lastCheckRelativeTick ≤ currentTime ∧
        wheel.tickCnt currentTime =
          currentTime - wheel.createTime - wheel.lastCheckRelativeTick) ∨
      (wheel.createTime + wheel.lastCheckRelativeTick = currentTime + 2 ^ 64 ∧
        wheel.tickCnt currentTime = 0) ∨
      (currentTime < wheel.createTime + wheel.lastCheckRelativeTick ∧
        wheel.createTime + wheel.lastCheckRelativeTick ≠ currentTime + 2 ^ 64 ∧
        0 < wheel.tickCnt currentTime) := by
  have hcreate := h.create
  have hlast := h.last
  rw [ulongMax] at hmax
  rw [tickCnt, usub, usub]
  omega

/-- **Which checks are exact.** -/
lemma ticksExactly_iff (h : WheelOk timer.inner) (hmax : currentTime ≤ ulongMax) :
    TicksExactly timer currentTime maxCbTimes ↔ TicksFit timer.inner currentTime maxCbTimes := by
  set wheel := timer.inner with hwheel
  rw [TicksExactly, TicksFit, checkWheel_isSome_iff, ← hwheel, tickLoop_cut_iff _ h.spoke h.size_lt,
    roundsSet]
  obtain ⟨ticks, hticks⟩ : ∃ ticks, ticks =
      ((currentTime : ℤ) - wheel.createTime - wheel.lastCheckRelativeTick).toNat := ⟨_, rfl⟩
  rw [← hticks]
  by_cases hcreate : wheel.createTime = ulongMax
  · have hzero : ticks = 0 := by omega
    rw [if_pos hcreate, hzero]
    exact iff_of_true ⟨Or.inl hcreate, le_rfl, fun _ => rfl⟩ (Or.inl hcreate)
  rw [if_neg hcreate, or_iff_right hcreate, or_iff_right hcreate]
  rcases tickCnt_cases h hmax with ⟨hle, hcnt⟩ | ⟨hsame, hcnt⟩ | ⟨hlt, hne, hcnt⟩
  · -- the ticks are those of the integers
    have hall : ticks = wheel.tickCnt currentTime := by omega
    rw [hall, ← hcnt]
    constructor
    · exact fun hexact => Or.inr ⟨hle, hexact.1⟩
    · intro hfit
      have hfit' : wheel.tickCnt currentTime < 2 ^ 31 ∨ maxCbTimes < wheel.dueBy 0 (2 ^ 31) :=
        (hfit.resolve_left (by omega)).2
      refine ⟨hfit', (roundsMade_le _ _ _ _).trans (min_le_left _ _), fun hcut => ?_⟩
      rw [roundsMade_of_uncut _ hcut]
      rcases hfit' with hint | hdue
      · exact min_eq_left hint.le
      · by_contra hmin
        have hmin' : min (wheel.tickCnt currentTime) (2 ^ 31) = 2 ^ 31 := by omega
        rw [hmin'] at hcut
        have := (tickLoop_cut_iff maxCbTimes h.spoke h.size_lt (2 ^ 31)).mpr hdue
        rw [hcut] at this
        cases this
  · -- the last check was now
    have hzero : ticks = 0 := by omega
    rw [hcnt, hzero, Nat.zero_min]
    exact iff_of_true ⟨Or.inl (by decide), le_rfl, fun _ => rfl⟩ (Or.inl hsame)
  · -- time went back, and the loop is entered
    have hzero : ticks = 0 := by omega
    have hpos := roundsMade_pos maxCbTimes
      (lt_min hcnt (by decide) : 0 < min (wheel.tickCnt currentTime) (2 ^ 31)) wheel 0
    refine iff_of_false (fun hexact => ?_) (fun hfit => ?_)
    · have := hexact.2.1
      omega
    · omega

end Checks

/-! ### Every call -/

/-- The arguments are of type `unsigned long` and the expire does not wrap; a
reset is of a linked element. -/
def WheelOp.InScope (s : WheelRun ε) : WheelOp ε → Prop
  | .add currentTime timeout _ => currentTime + timeout ≤ ulongMax
  | .reset id currentTime timeout =>
      currentTime + timeout ≤ ulongMax ∧ (elemOf s.wheel.linked id).isSome = true
  | .del _ => True
  | .check currentTime _ => currentTime ≤ ulongMax

/-- The time arithmetic of a call is that of the integers. -/
def ArithmeticExact (s : WheelRun ε) : WheelOp ε → Prop
  | .add currentTime timeout event =>
      ∀ s', WheelOp.step s (.add currentTime timeout event) = some s' →
        ArmsExactly s'.wheel s.next currentTime timeout
  | .reset id currentTime timeout =>
      ∀ s', WheelOp.step s (.reset id currentTime timeout) = some s' →
        ArmsExactly s'.wheel id currentTime timeout
  | .del _ => True
  | .check currentTime maxCbTimes => TicksExactly s.timer currentTime maxCbTimes

/-- Quotients, cursors and ticks fit. -/
def ArithmeticFits (s : WheelRun ε) : WheelOp ε → Prop
  | .add currentTime timeout _ | .reset _ currentTime timeout =>
      timeout / s.wheel.wheelSize < 2 ^ 31 ∧ CursorFits s.wheel currentTime timeout
  | .del _ => True
  | .check currentTime maxCbTimes => TicksFit s.wheel currentTime maxCbTimes

section Calls

variable {created currentTime timeout id : ℕ} {as : List (WheelOp ε)} {s : WheelRun ε}

lemma add_exact_iff (hledger : Ledger created as s) (hok : WheelOk s.wheel) {event : ε}
    (hwrap : currentTime + timeout ≤ ulongMax) :
    ArithmeticExact s (.add currentTime timeout event) ↔
      ArithmeticFits s (.add currentTime timeout event) := by
  have hstart : WheelOk (s.wheel.startAt currentTime) := hok.startAt (by omega)
  have hpos : 0 < (s.wheel.startAt currentTime).wheelSize := hstart.spoke.trans_le' (Nat.zero_le _)
  have hother : ∀ e ∈ (s.wheel.startAt currentTime).linked, e.id ≠ s.next := by
    rw [startAt_linked]
    exact fun e he => (hledger.of_mem he).2.ne
  have harms := armsExactly_iff ⟨s.next, 0, 0, 0, event⟩ hpos hstart.create hother hwrap
  rw [ArithmeticFits, CursorFits, ← startAt_wheelSize s.wheel currentTime, ← harms]
  constructor
  · intro h
    have := h _ rfl
    rwa [WheelRun.wheel, ZxTimer.addWheel_inner] at this
  · rintro h s' hs'
    obtain rfl := Option.some.inj hs'
    rwa [WheelRun.wheel, ZxTimer.addWheel_inner]

lemma reset_exact_iff (hledger : Ledger created as s) (hok : WheelOk s.wheel)
    (hwrap : currentTime + timeout ≤ ulongMax) {e : TimerElem ε}
    (he : elemOf s.wheel.linked id = some e) :
    ArithmeticExact s (.reset id currentTime timeout) ↔
      ArithmeticFits s (.reset id currentTime timeout) := by
  obtain ⟨hmem, rfl⟩ := elemOf_spec he
  set wheel := (s.wheel.removeElem e).startAt currentTime with hwheel
  have hstart : WheelOk wheel := hok.removeElem.startAt (by omega)
  have hpos : 0 < wheel.wheelSize := hstart.spoke.trans_le' (Nat.zero_le _)
  have hother : ∀ f ∈ wheel.linked, f.id ≠ e.id := by
    rw [hwheel, startAt_linked]
    exact hledger.ne_of_perm (removeElem_perm hledger.seated hledger.nodup hmem)
  have harms := armsExactly_iff e hpos hstart.create hother hwrap
  have hsize : wheel.wheelSize = s.wheel.wheelSize := startAt_wheelSize _ _
  have htime : wheel.createTime = (s.wheel.startAt currentTime).createTime := by
    have hlast : (s.wheel.removeElem e).lastCheckRelativeTick = s.wheel.lastCheckRelativeTick := rfl
    rw [hwheel, startAt, startAt, hlast]
    split_ifs
    · rfl
    · rfl
  have hstep : WheelOp.step s (.reset e.id currentTime timeout) = some
      ⟨{ s.timer with inner := wheel.insertElem e currentTime timeout }, s.next, currentTime,
        s.history.arm e.id (uadd 64 currentTime timeout)⟩ := by
    have he' : elemOf s.timer.inner.linked e.id = some e := he
    rw [WheelOp.step, ZxTimer.resetWheel, he']
    rfl
  rw [ArithmeticFits, CursorFits, ← hsize, ← htime, ← harms]
  constructor
  · exact fun h => h _ hstep
  · rintro h s' hs'
    obtain rfl := Option.some.inj (hstep.symm.trans hs')
    exact h

end Calls

/-- **The arithmetic wraps**: on the wheel that `main.c` tests, for a timeout of
2^31 turns, and where a clock is set back after the first add, for the cursor of
the next add and for the rounds of a check. -/
theorem wheel_arithmetic_wraps :
    ∃ s s' : WheelRun Unit,
      Run WheelOp.step (fun _ a => a.InRange) (WheelRun.start wheelOfSix) [] s ∧
      ¬ ArithmeticExact s (.add 0 (6 * 2 ^ 31) ()) ∧
      Run WheelOp.step (fun _ a => a.InRange) (WheelRun.start wheelOfSix) [.add 1000 0 ()] s' ∧
      ¬ ArithmeticExact s' (.add 5 0 ()) ∧ ¬ ArithmeticExact s' (.check 5 0) := by
  have hnil : Run WheelOp.step (fun _ a => a.InRange) (WheelRun.start (wheelOfSix (ε := Unit))) []
      (WheelRun.start wheelOfSix) := Run.nil
  have hrun : (exec (fun s a => if a.InRange then WheelOp.step s a else none)
      (WheelRun.start wheelOfSix) ([.add 1000 0 ()] : List (WheelOp Unit))).map
      (fun s => (s.wheel.wheelSize, s.wheel.createTime, s.wheel.lastCheckRelativeTick)) =
      some (6, 1000, 0) := by
    decide +kernel
  obtain ⟨s', hs', heq⟩ := Option.map_eq_some_iff.mp hrun
  simp only [Prod.mk.injEq] at heq
  obtain ⟨hsize, hcreate, hlast⟩ := heq
  have hrun' := run_of_exec_guarded hs'
  have hstarted : (s'.wheel.startAt 5).createTime = 1000 := by
    rw [startAt, hlast, if_neg (by decide), hcreate]
  refine ⟨_, s', hnil, ?_, hrun', ?_, ?_⟩
  · rw [add_exact_iff (ledger_of_run createWheel_six hnil) (wheelOk_of_run createWheel_six hnil)
      (by decide)]
    exact fun hfits => absurd hfits.1 (by decide)
  · rw [add_exact_iff (ledger_of_run createWheel_six hrun')
      (wheelOk_of_run createWheel_six hrun') (by decide), ArithmeticFits, CursorFits, hstarted,
      hsize]
    decide
  · refine fun hexact => absurd ((ticksExactly_iff (wheelOk_of_run createWheel_six hrun')
      (by decide)).mp hexact) ?_
    have hcreate' : s'.timer.inner.createTime = 1000 := hcreate
    have hlast' : s'.timer.inner.lastCheckRelativeTick = 0 := hlast
    rw [TicksFit, hcreate', hlast', ulongMax]
    omega

/-- **Which calls are exact**: in every reachable state, an add or a reset exactly
when its quotient fits in an `int` and its cursor fits, and a check exactly when
its ticks fit. -/
theorem wheel_arithmetic_iff {wheelSize : ℕ} {timer : ZxTimer (TimerWheel ε)}
    (hcreate : ZxTimer.createWheel wheelSize = some timer) {as : List (WheelOp ε)} {s : WheelRun ε}
    (hrun : Run WheelOp.step (fun _ a => a.InRange) (WheelRun.start timer) as s) {a : WheelOp ε}
    (ha : a.InScope s) : ArithmeticExact s a ↔ ArithmeticFits s a := by
  have hledger := ledger_of_run hcreate hrun
  have hok := wheelOk_of_run hcreate hrun
  cases a with
  | add currentTime timeout event => exact add_exact_iff hledger hok ha
  | del id => exact Iff.rfl
  | reset id currentTime timeout =>
      obtain ⟨e, he⟩ := Option.isSome_iff_exists.mp ha.2
      exact reset_exact_iff hledger hok ha.1 he
  | check currentTime maxCbTimes => exact ticksExactly_iff hok ha

/-- A check five ticks after the first add. -/
theorem wheel_of_six_arithmetic :
    ∃ s : WheelRun Unit,
      Run WheelOp.step (fun _ a => a.InRange) (WheelRun.start wheelOfSix) [.add 1000 70 ()] s ∧
      ArithmeticExact s (.check 1005 3) := by
  have hrun : (exec (fun s a => if a.InRange then WheelOp.step s a else none)
      (WheelRun.start wheelOfSix) ([.add 1000 70 ()] : List (WheelOp Unit))).map
      (fun s => (s.wheel.createTime, s.wheel.lastCheckRelativeTick)) = some (1000, 0) := by
    decide +kernel
  obtain ⟨s, hs, heq⟩ := Option.map_eq_some_iff.mp hrun
  rw [Prod.mk.injEq] at heq
  obtain ⟨hcreate, hlast⟩ := heq
  have hno : (WheelOp.check 1005 3).InScope s := by
    change 1005 ≤ ulongMax
    decide
  refine ⟨s, run_of_exec_guarded hs,
    (wheel_arithmetic_iff createWheel_six (run_of_exec_guarded hs) hno).mpr ?_⟩
  rw [ArithmeticFits, TicksFit, hcreate, hlast]
  exact Or.inr (Or.inr ⟨by decide, Or.inl (by decide)⟩)

end CLibrary
