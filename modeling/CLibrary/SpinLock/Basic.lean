import Mathlib.Data.Rat.Floor
import Mathlib.Algebra.Order.Round
import Mathlib.Algebra.Order.Field.Basic
import Mathlib.Tactic.Linarith

/-!
Waiting for a spin lock.

* `fitsInt`: an `int`, where a result that does not fit is undefined.
* `Rounding`: what the `double` arithmetic of a delay may do.  `Rounding.jitter_mem`:
  a delay grows by at most itself.
* `SpinDelayStatus`, `performSpinDelay`, `finishSpinDelay`, `updateSpinsPerDelay`.
* `InRange`: the range of the estimates, which `finishSpinDelay` and
  `updateSpinsPerDelay` keep.
-/

namespace CLibrary

/-! ### Arithmetic -/

/-- An `int`. -/
def fitsInt (x : ℤ) : Option ℤ := if -2 ^ 31 ≤ x ∧ x < 2 ^ 31 then some x else none

lemma fitsInt_of_mem {x : ℤ} (h : -2 ^ 31 ≤ x) (h' : x < 2 ^ 31) : fitsInt x = some x :=
  if_pos ⟨h, h'⟩

lemma fitsInt_of_le {x : ℤ} (h : 2 ^ 31 ≤ x) : fitsInt x = none := if_neg fun h' => by omega

/-- Rounding to a `double`: it keeps the order, and whole and half numbers of 53 bits. -/
structure Rounding where
  round : ℚ → ℚ
  mono : Monotone round
  half : ∀ k : ℤ, |k| ≤ 2 ^ 53 → round (k / 2) = k / 2

/-- Nothing is lost. -/
def Rounding.exact : Rounding := ⟨id, monotone_id, fun _ _ => rfl⟩

/-- `MAX_RANDOM_VALUE`. -/
def maxRandomValue : ℕ := 0x7FFFFFFF

/-- `(int) x`. -/
def truncate (x : ℚ) : ℤ := if 0 ≤ x then ⌊x⌋ else ⌈x⌉

/-- `(int) (cur_delay * ((double) random() / (double) MAX_RANDOM_VALUE) + 0.5)`. -/
def Rounding.jitter (R : Rounding) (curDelay : ℤ) (random : ℕ) : ℤ :=
  truncate (R.round (R.round (curDelay * R.round (random / maxRandomValue)) + 1 / 2))

lemma Rounding.whole (R : Rounding) {k : ℤ} (h : |k| ≤ 2 ^ 52) : R.round k = k := by
  have h2 : |2 * k| ≤ 2 ^ 53 := by
    rw [abs_mul, abs_two]
    omega
  have hk : ((2 * k : ℤ) : ℚ) / 2 = k := by
    push_cast
    exact mul_div_cancel_left₀ _ two_ne_zero
  rw [← hk, R.half _ h2]

/-- A delay is increased by a fraction between nothing and itself. -/
lemma Rounding.jitter_mem (R : Rounding) {curDelay : ℤ} {random : ℕ} (h0 : 0 ≤ curDelay)
    (hcur : curDelay ≤ 2 ^ 31) (hrandom : random ≤ maxRandomValue) :
    0 ≤ R.jitter curDelay random ∧ R.jitter curDelay random ≤ curDelay := by
  have hM : (0 : ℚ) < maxRandomValue := by norm_num [maxRandomValue]
  have hfrac : 0 ≤ R.round (random / maxRandomValue) ∧ R.round (random / maxRandomValue) ≤ 1 := by
    have hzero : R.round 0 = 0 := by simpa using R.whole (k := 0) (by norm_num)
    have hone : R.round 1 = 1 := by simpa using R.whole (k := 1) (by norm_num)
    constructor
    · rw [← hzero]
      exact R.mono (div_nonneg (Nat.cast_nonneg _) hM.le)
    · rw [← hone]
      exact R.mono ((div_le_one hM).mpr (by exact_mod_cast hrandom))
  have hcurQ : (0 : ℚ) ≤ curDelay := by exact_mod_cast h0
  have hprod : 0 ≤ R.round (curDelay * R.round (random / maxRandomValue)) ∧
      R.round (curDelay * R.round (random / maxRandomValue)) ≤ curDelay := by
    have hzero : R.round 0 = 0 := by simpa using R.whole (k := 0) (by norm_num)
    have hself : R.round curDelay = curDelay := R.whole (by rw [abs_of_nonneg h0]; omega)
    constructor
    · rw [← hzero]
      exact R.mono (mul_nonneg hcurQ hfrac.1)
    · calc R.round (curDelay * R.round (random / maxRandomValue))
          ≤ R.round curDelay := R.mono (mul_le_of_le_one_right hcurQ hfrac.2)
        _ = curDelay := hself
  have hsum : 0 ≤ R.round (R.round (curDelay * R.round (random / maxRandomValue)) + 1 / 2) ∧
      R.round (R.round (curDelay * R.round (random / maxRandomValue)) + 1 / 2) ≤
        curDelay + 1 / 2 := by
    have hhalf : ((2 * curDelay + 1 : ℤ) : ℚ) / 2 = curDelay + 1 / 2 := by
      push_cast
      ring
    have hzero : R.round 0 = 0 := by simpa using R.whole (k := 0) (by norm_num)
    constructor
    · rw [← hzero]
      exact R.mono (by linarith [hprod.1])
    · calc R.round (R.round (curDelay * R.round (random / maxRandomValue)) + 1 / 2)
          ≤ R.round (curDelay + 1 / 2) := R.mono (by linarith [hprod.2])
        _ = curDelay + 1 / 2 := by
          rw [← hhalf, R.half _ (by rw [abs_of_nonneg (by omega)]; omega)]
  rw [Rounding.jitter, truncate, if_pos hsum.1]
  refine ⟨Int.floor_nonneg.mpr hsum.1, ?_⟩
  rw [← Int.lt_add_one_iff, Int.floor_lt]
  push_cast
  linarith [hsum.2]

/-! ### The functions of lock.c -/

/-- `MIN_SPINS_PER_DELAY`. -/
def minSpinsPerDelay : ℤ := 10

/-- `MAX_SPINS_PER_DELAY`. -/
def maxSpinsPerDelay : ℤ := 1000

/-- `DEFAULT_SPINS_PER_DELAY`. -/
def defaultSpinsPerDelay : ℤ := 100

/-- `NUM_DELAYS`. -/
def numDelays : ℤ := 1000

/-- `MIN_DELAY_USEC`. -/
def minDelayUsec : ℤ := 1000

/-- `MAX_DELAY_USEC`. -/
def maxDelayUsec : ℤ := 1000000

/-- `SpinDelayStatus`; `func` may be null. -/
structure SpinDelayStatus where
  spins : ℤ
  delays : ℤ
  curDelay : ℤ
  file : String
  line : ℤ
  func : Option String
  deriving DecidableEq

/-- `init_spin_delay`. -/
def initSpinDelay (file : String) (line : ℤ) (func : Option String) : SpinDelayStatus :=
  ⟨0, 0, 0, file, line, func⟩

/-- `s_lock_stuck`, which prints. -/
def sLockStuck (file : String) (line : ℤ) (func : Option String) : String :=
  "stuck spinlock detected at " ++ func.getD "(unknown)" ++ ", " ++ file ++ ":" ++ toString line

/-- `struct timeval`. -/
structure Timeval where
  tvSec : ℤ
  tvUsec : ℤ
  deriving DecidableEq

/-- `pg_usleep`: the timeout of its `select`, if there is one. -/
def pgUsleep (microsec : ℤ) : Option Timeval :=
  if microsec > 0 then some ⟨microsec.tdiv 1000000, microsec.tmod 1000000⟩ else none

/-- What a try that fails has printed and slept, and what it leaves. -/
structure Spun where
  status : SpinDelayStatus
  printed : Option String
  slept : Option Timeval
  deriving DecidableEq

/-- `perform_spin_delay`; `random` is what `random()` returns. -/
def performSpinDelay (R : Rounding) (spinsPerDelay : ℤ) (status : SpinDelayStatus) (random : ℕ) :
    Option Spun := do
  let spins ← fitsInt (status.spins + 1)
  if spins ≥ spinsPerDelay then
    let delays ← fitsInt (status.delays + 1)
    let printed := if delays > numDelays then
      some (sLockStuck status.file status.line status.func) else none
    let curDelay := if status.curDelay = 0 then minDelayUsec else status.curDelay
    let next ← fitsInt (curDelay + R.jitter curDelay random)
    some ⟨{ status with
        spins := 0
        delays := delays
        curDelay := if next > maxDelayUsec then minDelayUsec else next }, printed,
      pgUsleep curDelay⟩
  else
    some ⟨{ status with spins := spins }, none, none⟩

/-- `finish_spin_delay`. -/
def finishSpinDelay (spinsPerDelay : ℤ) (status : SpinDelayStatus) : ℤ :=
  if status.curDelay = 0 then
    if spinsPerDelay < maxSpinsPerDelay then min (spinsPerDelay + 100) maxSpinsPerDelay
    else spinsPerDelay
  else if spinsPerDelay > minSpinsPerDelay then max (spinsPerDelay - 1) minSpinsPerDelay
  else spinsPerDelay

/-- `update_spins_per_delay`. -/
def updateSpinsPerDelay (spinsPerDelay sharedSpinsPerDelay : ℤ) : Option ℤ := do
  let product ← fitsInt (sharedSpinsPerDelay * 15)
  let sum ← fitsInt (product + spinsPerDelay)
  some (sum.tdiv 16)

/-- The range of the estimates. -/
def InRange (spinsPerDelay : ℤ) : Prop :=
  minSpinsPerDelay ≤ spinsPerDelay ∧ spinsPerDelay ≤ maxSpinsPerDelay

lemma inRange_default : InRange defaultSpinsPerDelay := by
  constructor <;> simp [defaultSpinsPerDelay, minSpinsPerDelay, maxSpinsPerDelay]

/-- An estimate in range stays in range. -/
lemma InRange.finish {spinsPerDelay : ℤ} (h : InRange spinsPerDelay) (status : SpinDelayStatus) :
    InRange (finishSpinDelay spinsPerDelay status) := by
  simp only [InRange, finishSpinDelay, minSpinsPerDelay, maxSpinsPerDelay] at h ⊢
  split_ifs <;> omega

/-- If both estimates are in range so is the new one, and it lies between the two. -/
lemma InRange.update {spinsPerDelay shared : ℤ} (h : InRange spinsPerDelay)
    (hshared : InRange shared) :
    ∃ next, updateSpinsPerDelay spinsPerDelay shared = some next ∧ InRange next ∧
      min spinsPerDelay shared ≤ next ∧ next ≤ max spinsPerDelay shared := by
  simp only [InRange, minSpinsPerDelay, maxSpinsPerDelay] at h hshared ⊢
  have hproduct : fitsInt (shared * 15) = some (shared * 15) :=
    fitsInt_of_mem (by omega) (by omega)
  have hsum : fitsInt (shared * 15 + spinsPerDelay) = some (shared * 15 + spinsPerDelay) :=
    fitsInt_of_mem (by omega) (by omega)
  refine ⟨(shared * 15 + spinsPerDelay).tdiv 16, ?_, ?_⟩
  · simp [updateSpinsPerDelay, hproduct, hsum]
  · rw [Int.tdiv_eq_ediv_of_nonneg (by omega)]
    omega

end CLibrary
