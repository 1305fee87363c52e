import Mathlib

/-!
Checksums of a shift register, the low bit of the register going first.

* `shift`, `run`: one bit, and a list of bits.
* `shift_xor`, `run_xor`: both are linear over exclusive or.
* `run_low`: `k` bits fed one by one are the `k` low bits of their exclusive or
  with the register, fed to an empty register, and the rest of the register
  moved down by `k` places.  This is the step of a table-driven checksum.
* `run_eq_modByMonic`: what the register holds is the remainder of a division of
  polynomials with coefficients 0 and 1.
-/

namespace CLibrary

namespace ShiftRegister

variable {w : ℕ} (poly : BitVec w)

/-! ### The register -/

/-- One bit: what leaves the register, with the bit, says whether the polynomial
is subtracted. -/
def shift (r : BitVec w) (b : Bool) : BitVec w :=
  if r.getLsbD 0 ^^ b then (r >>> 1) ^^^ poly else r >>> 1

/-- The bits of a list. -/
def run (r : BitVec w) (bits : List Bool) : BitVec w := bits.foldl (shift poly) r

/-- The `k` low bits, the lowest first. -/
def lowBits (k : ℕ) (x : BitVec w) : List Bool := (List.range k).map x.getLsbD

lemma run_cons (r : BitVec w) (b : Bool) (bits : List Bool) :
    run poly r (b :: bits) = run poly (shift poly r b) bits := rfl

lemma run_append (r : BitVec w) (bits bits' : List Bool) :
    run poly r (bits ++ bits') = run poly (run poly r bits) bits' := List.foldl_append

lemma lowBits_succ (k : ℕ) (x : BitVec w) :
    lowBits (k + 1) x = lowBits k x ++ [x.getLsbD k] := by
  rw [lowBits, List.range_succ, List.map_append]
  rfl

/-! ### Linearity -/

/-- One bit of an exclusive or. -/
lemma shift_xor (r s : BitVec w) (b c : Bool) :
    shift poly (r ^^^ s) (b ^^ c) = shift poly r b ^^^ shift poly s c := by
  have hout : ((r ^^^ s).getLsbD 0 ^^ (b ^^ c)) = ((r.getLsbD 0 ^^ b) ^^ (s.getLsbD 0 ^^ c)) := by
    rw [BitVec.getLsbD_xor, Bool.xor_assoc, Bool.xor_assoc, Bool.xor_left_comm b]
  rw [shift, shift, shift, hout, BitVec.ushiftRight_xor_distrib]
  cases r.getLsbD 0 ^^ b <;> cases s.getLsbD 0 ^^ c
  · rfl
  · exact BitVec.xor_assoc _ _ _
  · exact (BitVec.xor_assoc _ _ _).trans
      ((congrArg _ (BitVec.xor_comm _ _)).trans (BitVec.xor_assoc _ _ _).symm)
  · -- the two subtractions cancel
    have hcancel : ∀ x y z : BitVec w, (x ^^^ z) ^^^ (y ^^^ z) = x ^^^ y := by
      intro x y z
      rw [BitVec.xor_comm y z, BitVec.xor_assoc, ← BitVec.xor_assoc z, BitVec.xor_self,
        BitVec.zero_xor]
    exact (hcancel _ _ _).symm

/-- **Linearity**: the register after the exclusive or of two lists of bits. -/
theorem run_xor {bits bits' : List Bool} (hlen : bits.length = bits'.length) (r s : BitVec w) :
    run poly (r ^^^ s) (List.zipWith (· ^^ ·) bits bits') =
      run poly r bits ^^^ run poly s bits' := by
  induction bits generalizing bits' r s with
  | nil =>
      obtain rfl := List.length_eq_zero_iff.mp hlen.symm
      rfl
  | cons b bits ih =>
      cases bits' with
      | nil => cases hlen
      | cons b' bits' =>
          rw [List.zipWith_cons_cons, run_cons, run_cons, run_cons, shift_xor]
          exact ih (Nat.succ.inj hlen) _ _

/-! ### Several bits at once -/

/-- `k` rounds without input on the exclusive or of a register and `x` feed the
register the low bits of `x`. -/
lemma run_zeros (r x : BitVec w) (k : ℕ) :
    run poly (r ^^^ x) (List.replicate k false) = run poly r (lowBits k x) ^^^ (x >>> k) := by
  induction k with
  | zero => exact (congrArg (r ^^^ ·) (BitVec.ushiftRight_zero x)).symm
  | succ k ih =>
      have hbit : (x >>> k).getLsbD 0 = x.getLsbD k := by rw [BitVec.getLsbD_ushiftRight]; rfl
      -- with no polynomial below its low bit, `x` only moves down
      have hmove : ∀ s y : BitVec w,
          shift poly (s ^^^ y) false = shift poly s (y.getLsbD 0) ^^^ (y >>> 1) := by
        intro s y
        rw [shift, shift, BitVec.getLsbD_xor, Bool.xor_false, BitVec.ushiftRight_xor_distrib]
        split_ifs
        · rw [BitVec.xor_assoc, BitVec.xor_comm (y >>> 1), ← BitVec.xor_assoc]
        · rfl
      rw [List.replicate_succ', run_append, ih, lowBits_succ, run_append, ← hbit]
      exact (hmove _ _).trans (congrArg _ (BitVec.shiftRight_add x k 1).symm)

/-- **A table step**: feeding the `k` bits of `x`. -/
theorem run_low (r : BitVec w) {x : BitVec w} {k : ℕ} (hx : x >>> k = 0#w) :
    run poly r (lowBits k x) = run poly 0#w (lowBits k (r ^^^ x)) ^^^ (r >>> k) := by
  calc run poly r (lowBits k x)
      = run poly (r ^^^ x) (List.replicate k false) := by
        rw [run_zeros, hx, BitVec.xor_zero]
    _ = run poly (0#w ^^^ (r ^^^ x)) (List.replicate k false) := by rw [BitVec.zero_xor]
    _ = run poly 0#w (lowBits k (r ^^^ x)) ^^^ ((r ^^^ x) >>> k) := run_zeros poly _ _ k
    _ = run poly 0#w (lowBits k (r ^^^ x)) ^^^ (r >>> k) := by
        rw [BitVec.ushiftRight_xor_distrib, hx, BitVec.xor_zero]

/-! ### The remainder of a division -/

section Remainder

open Polynomial

/-- A bit as a coefficient. -/
def bit (b : Bool) : ZMod 2 := if b then 1 else 0

/-- The polynomial of a register: its low bit is the coefficient of the highest
power. -/
noncomputable def toPoly (r : BitVec w) : (ZMod 2)[X] :=
  ∑ i ∈ Finset.range w, C (bit (r.getLsbD i)) * X ^ (w - 1 - i)

/-- The polynomial of a list of bits, the first being the coefficient of the
highest power. -/
noncomputable def message (bits : List Bool) : (ZMod 2)[X] :=
  bits.foldl (fun p b => X * p + C (bit b)) 0

/-- What is divided by: the power that leaves the register, and `poly`. -/
noncomputable def divisor : (ZMod 2)[X] := X ^ w + toPoly poly

lemma bit_xor (a b : Bool) : bit (a ^^ b) = bit a + bit b := by
  cases a <;> cases b <;> decide

lemma toPoly_xor (r s : BitVec w) : toPoly (r ^^^ s) = toPoly r + toPoly s := by
  rw [toPoly, toPoly, toPoly, ← Finset.sum_add_distrib]
  refine Finset.sum_congr rfl fun i _ => ?_
  rw [BitVec.getLsbD_xor, bit_xor, C_add, add_mul]

lemma toPoly_zero : toPoly 0#w = 0 := by
  refine Finset.sum_eq_zero fun i _ => ?_
  rw [BitVec.getLsbD_zero, bit, if_neg Bool.false_ne_true, C_0, zero_mul]

/-- Moving down multiplies by `X`, the low bit leaving. -/
lemma X_mul_toPoly (r : BitVec w) :
    X * toPoly r = toPoly (r >>> 1) + C (bit (r.getLsbD 0)) * X ^ w := by
  calc X * toPoly r
      = ∑ i ∈ Finset.range w, C (bit (r.getLsbD i)) * X ^ (w - i) := by
        rw [toPoly, Finset.mul_sum]
        refine Finset.sum_congr rfl fun i hi => ?_
        have hw : w - i = w - 1 - i + 1 := by
          have := Finset.mem_range.mp hi
          omega
        rw [hw, pow_succ]
        ring
    _ = ∑ i ∈ Finset.range (w + 1), C (bit (r.getLsbD i)) * X ^ (w - i) := by
        rw [Finset.sum_range_succ, BitVec.getLsbD_of_ge r w le_rfl, bit,
          if_neg Bool.false_ne_true, C_0, zero_mul, add_zero]
    _ = toPoly (r >>> 1) + C (bit (r.getLsbD 0)) * X ^ w := by
        rw [Finset.sum_range_succ', toPoly]
        congr 1
        refine Finset.sum_congr rfl fun i _ => ?_
        rw [BitVec.getLsbD_ushiftRight, Nat.add_comm 1 i, Nat.sub_sub, Nat.add_comm 1 i]

/-- One bit, up to a multiple of the divisor. -/
lemma toPoly_shift (r : BitVec w) (b : Bool) :
    toPoly (shift poly r b) =
      X * toPoly r + C (bit b) * X ^ w + C (bit (r.getLsbD 0 ^^ b)) * divisor poly := by
  have hdown : toPoly (r >>> 1) = X * toPoly r + C (bit (r.getLsbD 0)) * X ^ w := by
    rw [X_mul_toPoly, add_assoc, CharTwo.add_self_eq_zero, add_zero]
  have hshift : toPoly (shift poly r b) =
      toPoly (r >>> 1) + C (bit (r.getLsbD 0 ^^ b)) * toPoly poly := by
    rw [shift]
    split_ifs with h
    · rw [toPoly_xor, h, bit, if_pos rfl, C_1, one_mul]
    · rw [Bool.not_eq_true] at h
      rw [h, bit, if_neg Bool.false_ne_true, C_0, zero_mul, add_zero]
  have htwice : C (bit b) * X ^ w + C (bit b) * X ^ w = 0 := CharTwo.add_self_eq_zero _
  rw [hshift, hdown, divisor, bit_xor, C_add]
  linear_combination -htwice

/-- A list of bits, up to a multiple of the divisor. -/
lemma toPoly_run (bits : List Bool) :
    ∃ q, toPoly (run poly 0#w bits) + divisor poly * q = X ^ w * message bits := by
  induction bits using List.reverseRecOn with
  | nil =>
      refine ⟨0, ?_⟩
      rw [message, List.foldl_nil, mul_zero, mul_zero, add_zero]
      exact toPoly_zero
  | append_singleton bits b ih =>
      obtain ⟨q, hq⟩ := ih
      refine ⟨X * q - C (bit ((run poly 0#w bits).getLsbD 0 ^^ b)), ?_⟩
      have hmsg : message (bits ++ [b]) = X * message bits + C (bit b) := by
        rw [message, List.foldl_append]
        rfl
      have hrun : run poly 0#w (bits ++ [b]) = shift poly (run poly 0#w bits) b := by
        rw [run_append]
        rfl
      rw [hmsg, hrun, toPoly_shift]
      linear_combination X * hq

lemma degree_toPoly_lt (r : BitVec w) : (toPoly r).degree < w := by
  refine lt_of_le_of_lt (degree_sum_le _ _) ((Finset.sup_lt_iff (WithBot.bot_lt_coe w)).mpr ?_)
  intro i hi
  refine lt_of_le_of_lt (degree_C_mul_X_pow_le _ _) (Nat.cast_lt.mpr ?_)
  have := Finset.mem_range.mp hi
  omega

lemma divisor_monic : (divisor poly).Monic := monic_X_pow_add (degree_toPoly_lt poly)

/-- **The register holds the remainder** of the message, followed by `w` zeros,
on division by the divisor. -/
theorem run_eq_modByMonic (bits : List Bool) :
    toPoly (run poly 0#w bits) = (X ^ w * message bits) %ₘ divisor poly := by
  obtain ⟨q, hq⟩ := toPoly_run poly bits
  have hdeg : (toPoly (run poly 0#w bits)).degree < (divisor poly).degree := by
    have hlead : (toPoly poly).degree < (X ^ w : (ZMod 2)[X]).degree := by
      rw [degree_X_pow]
      exact degree_toPoly_lt poly
    rw [divisor, degree_add_eq_left_of_degree_lt hlead, degree_X_pow]
    exact degree_toPoly_lt _
  exact ((div_modByMonic_unique q _ (divisor_monic poly) ⟨hq, hdeg⟩).2).symm

end Remainder

end ShiftRegister

end CLibrary
