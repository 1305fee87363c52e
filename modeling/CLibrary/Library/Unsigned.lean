import Mathlib.Tactic

/-!
Unsigned machine arithmetic on natural numbers.

A value of a `w`-bit unsigned type is a natural number below `2 ^ w`; addition
and subtraction wrap.  The lemmas say when they do not, and what a wrapped
subtraction gives.
-/

namespace CLibrary

/-- `a + b` in a `w`-bit unsigned type. -/
def uadd (w a b : ℕ) : ℕ := (a + b) % 2 ^ w

/-- `a - b` in a `w`-bit unsigned type. -/
def usub (w a b : ℕ) : ℕ := (a + (2 ^ w - b)) % 2 ^ w

variable {w a b c : ℕ}

lemma usub_lt : usub w a b < 2 ^ w := Nat.mod_lt _ (by positivity)

lemma uadd_of_lt (h : a + b < 2 ^ w) : uadd w a b = a + b := Nat.mod_eq_of_lt h

lemma usub_of_le (h : b ≤ a) (ha : a < 2 ^ w) : usub w a b = a - b := by
  calc usub w a b = (a - b + 2 ^ w) % 2 ^ w := by rw [usub]; congr 1; omega
    _ = (a - b) % 2 ^ w := Nat.add_mod_right _ _
    _ = a - b := Nat.mod_eq_of_lt (by omega)

/-- A difference below zero comes out a full turn too high. -/
lemma usub_of_gt (h : a < b) (hb : b ≤ 2 ^ w) : usub w a b = a + 2 ^ w - b := by
  rw [usub, Nat.mod_eq_of_lt (by omega)]
  omega

lemma usub_zero (ha : a < 2 ^ w) : usub w a 0 = a := by
  rw [usub_of_le (Nat.zero_le a) ha, Nat.sub_zero]

/-- A sum that wraps is put right by the subtraction after it. -/
lemma usub_uadd (hc : c ≤ 2 ^ w) (h : c ≤ a + b) (h' : a + b - c < 2 ^ w) :
    usub w (uadd w a b) c = a + b - c := by
  calc usub w (uadd w a b) c = (a + b + (2 ^ w - c)) % 2 ^ w := Nat.mod_add_mod _ _ _
    _ = (a + b - c + 2 ^ w) % 2 ^ w := by congr 1; omega
    _ = (a + b - c) % 2 ^ w := Nat.add_mod_right _ _
    _ = a + b - c := Nat.mod_eq_of_lt h'

/-- What was added is taken off again, in the type. -/
lemma usub_uadd_self (h : b ≤ 2 ^ w) : usub w (uadd w a b) b = a % 2 ^ w := by
  calc usub w (uadd w a b) b = (a + b + (2 ^ w - b)) % 2 ^ w := Nat.mod_add_mod _ _ _
    _ = (a + 2 ^ w) % 2 ^ w := by congr 1; omega
    _ = a % 2 ^ w := Nat.add_mod_right _ _

end CLibrary
