import CLibrary.HashMap.Basic
import CLibrary.Library.ShiftRegister

/-!
The checksum of a key.

* `crcPolynomial`, `crcBitwise`: the checksum computed bit by bit.
* `crc32Tab_eq`: an entry of `crc32_tab` is what eight bits make of an empty
  register.
* `crc32Step_eq`: a round of `crc32` feeds the register a byte, and the upper
  half of `crc32val` stays zero.
* `crc32_eq_bitwise`: `crc32` is the checksum computed bit by bit, and is linear.
* `crcBitwise_remainder`: the checksum as the remainder of a division of
  polynomials.
-/

namespace CLibrary

open ShiftRegister

/-! ### Bit by bit -/

/-- The polynomial of CRC-32, its coefficients in reflected order. -/
def crcPolynomial : BitVec 32 := 0xEDB88320#32

/-- The bits of a byte, the lowest first. -/
def byteBits (b : UInt8) : List Bool := lowBits 8 b.toBitVec

/-- The CRC-32 of a byte string, bit by bit from an empty register. -/
def crcBitwise (s : List UInt8) : BitVec 32 := run crcPolynomial 0#32 (s.flatMap byteBits)

/-- The register as the `unsigned long` of `crc32`. -/
def crcVal (r : BitVec 32) : UInt64 := UInt64.ofBitVec (r.setWidth 64)

lemma crcVal_xor (r s : BitVec 32) : crcVal (r ^^^ s) = crcVal r ^^^ crcVal s := by
  rw [crcVal, crcVal, crcVal, BitVec.setWidth_xor, UInt64.ofBitVec_xor]

lemma crcVal_toNat (r : BitVec 32) : (crcVal r).toNat = r.toNat := by
  rw [crcVal, UInt64.toNat_ofBitVec, BitVec.toNat_setWidth]
  exact Nat.mod_eq_of_lt (by omega)

lemma crcVal_shiftRight (r : BitVec 32) : crcVal (r >>> 8) = crcVal r >>> 8 := by
  refine UInt64.toNat_inj.mp ?_
  rw [UInt64.toNat_shiftRight, crcVal_toNat, crcVal_toNat, BitVec.toNat_ushiftRight]
  rfl

/-- The upper half is zero. -/
lemma crcVal_high (r : BitVec 32) : crcVal r >>> 32 = 0 := by
  refine UInt64.toNat_inj.mp ?_
  rw [UInt64.toNat_shiftRight, crcVal_toNat]
  change r.toNat >>> 32 = 0
  rw [Nat.shiftRight_eq_div_pow]
  exact Nat.div_eq_of_lt r.isLt

lemma crc32Tab_eq : ∀ i < 256, crc32Tab[i]! =
    crcVal (run crcPolynomial 0#32 (lowBits 8 (BitVec.ofNat 32 i))) := by
  decide +kernel

/-- Of the low bits of a value only the value modulo their number counts. -/
lemma lowBits_ofNat_mod (x : BitVec 32) :
    lowBits 8 (BitVec.ofNat 32 (x.toNat % 256)) = lowBits 8 x := by
  refine List.map_congr_left fun i hi => ?_
  have hi' := List.mem_range.mp hi
  rw [BitVec.getLsbD_ofNat, show (256 : ℕ) = 2 ^ 8 from rfl, Nat.testBit_mod_two_pow]
  simp [show i < 32 by omega, hi', BitVec.getLsbD]

/-- The entry that a round of `crc32` looks up. -/
lemma crcIndex_eq (r : BitVec 32) (b : UInt8) :
    ((crcVal r ^^^ b.toUInt64) &&& 0xff).toNat = (r ^^^ b.toBitVec.setWidth 32).toNat % 256 := by
  have hb : (b.toBitVec.setWidth 32).toNat = b.toNat := by
    rw [BitVec.toNat_setWidth]
    exact Nat.mod_eq_of_lt (lt_trans b.toBitVec.isLt (by decide))
  rw [UInt64.toNat_and, UInt64.toNat_xor, crcVal_toNat, UInt8.toNat_toUInt64, BitVec.toNat_xor, hb]
  exact Nat.and_two_pow_sub_one_eq_mod _ 8

/-- **A round of `crc32`** feeds the register a byte. -/
lemma crc32Step_eq (r : BitVec 32) (b : UInt8) :
    crc32Step (crcVal r) b = crcVal (run crcPolynomial r (byteBits b)) := by
  have hbits : byteBits b = lowBits 8 (b.toBitVec.setWidth 32) := by
    refine List.map_congr_left fun i hi => ?_
    have hi' := List.mem_range.mp hi
    rw [BitVec.getLsbD_setWidth, decide_eq_true (by omega), Bool.true_and]
  have hsmall : (b.toBitVec.setWidth 32) >>> 8 = 0#32 := by
    refine BitVec.eq_of_toNat_eq ?_
    have hlt := b.toBitVec.isLt
    rw [BitVec.toNat_ushiftRight, BitVec.toNat_setWidth, Nat.shiftRight_eq_div_pow]
    exact Nat.div_eq_of_lt (lt_of_le_of_lt (Nat.mod_le _ _) hlt)
  rw [crc32Step, crcIndex_eq, crc32Tab_eq _ (Nat.mod_lt _ (by decide)), lowBits_ofNat_mod, hbits,
    run_low crcPolynomial r hsmall, crcVal_xor, crcVal_shiftRight]

/-! ### The loop -/

/-- The loop of `crc32`. -/
lemma crc32_foldl (s : List UInt8) (r : BitVec 32) :
    s.foldl crc32Step (crcVal r) = crcVal (run crcPolynomial r (s.flatMap byteBits)) := by
  induction s generalizing r with
  | nil => rfl
  | cons b s ih => rw [List.foldl_cons, crc32Step_eq, ih, List.flatMap_cons, run_append]

/-- A length that fits in an `unsigned int`. -/
lemma crc32_eq_crcVal {s : List UInt8} (hlen : s.length < 2 ^ 32) :
    crc32 s (UInt32.ofNat s.length) = crcVal (crcBitwise s) := by
  have htake : s.take (UInt32.ofNat s.length).toNat = s := by
    rw [UInt32.toNat_ofNat_of_lt' hlen, List.take_length]
  rw [crc32, htake]
  exact crc32_foldl s 0#32

/-- The bits of an exclusive or. -/
lemma byteBits_xor {s t : List UInt8} (hlen : s.length = t.length) :
    (List.zipWith (· ^^^ ·) s t).flatMap byteBits =
      List.zipWith (· ^^ ·) (s.flatMap byteBits) (t.flatMap byteBits) := by
  induction s generalizing t with
  | nil => rfl
  | cons a s ih =>
      cases t with
      | nil => cases hlen
      | cons b t =>
          have hbyte : byteBits (a ^^^ b) = List.zipWith (· ^^ ·) (byteBits a) (byteBits b) := by
            rw [byteBits, byteBits, byteBits, lowBits, lowBits, lowBits, List.zipWith_map,
              List.zipWith_self]
            exact List.map_congr_left fun i _ => BitVec.getLsbD_xor
          rw [List.zipWith_cons_cons, List.flatMap_cons, List.flatMap_cons, List.flatMap_cons,
            ih (Nat.succ.inj hlen), hbyte, List.zipWith_append]
          rfl

lemma byteBits_length (s : List UInt8) : (s.flatMap byteBits).length = 8 * s.length := by
  induction s with
  | nil => rfl
  | cons b s ih =>
      have hbyte : (byteBits b).length = 8 := by rw [byteBits, lowBits, List.length_map,
        List.length_range]
      rw [List.flatMap_cons, List.length_append, ih, hbyte, List.length_cons]
      omega

/-- Two strings of equal length. -/
lemma crcBitwise_xor {s t : List UInt8} (hlen : s.length = t.length) :
    crcBitwise (List.zipWith (· ^^^ ·) s t) = crcBitwise s ^^^ crcBitwise t := by
  have hbits : (s.flatMap byteBits).length = (t.flatMap byteBits).length := by
    rw [byteBits_length, byteBits_length, hlen]
  rw [crcBitwise, byteBits_xor hlen]
  exact run_xor crcPolynomial hbits 0#32 0#32

/-- **The table-driven checksum is the bitwise one**: on every byte string of
less than 2^32 bytes. -/
theorem crc32_eq_bitwise {s : List UInt8} (hlen : s.length < 2 ^ 32) :
    crc32 s (UInt32.ofNat s.length) = crcVal (crcBitwise s) ∧
      crc32 s (UInt32.ofNat s.length) >>> 32 = 0 ∧
      ∀ t : List UInt8, t.length = s.length →
        crc32 (List.zipWith (· ^^^ ·) s t) (UInt32.ofNat s.length) =
          crc32 s (UInt32.ofNat s.length) ^^^ crc32 t (UInt32.ofNat s.length) := by
  refine ⟨crc32_eq_crcVal hlen, ?_, fun t ht => ?_⟩
  · rw [crc32_eq_crcVal hlen]
    exact crcVal_high _
  · have hzip : (List.zipWith (· ^^^ ·) s t).length = s.length := by
      rw [List.length_zipWith, ht, Nat.min_self]
    have hxor : crc32 (List.zipWith (· ^^^ ·) s t) (UInt32.ofNat s.length) =
        crcVal (crcBitwise (List.zipWith (· ^^^ ·) s t)) := by
      rw [← hzip]
      exact crc32_eq_crcVal (by rw [hzip]; exact hlen)
    have hright : crc32 t (UInt32.ofNat s.length) = crcVal (crcBitwise t) := by
      rw [← ht]
      exact crc32_eq_crcVal (by rw [ht]; exact hlen)
    rw [hxor, hright, crc32_eq_crcVal hlen, crcBitwise_xor ht.symm, crcVal_xor]

/-- A key of three bytes. -/
theorem crc32_of_three_eq_bitwise :
    crc32 [0x63, 0x72, 0x63] (UInt32.ofNat 3) = crcVal (crcBitwise [0x63, 0x72, 0x63]) :=
  (crc32_eq_bitwise (s := [0x63, 0x72, 0x63]) (by decide)).1

open Polynomial in
/-- **The checksum is a remainder**: of the bits of the string, followed by 32
zeros, on division by the polynomial of CRC-32. -/
theorem crcBitwise_remainder (s : List UInt8) :
    toPoly (crcBitwise s) = (X ^ 32 * message (s.flatMap byteBits)) %ₘ
      (X ^ 32 + X ^ 26 + X ^ 23 + X ^ 22 + X ^ 16 + X ^ 12 + X ^ 11 + X ^ 10 + X ^ 8 + X ^ 7 +
        X ^ 5 + X ^ 4 + X ^ 2 + X + 1) := by
  have hpoly : divisor crcPolynomial = (X ^ 32 + X ^ 26 + X ^ 23 + X ^ 22 + X ^ 16 + X ^ 12 +
      X ^ 11 + X ^ 10 + X ^ 8 + X ^ 7 + X ^ 5 + X ^ 4 + X ^ 2 + X + 1 : (ZMod 2)[X]) := by
    rw [divisor, toPoly]
    simp [Finset.sum_range_succ, crcPolynomial, bit]
    ring
  rw [← hpoly]
  exact run_eq_modByMonic crcPolynomial _

end CLibrary
