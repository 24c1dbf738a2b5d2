import Mathlib
import ViewMarkup.Proofs.Number.Texts

/-!
# The bit patterns of numbers

A built-in number is a bit pattern in which the undefined number has one spelling only. A pattern is made of a
sign, an exponent and a mantissa; the pattern of a number is not above that of infinity, so its text is read as
the same pattern, whether the number is zero, subnormal, normal or infinite.

## Main statements

* `Packed.magnitude_le` — the pattern of a number is not above that of infinity.
* `Number.ofText?_text`, `Number.singleOfText?_singleText` — the text of a number is read as the same number.
-/

namespace ViewMarkup

open Float.Model Float.Model.UnpackedFloat

/-! ### The fields of a pattern -/

namespace Packed

variable {spec : Format} {b : BitVec spec.numBits}

/-- A value whose bits are not all set is not the greatest one. -/
lemma toNat_ne_of_ne {w : ℕ} {e : BitVec w} (h : e ≠ -1#w) : e.toNat ≠ 2 ^ w - 1 := by
  intro htoNat
  exact h (BitVec.toNat_inj.1 (by simpa [BitVec.neg_one_eq_allOnes] using htoNat))

/-- The mantissa of a pattern, as a number. -/
lemma toNat_unpackMantissa :
    (unpackMantissa b).toNat = b.toNat % 2 ^ spec.mantissaBitsWithoutImplicit := by
  have := spec.hm
  rw [unpackMantissa, BitVec.toNat_cast, BitVec.extractLsb_toNat, Nat.shiftRight_zero,
    show spec.mantissaBitsWithoutImplicit - 1 - 0 + 1 = spec.mantissaBitsWithoutImplicit by omega]

/-- The exponent of a pattern, as a number. -/
lemma toNat_unpackExponent : (unpackExponent b).toNat =
    b.toNat / 2 ^ spec.mantissaBitsWithoutImplicit % 2 ^ spec.exponentBits := by
  have := spec.he
  rw [unpackExponent, BitVec.toNat_cast, BitVec.extractLsb_toNat, Nat.shiftRight_eq_div_pow]
  congr 2
  omega

/-- The pattern of a number, its sign aside, is not above that of infinity. -/
theorem magnitude_le (h : (UnpackedFloat.unpack spec b).isNaN = false) :
    b.toNat % (2 ^ spec.mantissaBitsWithoutImplicit * 2 ^ spec.exponentBits) ≤
      2 ^ spec.mantissaBitsWithoutImplicit * (2 ^ spec.exponentBits - 1) := by
  have hmantissa := (unpackMantissa b).isLt
  have hexponent := (unpackExponent b).isLt
  rw [Nat.mod_mul, ← toNat_unpackExponent, ← toNat_unpackMantissa]
  by_cases hones : unpackExponent b = -1#_
  · have hzero : unpackMantissa b = 0#_ := by
      by_contra hne
      simp [UnpackedFloat.unpack, hones, hne, UnpackedFloat.isNaN] at h
    simp [hones, hzero, BitVec.neg_one_eq_allOnes]
  · have hne := toNat_ne_of_ne hones
    calc (unpackMantissa b).toNat + 2 ^ spec.mantissaBitsWithoutImplicit * (unpackExponent b).toNat
        ≤ 2 ^ spec.mantissaBitsWithoutImplicit * ((unpackExponent b).toNat + 1) := by
          rw [Nat.mul_add]
          omega
      _ ≤ 2 ^ spec.mantissaBitsWithoutImplicit * (2 ^ spec.exponentBits - 1) :=
          Nat.mul_le_mul_left _ (by omega)

/-- What is above something is a number. -/
lemma isNaN_of_lt {u v : UnpackedFloat} (h : u.lt v = true) : v.isNaN = false := by
  cases v with
  | notANumber => cases u <;> cases h
  | _ => rfl

end Packed

/-! ### The built-in numbers -/

namespace Number

open BinaryFormat

section Double

variable {x : Float}

/-- **The text of a 64-bit number is read as the same number.** -/
theorem ofText?_text (hx : x.isNaN = false) : ofText? (text x) = some x := by
  have hread : bitsOfText? .double (text x) = some x.toBits.toNat :=
    bitsOfText?_textOfBits isWithinDouble_double x.toBits.toNat_lt (Packed.magnitude_le hx)
  simp [ofText?, hread]

/-- A printed number has only characters of numbers. -/
lemma inNumber_of_mem_text (hx : x.isNaN = false) {c : Char} (hc : c ∈ (text x).toList) : InNumber c :=
  inNumber_of_mem_textOfBits (Packed.magnitude_le hx) hc

/-- A number equals itself. -/
lemma beq_self (hx : x.isNaN = false) : (x == x) = true := by
  rw [Float.isNaN_eq_decide_eq_nan] at hx
  exact Float.beq_self_iff.2 (of_decide_eq_false hx)

/-- What is greater than something is a number. -/
lemma isNaN_of_lt {y : Float} (h : y < x) : x.isNaN = false :=
  Packed.isNaN_of_lt (of_decide_eq_true h)

end Double

section Single

variable {x : Float32}

/-- **The text of a 32-bit number is read as the same number.** -/
theorem singleOfText?_singleText (hx : x.isNaN = false) : singleOfText? (singleText x) = some x := by
  have hread : bitsOfText? .single (singleText x) = some x.toBits.toNat :=
    bitsOfText?_textOfBits isWithinDouble_single x.toBits.toNat_lt (Packed.magnitude_le hx)
  simp [singleOfText?, hread]

/-- A number that is printed with single precision has only characters of numbers. -/
lemma inNumber_of_mem_singleText (hx : x.isNaN = false) {c : Char} (hc : c ∈ (singleText x).toList) :
    InNumber c :=
  inNumber_of_mem_textOfBits (Packed.magnitude_le hx) hc

/-- It equals itself with single precision, too. -/
lemma single_beq_self (hx : x.isNaN = false) : (x == x) = true := by
  rw [Float32.isNaN_eq_decide_eq_nan] at hx
  exact Float32.beq_self_iff.2 (of_decide_eq_false hx)

end Single

end Number

end ViewMarkup
