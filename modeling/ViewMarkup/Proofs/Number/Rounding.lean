import Mathlib.Algebra.Order.Field.Power
import Mathlib.Data.Int.Log
import Mathlib.Data.Rat.Floor
import Mathlib.Tactic.FieldSimp
import Mathlib.Tactic.Linarith
import Mathlib.Tactic.Positivity
import Mathlib.Tactic.Ring
import ViewMarkup.Number.Shortest

/-!
# Rounding to the nearest magnitude

A decimal is read as the bit pattern of the magnitude nearest to it. The rationals that are nearest to a
magnitude make up the interval that is kept for writing it, so whatever lies in that interval is rounded to
the magnitude. There is one place where this is not plain: just below a power of two the magnitudes stand
twice as close, and a fraction there is rounded at the place before the last one. Its significand is then
carried over, and since bit patterns count the magnitudes it is still the pattern of the power of two.

## Main definitions

* `BinaryFormat.Rounds` — a natural number that is nearest to a fraction.
* `BinaryFormat.IsMagnitude` — a significand and an exponent of a format.
* `ReadBack.Mem` — a rational in the interval of a magnitude.

## Main statements

* `BinaryFormat.lastPlace_eq` — the last place is found by a logarithm.
* `BinaryFormat.finite?_eq_some` — a bit pattern counts the magnitudes.
* `ReadBack.Mem.nearest_eq` — what lies in the interval of a magnitude is rounded to it.
-/

namespace ViewMarkup

/-! ### Powers on both sides of a fraction -/

/-- A power with an integer exponent is a fraction of two powers with natural ones. -/
lemma pow_toNat_eq {b : ℕ} (hb : b ≠ 0) (e : ℤ) :
    (b : ℚ) ^ e.toNat = (b : ℚ) ^ e * (b : ℚ) ^ (-e).toNat := by
  have hb' : (b : ℚ) ≠ 0 := Nat.cast_ne_zero.2 hb
  obtain ⟨n, rfl | rfl⟩ := e.eq_nat_or_neg
  · simp
  · simp [hb']

/-- Shifting a fraction by a power of two. -/
lemma shifted_div (num den : ℕ) (e : ℤ) :
    ((num * Nat.pow 2 (-e).toNat : ℕ) : ℚ) / (den * Nat.pow 2 e.toNat : ℕ) = num / den / 2 ^ e := by
  have h := pow_toNat_eq two_ne_zero e
  have h2 : (2 : ℚ) ^ (-e).toNat ≠ 0 := pow_ne_zero _ two_ne_zero
  push_cast [Nat.pow_eq] at h ⊢
  rw [h, ← mul_assoc, mul_div_mul_right _ _ h2, div_div]

namespace BinaryFormat

/-! ### Rounding to a natural number -/

/-- A natural number that is nearest to a fraction, and is even if there are two. -/
def Rounds (y : ℚ) (m : ℕ) : Prop :=
  (m - 1 / 2 < y ∧ y < m + 1 / 2) ∨ (m % 2 = 0 ∧ m - 1 / 2 ≤ y ∧ y ≤ m + 1 / 2)

/-- The same without fractions, in halves of the denominator. -/
lemma rounds_div_iff {a b m : ℕ} (hb : 0 < b) :
    Rounds (a / b) m ↔ (2 * (m * b) < 2 * a + b ∧ 2 * a < 2 * (m * b) + b) ∨
      (m % 2 = 0 ∧ 2 * (m * b) ≤ 2 * a + b ∧ 2 * a ≤ 2 * (m * b) + b) := by
  have hb' : (0 : ℚ) < b := Nat.cast_pos.2 hb
  rw [Rounds, lt_div_iff₀ hb', div_lt_iff₀ hb', le_div_iff₀ hb', div_le_iff₀ hb']
  simp only [← Nat.cast_lt (α := ℚ), ← Nat.cast_le (α := ℚ)]
  push_cast
  refine or_congr (and_congr ?_ ?_) (and_congr_right fun _ => and_congr ?_ ?_) <;>
    constructor <;> intro h <;> linarith

/-- **Division with the remainder rounds to the nearest number.** -/
theorem roundHalfEven_eq {a b m : ℕ} (hb : 0 < b) (h : Rounds (a / b) m) :
    roundHalfEven a b = m := by
  have hdiv : a / b * b + a % b = a := Nat.div_add_mod' a b
  have hmod : a % b < b := Nat.mod_lt a hb
  have hhalves : 2 * (m * b) ≤ 2 * a + b ∧ 2 * a ≤ 2 * (m * b) + b ∧
      (m % 2 = 0 ∨ (2 * (m * b) < 2 * a + b ∧ 2 * a < 2 * (m * b) + b)) := by
    have h := (rounds_div_iff hb).1 h
    omega
  obtain ⟨hlow, hhigh, htie⟩ := hhalves
  have hle : a / b < m + 1 := (Nat.div_lt_iff_lt_mul hb).2 (by rw [Nat.add_mul]; omega)
  have hge : m < a / b + 2 := Nat.lt_of_mul_lt_mul_right (a := b) (by rw [Nat.add_mul]; omega)
  simp only [roundHalfEven]
  obtain rfl | rfl : m = a / b ∨ m = a / b + 1 := by omega
  · grind
  · rw [Nat.add_mul] at hlow hhigh htie
    grind

/-! ### The place at which a fraction is rounded -/

variable {f : BinaryFormat} {num den m bits : ℕ} {q : ℤ}

/-- The estimate of the leading bit by the lengths of the two numbers is off by one at most. -/
lemma estimate_bounds (hnum : num ≠ 0) (hden : den ≠ 0) :
    (2 : ℚ) ^ ((num.log2 : ℤ) - den.log2 - 1) < num / den ∧
      (num / den : ℚ) < 2 ^ ((num.log2 : ℤ) - den.log2 + 1) := by
  have hden' : (0 : ℚ) < den := Nat.cast_pos.2 (Nat.pos_of_ne_zero hden)
  have hnumLow : (2 : ℚ) ^ num.log2 ≤ num := by exact_mod_cast Nat.log2_self_le hnum
  have hnumHigh : (num : ℚ) < 2 ^ (num.log2 + 1) := by exact_mod_cast Nat.lt_log2_self
  have hdenLow : (2 : ℚ) ^ den.log2 ≤ den := by exact_mod_cast Nat.log2_self_le hden
  have hdenHigh : (den : ℚ) < 2 ^ (den.log2 + 1) := by exact_mod_cast Nat.lt_log2_self
  constructor
  · calc (2 : ℚ) ^ ((num.log2 : ℤ) - den.log2 - 1) = 2 ^ num.log2 / 2 ^ (den.log2 + 1) := by
          rw [sub_sub, zpow_sub₀ two_ne_zero]
          norm_cast
      _ < num / den := div_lt_div₀' hnumLow hdenHigh (by positivity) hden'
  · calc (num / den : ℚ) < 2 ^ (num.log2 + 1) / 2 ^ den.log2 :=
          div_lt_div₀ hnumHigh hdenLow (by positivity) (by positivity)
      _ = 2 ^ ((num.log2 : ℤ) - den.log2 + 1) := by
          rw [sub_add_eq_add_sub, zpow_sub₀ two_ne_zero]
          norm_cast

/-- The last place is that at which the leading bit of the fraction fills the significand, if the format
goes down that far. -/
theorem lastPlace_eq (hnum : num ≠ 0) (hden : den ≠ 0) :
    f.lastPlace num den =
      max f.minExponent (Int.log 2 (num / den : ℚ) - (f.precision - 1 : ℕ)) := by
  have hx : (0 : ℚ) < num / den :=
    div_pos (Nat.cast_pos.2 (Nat.pos_of_ne_zero hnum)) (Nat.cast_pos.2 (Nat.pos_of_ne_zero hden))
  obtain ⟨hlow, hhigh⟩ := estimate_bounds hnum hden
  simp only [lastPlace]
  generalize (num.log2 : ℤ) - den.log2 = e at hlow hhigh
  have hbelow : num * Nat.pow 2 (-e).toNat < den * Nat.pow 2 e.toNat ↔ (num / den : ℚ) < 2 ^ e := by
    have hpos : (0 : ℚ) < (den * Nat.pow 2 e.toNat : ℕ) :=
      Nat.cast_pos.2 (Nat.mul_pos (Nat.pos_of_ne_zero hden) (Nat.two_pow_pos _))
    rw [← Nat.cast_lt (α := ℚ), ← div_lt_one hpos, shifted_div, div_lt_one (zpow_pos two_pos e)]
  have hlog : Int.log 2 (num / den : ℚ) = if (num / den : ℚ) < 2 ^ e then e - 1 else e := by
    have h1 : e - 1 ≤ Int.log 2 (num / den : ℚ) :=
      (Int.zpow_le_iff_le_log one_lt_two hx).1 (by exact_mod_cast hlow.le)
    have h2 : Int.log 2 (num / den : ℚ) < e + 1 :=
      (Int.lt_zpow_iff_log_lt one_lt_two hx).1 (by exact_mod_cast hhigh)
    split_ifs with h
    · have := (Int.lt_zpow_iff_log_lt one_lt_two hx).1 (by exact_mod_cast h)
      omega
    · have := (Int.zpow_le_iff_le_log one_lt_two hx).1 (by exact_mod_cast not_lt.1 h)
      omega
  simp only [hbelow, hlog]

/-! ### Significand and exponent of a bit pattern -/

/-- A significand and an exponent as a format has them: the significand is full, unless the exponent is
the least. -/
structure IsMagnitude (f : BinaryFormat) (m : ℕ) (q : ℤ) : Prop where
  /-- The exponent is not below the least. -/
  minExponent_le : f.minExponent ≤ q
  /-- The significand has no more bits than the format has. -/
  lt : m < 2 * f.hiddenBit
  /-- It has no less, unless the exponent is the least. -/
  full : f.hiddenBit ≤ m ∨ q = f.minExponent

/-- The hidden bit counts for something. -/
lemma hiddenBit_pos : 0 < f.hiddenBit := Nat.two_pow_pos _

/-- **A bit pattern counts the magnitudes.** -/
theorem finite?_eq_some (h : f.finite? bits = some (m, q)) :
    f.IsMagnitude m q ∧ bits < f.infinityBits ∧
      (q - f.minExponent).toNat * f.hiddenBit + m = bits := by
  have hpos := f.hiddenBit_pos
  unfold finite? at h
  split_ifs at h with hinf hlt <;> cases h
  · exact ⟨⟨le_rfl, by omega, .inr rfl⟩, not_le.1 hinf, by simp⟩
  · have hmod := Nat.mod_lt bits hpos
    have hdiv : 1 ≤ bits / f.hiddenBit := (Nat.one_le_div_iff hpos).2 (not_lt.1 hlt)
    have hsum : bits / f.hiddenBit * f.hiddenBit + bits % f.hiddenBit = bits := Nat.div_add_mod' _ _
    refine ⟨⟨by omega, by omega, .inl (by omega)⟩, not_le.1 hinf, ?_⟩
    obtain ⟨n, hn⟩ : ∃ n, bits / f.hiddenBit = n + 1 := ⟨_, (Nat.sub_add_cancel hdiv).symm⟩
    rw [hn, Nat.add_mul] at hsum
    simp only [hn, Nat.add_sub_cancel, add_sub_cancel_left, Int.toNat_natCast]
    omega

end BinaryFormat

/-! ### What reads back -/

namespace ReadBack

open BinaryFormat

variable {f : BinaryFormat} {num den m bits : ℕ} {q : ℤ} {x : ℚ}

/-- A number lies in the interval, or at one of its ends when these belong to it. -/
def Mem (r : ReadBack) (x : ℚ) : Prop :=
  (r.low * 2 ^ r.unit < x ∧ x < r.high * 2 ^ r.unit) ∨
    (r.closed = true ∧ r.low * 2 ^ r.unit ≤ x ∧ x ≤ r.high * 2 ^ r.unit)

/-- The interval in units of the last place. -/
lemma mem_of_iff : (ReadBack.of f m q).Mem x ↔
    ((ReadBack.of f m q).low / 4 < x / 2 ^ q ∧ x / 2 ^ q < m + 1 / 2) ∨
      (m % 2 = 0 ∧ (ReadBack.of f m q).low / 4 ≤ x / 2 ^ q ∧ x / 2 ^ q ≤ m + 1 / 2) := by
  have hq : (0 : ℚ) < 2 ^ q := zpow_pos two_pos q
  have hquarter : (2 : ℚ) ^ (q - 2) = 2 ^ q / 4 := by
    rw [zpow_sub₀ two_ne_zero]
    norm_num
  rw [lt_div_iff₀ hq, div_lt_iff₀ hq, le_div_iff₀ hq, div_le_iff₀ hq]
  simp only [Mem, ReadBack.of, hquarter, decide_eq_true_eq]
  push_cast
  refine or_congr (and_congr ?_ ?_) (and_congr_right fun _ => and_congr ?_ ?_) <;>
    constructor <;> intro h <;> linarith

/-- The interval does not reach further down than half of the last place. -/
lemma le_low : (m - 1 / 2 : ℚ) ≤ (ReadBack.of f m q).low / 4 := by
  have hle : 4 * m ≤ (ReadBack.of f m q).low + 2 := by
    simp only [ReadBack.of]
    split_ifs <;> omega
  have hle' : (4 * m : ℚ) ≤ (ReadBack.of f m q).low + 2 := by exact_mod_cast hle
  linarith

/-- What reads back as a magnitude rounds to its significand at its last place. -/
lemma Mem.rounds (h : (ReadBack.of f m q).Mem x) : Rounds (x / 2 ^ q) m := by
  have hlow : (m - 1 / 2 : ℚ) ≤ (ReadBack.of f m q).low / 4 := le_low
  exact (mem_of_iff.1 h).imp (fun h => ⟨hlow.trans_lt h.1, h.2⟩)
    fun h => ⟨h.1, hlow.trans h.2.1, h.2.2⟩

/-- The interval has no number below zero in it. -/
lemma Mem.pos (h : (ReadBack.of f m q).Mem x) (hm : m ≠ 0) : 0 < x := by
  have hle : (1 : ℚ) ≤ m := Nat.one_le_cast.2 (Nat.pos_of_ne_zero hm)
  have hq : (0 : ℚ) < 2 ^ q := zpow_pos two_pos q
  have hpos : 0 < x / 2 ^ q := by
    obtain ⟨h, -⟩ | ⟨-, h, -⟩ := h.rounds <;> linarith
  exact (div_pos_iff_of_pos_right hq).1 hpos

/-- A logarithm tells whether the significand is full at a place. -/
lemma le_log_iff (hx : 0 < x) :
    q + (f.precision - 1 : ℕ) ≤ Int.log 2 x ↔ (f.hiddenBit : ℚ) ≤ x / 2 ^ q := by
  have hhidden : (f.hiddenBit : ℚ) = 2 ^ ((f.precision - 1 : ℕ) : ℤ) := by
    rw [zpow_natCast]
    exact Nat.cast_pow 2 _
  rw [← Int.zpow_le_iff_le_log one_lt_two hx, hhidden, le_div_iff₀ (zpow_pos two_pos q), add_comm,
    ← zpow_add₀ two_ne_zero]
  rfl

/-- Just below a power of two the interval begins a quarter of the last place below. -/
lemma Mem.le_of_hiddenBit (h : (ReadBack.of f f.hiddenBit q).Mem x) (hq : f.minExponent < q) :
    (f.hiddenBit : ℚ) - 1 / 4 ≤ x / 2 ^ q := by
  have hlow : (ReadBack.of f f.hiddenBit q).low + 1 = 4 * f.hiddenBit := by
    have := f.hiddenBit_pos
    simp only [ReadBack.of, hq, and_self, if_true]
    omega
  have hlow' : ((ReadBack.of f f.hiddenBit q).low + 1 : ℚ) = 4 * f.hiddenBit := by exact_mod_cast hlow
  obtain ⟨h, -⟩ | ⟨-, h, -⟩ := mem_of_iff.1 h <;> linarith

/-- What reads back as a magnitude rounds to its bit pattern: at its last place or, just below a power of
two, at the place before it, with a significand that is carried over. -/
lemma Mem.exists_rounds (h : (ReadBack.of f m q).Mem (num / den)) (hm : m ≠ 0)
    (hmag : f.IsMagnitude m q) (hnum : num ≠ 0) (hden : den ≠ 0) :
    ∃ m', Rounds (num / den / 2 ^ f.lastPlace num den) m' ∧
      (f.lastPlace num den - f.minExponent).toNat * f.hiddenBit + m' =
        (q - f.minExponent).toNat * f.hiddenBit + m := by
  have hx := h.pos hm
  have hround := h.rounds
  obtain ⟨hmin, hlt, hfull⟩ := hmag
  rw [lastPlace_eq hnum hden]
  generalize (num / den : ℚ) = x at *
  have hlog : Int.log 2 x < q + 1 + (f.precision - 1 : ℕ) := by
    have hlt' : (m + 1 : ℚ) ≤ 2 * f.hiddenBit := by exact_mod_cast hlt
    rw [← not_le, le_log_iff hx, not_le, zpow_add_one₀ two_ne_zero, ← div_div]
    obtain ⟨-, h⟩ | ⟨-, -, h⟩ := hround <;> linarith
  by_cases hplace : max f.minExponent (Int.log 2 x - (f.precision - 1 : ℕ)) = q
  · rw [hplace]
    exact ⟨m, hround, rfl⟩
  · -- The fraction is below the power of two that the magnitude is.
    have hbelow : ¬ q + (f.precision - 1 : ℕ) ≤ Int.log 2 x := by omega
    have hbelow' := not_le.1 (mt (le_log_iff hx).2 hbelow)
    have hq : f.minExponent < q := by omega
    have hmhidden : m = f.hiddenBit := by
      have hle : (m : ℚ) < f.hiddenBit + 1 := by obtain ⟨h, -⟩ | ⟨-, h, -⟩ := hround <;> linarith
      have hle' : m < f.hiddenBit + 1 := by exact_mod_cast hle
      omega
    subst hmhidden
    have hquarter := h.le_of_hiddenBit hq
    have hhalf : x / 2 ^ (q - 1) = 2 * (x / 2 ^ q) := by
      rw [zpow_sub_one₀ two_ne_zero]
      field_simp
    have hone : (1 : ℚ) ≤ f.hiddenBit := Nat.one_le_cast.2 f.hiddenBit_pos
    have hlog' : q - 1 + (f.precision - 1 : ℕ) ≤ Int.log 2 x := by
      rw [le_log_iff hx, hhalf]
      linarith
    have hprev : max f.minExponent (Int.log 2 x - (f.precision - 1 : ℕ)) = q - 1 := by omega
    rw [hprev, hhalf]
    refine ⟨2 * f.hiddenBit, .inr ⟨Nat.mul_mod_right 2 _, ?_, ?_⟩, ?_⟩
    · push_cast
      linarith
    · push_cast
      linarith
    · obtain ⟨n, hn⟩ : ∃ n, (q - f.minExponent).toNat = n + 1 :=
        ⟨_, (Nat.sub_add_cancel (by omega)).symm⟩
      rw [hn, show (q - 1 - f.minExponent).toNat = n by omega, Nat.add_mul]
      omega

/-- **What reads back as a magnitude is rounded to it.** -/
theorem Mem.nearest_eq (h : (ReadBack.of f m q).Mem (num / den)) (hm : m ≠ 0)
    (hbits : f.finite? bits = some (m, q)) (hden : den ≠ 0) : f.nearest num den = bits := by
  obtain ⟨hmag, hlt, hsum⟩ := finite?_eq_some hbits
  have hnum : num ≠ 0 := by
    rintro rfl
    simpa using h.pos hm
  obtain ⟨m', hround, hsame⟩ := h.exists_rounds hm hmag hnum hden
  rw [← shifted_div] at hround
  have hpos : 0 < den * Nat.pow 2 (f.lastPlace num den).toNat :=
    Nat.mul_pos (Nat.pos_of_ne_zero hden) (Nat.two_pow_pos _)
  simp only [nearest, if_neg hnum, roundHalfEven_eq hpos hround, hsame, hsum]
  exact min_eq_right hlt.le

end ReadBack

end ViewMarkup
