import ViewMarkup.Proofs.Number.Rounding

/-!
# The shortest decimal reads back

The search for the shortest decimal of a magnitude goes from coarse grids to fine ones, and it stops at a point
of the interval that is rounded to the magnitude. It always stops: the finest grid of all is finer than a
quarter of the last place, and the point of such a grid just below the magnitude lies in the interval. That
grid is found from a rough count of digits, and what the count is off by is little for the exponents of the
64-bit format and those of narrower ones.

## Main definitions

* `BinaryFormat.IsWithinDouble` — a format with no number beyond those of the 64-bit one.
* `Decimal.value` — the number that a decimal is.

## Main statements

* `ReadBack.contains_iff`, `ReadBack.gridPoint?_isSome` — the test of a grid point, and a grid with a point.
* `shortest_mem` — the shortest decimal lies in the interval of the magnitude.
-/

namespace ViewMarkup

namespace ReadBack

variable {r : ReadBack} {k : ℤ} {c a : ℕ}

/-! ### The points of a grid -/

/-- The factor that clears the denominators of the interval and of the grid. -/
def clearing (r : ReadBack) (k : ℤ) : ℚ := 2 ^ (-r.unit).toNat * 10 ^ (-k).toNat

/-- The factor that clears denominators is positive. -/
lemma clearing_pos : 0 < r.clearing k := by
  unfold clearing
  positivity

/-- A scaled number as a fraction. -/
lemma cast_scaled : (r.scaled k a : ℚ) = a * 2 ^ r.unit * r.clearing k := by
  have h := pow_toNat_eq two_ne_zero r.unit
  simp only [scaled, clearing, Nat.pow_eq]
  push_cast at h ⊢
  rw [h]
  ring

/-- A scaled step as a fraction. -/
lemma cast_step : (r.step k : ℚ) = 10 ^ k * r.clearing k := by
  have h := pow_toNat_eq (b := 10) (by decide) k
  simp only [step, clearing, Nat.pow_eq]
  push_cast at h ⊢
  rw [h]
  ring

/-- Whether a number is below some steps, without fractions. -/
lemma scaled_le_iff : r.scaled k a ≤ c * r.step k ↔ (a * 2 ^ r.unit : ℚ) ≤ c * 10 ^ k := by
  rw [← Nat.cast_le (α := ℚ), Nat.cast_mul, cast_scaled, cast_step, ← mul_assoc,
    mul_le_mul_iff_left₀ clearing_pos]

/-- Whether a number is above some steps, without fractions. -/
lemma le_scaled_iff : c * r.step k ≤ r.scaled k a ↔ (c * 10 ^ k : ℚ) ≤ a * 2 ^ r.unit := by
  rw [← Nat.cast_le (α := ℚ), Nat.cast_mul, cast_scaled, cast_step, ← mul_assoc,
    mul_le_mul_iff_left₀ clearing_pos]

/-- The test of a grid point is exact. -/
theorem contains_iff : r.contains k c = true ↔ r.Mem (c * 10 ^ k) := by
  simp only [contains, Mem]
  split_ifs with h
  · rw [decide_eq_true_iff, scaled_le_iff, le_scaled_iff, h]
    exact ⟨fun h => .inr ⟨rfl, h⟩, fun hmem => hmem.elim (fun h => ⟨h.1.le, h.2.le⟩) And.right⟩
  · rw [decide_eq_true_iff, ← not_le, ← not_le, le_scaled_iff, scaled_le_iff, not_le, not_le]
    simp [h]

/-- The point of a grid that is chosen lies in the interval. -/
lemma gridPoint?_mem (h : r.gridPoint? k = some c) : r.Mem (c * 10 ^ k) := by
  rw [← contains_iff]
  simp only [gridPoint?] at h
  grind

/-- A grid that is no coarser than a quarter of the last place has a point in the interval: the one below
the magnitude. -/
theorem gridPoint?_isSome (hlow : r.low < r.centre) (hhigh : r.centre < r.high)
    (hk : (10 : ℚ) ^ k ≤ 2 ^ r.unit) : (r.gridPoint? k).isSome := by
  have hbelow : r.contains k (r.scaled k r.centre / r.step k) = true := by
    have hunit : (0 : ℚ) < 2 ^ r.unit := zpow_pos two_pos _
    have hstep : 0 < r.step k := Nat.mul_pos (Nat.pow_pos (by decide)) (Nat.two_pow_pos _)
    have hle := le_scaled_iff.1 (Nat.div_mul_le_self (r.scaled k r.centre) (r.step k))
    have hlt : r.scaled k r.centre < (r.scaled k r.centre / r.step k + 1) * r.step k :=
      Nat.lt_mul_of_div_lt (Nat.lt_succ_self _) hstep
    rw [← not_le, le_scaled_iff, not_le] at hlt
    push_cast at hlt
    have hlow' : (r.low + 1 : ℚ) * 2 ^ r.unit ≤ r.centre * 2 ^ r.unit :=
      mul_le_mul_of_nonneg_right (by exact_mod_cast hlow) hunit.le
    have hhigh' : (r.centre : ℚ) * 2 ^ r.unit < r.high * 2 ^ r.unit :=
      mul_lt_mul_of_pos_right (by exact_mod_cast hhigh) hunit
    rw [contains_iff]
    left
    constructor <;> linarith
  simp only [gridPoint?, hbelow]
  grind

end ReadBack

/-! ### Powers of ten and of two -/

/-- A comparison of a power of ten and a power of two, by one of a power of each of them. -/
lemma ten_zpow_le_two_zpow {k u : ℤ} {a b : ℕ} (ha : a ≠ 0)
    (hpow : ((10 : ℚ) ^ a) ^ k ≤ (2 ^ b) ^ k) (h : b * k ≤ a * u) : (10 : ℚ) ^ k ≤ 2 ^ u := by
  refine le_of_pow_le_pow_left₀ ha (zpow_nonneg zero_le_two u) ?_
  calc ((10 : ℚ) ^ k) ^ a = (10 ^ a) ^ k := by
        rw [← zpow_natCast, ← zpow_mul, mul_comm, zpow_mul, zpow_natCast]
    _ ≤ (2 ^ b) ^ k := hpow
    _ = 2 ^ (b * k) := by rw [zpow_mul, zpow_natCast]
    _ ≤ 2 ^ (a * u) := zpow_le_zpow_right₀ one_le_two h
    _ = (2 ^ u) ^ a := by rw [mul_comm, zpow_mul, zpow_natCast]

/-- A thousand is less than ten binary digits. -/
lemma ten_zpow_le_of_nonneg {k u : ℤ} (hk : 0 ≤ k) (h : 10 * k ≤ 3 * u) : (10 : ℚ) ^ k ≤ 2 ^ u :=
  ten_zpow_le_two_zpow (a := 3) (b := 10) (by decide)
    (zpow_le_zpow_left₀ hk (by norm_num) (by norm_num)) h

/-- Ten decimal digits are more than thirty-three binary ones. -/
lemma ten_zpow_le_of_nonpos {k u : ℤ} (hk : k ≤ 0) (h : 33 * k ≤ 10 * u) : (10 : ℚ) ^ k ≤ 2 ^ u := by
  refine ten_zpow_le_two_zpow (a := 10) (b := 33) (by decide) ?_ h
  obtain ⟨n, rfl⟩ := Int.exists_eq_neg_ofNat hk
  rw [zpow_neg, zpow_neg, zpow_natCast, zpow_natCast]
  exact inv_anti₀ (by positivity) (pow_le_pow_left₀ (by norm_num) (by norm_num) n)

/-- A decimal digit is more than three binary ones. -/
lemma two_zpow_le_ten_zpow {k u : ℤ} (hk : 0 ≤ k) (h : u ≤ 3 * k) : (2 : ℚ) ^ u ≤ 10 ^ k := by
  calc (2 : ℚ) ^ u ≤ 2 ^ (3 * k) := zpow_le_zpow_right₀ one_le_two h
    _ = (2 ^ 3) ^ k := by rw [zpow_mul]; rfl
    _ ≤ 10 ^ k := zpow_le_zpow_left₀ hk (by norm_num) (by norm_num)

/-! ### The search -/

/-- A format that has no number beyond those of the 64-bit one. -/
structure BinaryFormat.IsWithinDouble (f : BinaryFormat) : Prop where
  /-- Its significands are no longer. -/
  precision_le : f.precision ≤ 53
  /-- Its least exponent is no lower. -/
  le_minExponent : -1074 ≤ f.minExponent
  /-- It has an exponent. -/
  minExponent_le : f.minExponent ≤ f.maxExponent
  /-- Its greatest exponent is no higher. -/
  maxExponent_le : f.maxExponent ≤ 971

namespace BinaryFormat

variable {f : BinaryFormat} {m bits : ℕ} {q : ℤ}

/-- Double precision is within double precision. -/
lemma isWithinDouble_double : double.IsWithinDouble := by constructor <;> decide

/-- So is single precision. -/
lemma isWithinDouble_single : single.IsWithinDouble := by constructor <;> decide

/-- The bounds of a magnitude in any format. -/
lemma IsWithinDouble.bounds (hf : f.IsWithinDouble) (h : f.finite? bits = some (m, q)) :
    m < 2 ^ 53 ∧ -1074 ≤ q ∧ q ≤ 971 := by
  obtain ⟨⟨hmin, hlt, hfull⟩, hinf, hsum⟩ := finite?_eq_some h
  have hprecision := hf.precision_le
  have hle : f.hiddenBit ≤ 2 ^ 52 := Nat.pow_le_pow_right (by decide) (by omega)
  have hq : q ≤ f.maxExponent := by
    by_contra hgt
    have hminmax := hf.minExponent_le
    have hmul := Nat.mul_le_mul_right f.hiddenBit
      (show (f.maxExponent - f.minExponent).toNat + 1 ≤ (q - f.minExponent).toNat by omega)
    rw [infinityBits, Nat.add_mul] at hinf
    rw [Nat.add_mul] at hmul
    omega
  exact ⟨by omega, hf.le_minExponent.trans hmin, hq.trans hf.maxExponent_le⟩

end BinaryFormat

/-- The finest grid of the search is fine enough. -/
lemma ten_zpow_gridAbove_le {m : ℕ} {q : ℤ} (hm : m ≠ 0) (hlt : m < 2 ^ 53) (hq : -1074 ≤ q)
    (hq' : q ≤ 971) : (10 : ℚ) ^ (gridAbove m q - 23) ≤ 2 ^ (q - 2) := by
  have hlog : m.log2 < 53 := (Nat.log2_lt hm).2 hlt
  unfold gridAbove
  by_cases hk : 0 ≤ ((m.log2 : Int) + 1 + q) * 30103 / 100000 + 2 - 23
  · exact ten_zpow_le_of_nonneg hk (by omega)
  · exact ten_zpow_le_of_nonpos (by omega) (by omega)

/-- The number that a decimal is. -/
def Decimal.value (d : Decimal) : ℚ := d.digits * 10 ^ d.exponent

/-- **The shortest decimal reads back.**

**Proof sketch.** The grid that is looked at last has a step of at most a quarter of the last place
(`ten_zpow_gridAbove_le`), hence a point in the interval, so the search does not come out empty. What it
finds has been tested. -/
theorem shortest_mem {f : BinaryFormat} (hf : f.IsWithinDouble) {bits m : ℕ} {q : ℤ}
    (h : f.finite? bits = some (m, q)) (hm : m ≠ 0) :
    (ReadBack.of f m q).Mem (shortest f m q).value := by
  obtain ⟨hlt, hq, hq'⟩ := hf.bounds h
  have hfound : ((ReadBack.of f m q).gridPoint? (gridAbove m q - 23)).isSome := by
    refine ReadBack.gridPoint?_isSome ?_ ?_ (ten_zpow_gridAbove_le hm hlt hq hq')
    · simp only [ReadBack.of]
      split_ifs <;> omega
    · simp [ReadBack.of]
  simp only [shortest]
  split
  · rename_i d hd
    obtain ⟨k, -, hk⟩ := List.exists_of_findSome?_eq_some hd
    obtain ⟨c, hc, rfl⟩ := Option.map_eq_some_iff.1 hk
    exact ReadBack.gridPoint?_mem hc
  · rename_i hnone
    have hmem : gridAbove m q - 23 ∈ (List.range 24).map fun (i : ℕ) => gridAbove m q - (i : ℤ) :=
      List.mem_map.2 ⟨23, List.mem_range.2 (by decide), rfl⟩
    have := List.findSome?_eq_none_iff.1 hnone _ hmem
    rw [Option.map_eq_none_iff] at this
    simp [this] at hfound

end ViewMarkup
