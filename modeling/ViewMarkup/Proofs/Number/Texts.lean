import ViewMarkup.Number.Text
import ViewMarkup.Proofs.Cutting
import ViewMarkup.Proofs.Number.ReadingBack

/-!
# Numbers written and read

A number is written with the digits of its shortest decimal and a point, and reading these digits gives the
same decimal, up to zeros that were added. That decimal lies in the interval of the number, so it is rounded
back to it. Infinity and zero have texts of their own, and a minus sign stands for the sign bit.

## Main definitions

* `Numeral.Literal` — characters that are a decimal.
* `Number.InNumber` — the characters that numbers are written with.

## Main statements

* `Decimal.exists_literal_positional` — the positional form of a decimal is a literal of the same number.
* `Numeral.decimalBits_eq` — a decimal that reads back as a magnitude is read as its bit pattern.
* `Number.bitsOfText?_textOfBits` — the text of a bit pattern is read as the same bit pattern.
* `Number.integerOfText?_repr` — an integer is read as it is written.
-/

namespace ViewMarkup

/-! ### Digits -/

namespace Numeral

variable {cs ds : List Char} {n : ℕ}

/-- Decimal digits. -/
def AreDigits (cs : List Char) : Prop := ∀ c ∈ cs, c.isDigit = true

/-- The value of digits is that of the library. -/
lemma digitsValue_eq (cs : List Char) : digitsValue cs = Nat.ofDigitChars 10 cs 0 := by
  rw [Nat.ofDigitChars_eq_foldl]
  rfl

/-- Zeros behind digits multiply their value. -/
lemma digitsValue_append_zeros (cs : List Char) (n : ℕ) :
    digitsValue (cs ++ List.replicate n '0') = digitsValue cs * 10 ^ n := by
  rw [digitsValue_eq, Nat.ofDigitChars_append, Nat.ofDigitChars_replicate_zero, digitsValue_eq, Nat.mul_comm]

/-- Zeros in front of digits do not count. -/
lemma digitsValue_zeros_append (n : ℕ) (cs : List Char) :
    digitsValue (List.replicate n '0' ++ cs) = digitsValue cs := by
  rw [digitsValue_eq, Nat.ofDigitChars_append, Nat.ofDigitChars_replicate_zero, digitsValue_eq, Nat.mul_zero]

/-- The value of a printed number is that number. -/
lemma digitsValue_repr (n : ℕ) : digitsValue (Nat.repr n).toList = n := by
  rw [digitsValue_eq, Nat.toList_repr, Nat.ofDigitChars_ten_toDigits]

/-- A printed number consists of digits. -/
lemma areDigits_repr (n : ℕ) : AreDigits (Nat.repr n).toList := by
  intro c hc
  rw [Nat.toList_repr] at hc
  exact Nat.isDigit_of_mem_toDigits (by decide) (by decide) hc

/-- So do zeros. -/
lemma areDigits_zeros (n : ℕ) : AreDigits (List.replicate n '0') := by
  intro c hc
  rw [List.eq_of_mem_replicate hc]
  decide

/-- Digits behind digits are digits. -/
lemma AreDigits.append (hcs : AreDigits cs) (hds : AreDigits ds) : AreDigits (cs ++ ds) :=
  List.forall_mem_append.2 ⟨hcs, hds⟩

/-- The first digits are digits. -/
lemma AreDigits.take (h : AreDigits cs) (n : ℕ) : AreDigits (cs.take n) :=
  fun c hc => h c (List.mem_of_mem_take hc)

/-- The last digits are digits. -/
lemma AreDigits.drop (h : AreDigits cs) (n : ℕ) : AreDigits (cs.drop n) :=
  fun c hc => h c (List.mem_of_mem_drop hc)

/-- The digits in front go on with what follows. -/
lemma AreDigits.takeWhile_append (h : AreDigits cs) (ds : List Char) :
    (cs ++ ds).takeWhile Char.isDigit = cs ++ ds.takeWhile Char.isDigit :=
  List.takeWhile_append_of_pos h

/-- Digits in front are passed over. -/
lemma AreDigits.dropWhile_append (h : AreDigits cs) (ds : List Char) :
    (cs ++ ds).dropWhile Char.isDigit = ds.dropWhile Char.isDigit :=
  List.dropWhile_append_of_pos h

/-! ### Decimal literals -/

/-- Characters that are a decimal: digits, with a point before the last ones or without one. -/
inductive Literal : List Char → Decimal → Prop where
  /-- Digits alone. -/
  | whole {cs : List Char} (hcs : AreDigits cs) (hne : cs ≠ []) : Literal cs ⟨digitsValue cs, 0⟩
  /-- Digits with a point among them. -/
  | point {cs ds : List Char} (hcs : AreDigits cs) (hne : cs ≠ []) (hds : AreDigits ds) :
      Literal (cs ++ '.' :: ds) ⟨digitsValue (cs ++ ds), -ds.length⟩

variable {d : Decimal}

/-- A literal is read as the decimal that it says. -/
lemma Literal.decimal?_eq (h : Literal cs d) : decimal? cs = some d := by
  cases h with
  | whole hcs hne =>
    have htake := hcs.takeWhile_append []
    have hdrop := hcs.dropWhile_append []
    simp only [List.append_nil, List.takeWhile_nil, List.dropWhile_nil] at htake hdrop
    simp [decimal?, htake, hdrop, hne, exponent?]
  | point hcs hne hds =>
    have htake := hds.takeWhile_append []
    have hdrop := hds.dropWhile_append []
    simp only [List.append_nil, List.takeWhile_nil, List.dropWhile_nil] at htake hdrop
    simp [decimal?, hcs.takeWhile_append, hcs.dropWhile_append, htake, hdrop, hne, exponent?]

/-- A literal begins with a digit. -/
lemma Literal.exists_cons (h : Literal cs d) : ∃ c ds, cs = c :: ds ∧ c.isDigit = true := by
  cases h with
  | whole hcs hne =>
    obtain ⟨c, ds, rfl⟩ := List.exists_cons_of_ne_nil hne
    exact ⟨c, ds, rfl, hcs c List.mem_cons_self⟩
  | point hcs hne hds =>
    obtain ⟨c, ds, rfl⟩ := List.exists_cons_of_ne_nil hne
    exact ⟨c, _, rfl, hcs c List.mem_cons_self⟩

/-- A literal has digits and a point in it. -/
lemma Literal.isDigit_or (h : Literal cs d) {c : Char} (hc : c ∈ cs) : c.isDigit = true ∨ c = '.' := by
  cases h with
  | whole hcs hne => exact .inl (hcs c hc)
  | point hcs hne hds =>
    rw [List.mem_append, List.mem_cons] at hc
    exact hc.elim (fun hc => .inl (hcs c hc)) fun hc => hc.symm.imp_left (hds c)

end Numeral

namespace Decimal

open Numeral

/-- **The positional form of a decimal is a literal of the same number.** -/
theorem exists_literal_positional (d : Decimal) :
    ∃ e, Literal d.positional.toList e ∧ e.value = d.value := by
  have hdigits := areDigits_repr d.digits
  have hvalue := digitsValue_repr d.digits
  have hne : (Nat.repr d.digits).toList ≠ [] := by
    rw [Nat.toList_repr]
    exact Nat.toDigits_ne_nil
  simp only [positional]
  generalize (Nat.repr d.digits).toList = cs at *
  split_ifs with hwhole hpoint
  all_goals rw [String.toList_ofList]
  · refine ⟨_, .whole (hdigits.append (areDigits_zeros _)) (List.append_ne_nil_of_left_ne_nil hne _), ?_⟩
    obtain ⟨n, hn⟩ := Int.eq_ofNat_of_zero_le (a := d.exponent) (by omega)
    simp [value, digitsValue_append_zeros, hvalue, hn]
  · have hlength : (cs.drop (cs.length - (-d.exponent).toNat)).length = -d.exponent := by
      rw [List.length_drop]
      omega
    refine ⟨_, .point (hdigits.take _) ?_ (hdigits.drop _), ?_⟩
    · rw [Ne, List.take_eq_nil_iff, not_or]
      exact ⟨by omega, hne⟩
    · rw [value, List.take_append_drop, hvalue, hlength, neg_neg]
      rfl
  · generalize hn : (-d.exponent).toNat - cs.length = n
    have hexp : (-((n + cs.length : ℕ) : ℤ)) = d.exponent := by omega
    have hzeros : ['0'] ++ (List.replicate n '0' ++ cs) = List.replicate (n + 1) '0' ++ cs := rfl
    refine ⟨_, .point (areDigits_zeros 1) (List.cons_ne_nil _ _) ((areDigits_zeros n).append hdigits), ?_⟩
    change (digitsValue (['0'] ++ (List.replicate n '0' ++ cs)) : ℚ) *
      10 ^ (-((List.replicate n '0' ++ cs).length : ℤ)) = _
    rw [hzeros, digitsValue_zeros_append, hvalue, List.length_append, List.length_replicate, hexp]
    rfl

end Decimal

/-! ### Rounding of what is read -/

namespace Numeral

variable {f : BinaryFormat} {bits m : ℕ} {q : ℤ} {d : Decimal}

/-- The length of a number tells its size. -/
lemma repr_bounds {n : ℕ} (hn : n ≠ 0) :
    (10 : ℚ) ^ (((Nat.repr n).length : ℤ) - 1) ≤ n ∧ (n : ℚ) < 10 ^ ((Nat.repr n).length : ℤ) := by
  have hpos := Nat.length_repr_pos (n := n)
  constructor
  · obtain ⟨k, hk⟩ : ∃ k, (Nat.repr n).length = k + 1 := ⟨_, (Nat.sub_add_cancel hpos).symm⟩
    have hle : 10 ^ k ≤ n := by
      by_contra hlt
      rcases k.eq_zero_or_pos with rfl | hk'
      · omega
      · have := (Nat.length_repr_le_iff hk').2 (not_le.1 hlt)
        omega
    rw [hk, Nat.cast_succ, add_sub_cancel_right, zpow_natCast]
    exact_mod_cast hle
  · rw [zpow_natCast]
    exact_mod_cast (Nat.length_repr_le_iff hpos).1 le_rfl

/-- What reads back as a magnitude is neither too small nor too large to be rounded. -/
lemma size_bounds (hf : f.IsWithinDouble) (h : f.finite? bits = some (m, q)) (hm : m ≠ 0)
    (hd : (ReadBack.of f m q).Mem d.value) (hdigits : d.digits ≠ 0) :
    -400 ≤ ((Nat.repr d.digits).length : ℤ) + d.exponent ∧
      ((Nat.repr d.digits).length : ℤ) + d.exponent ≤ 400 := by
  obtain ⟨hlow, hhigh⟩ := repr_bounds hdigits
  obtain ⟨hlt, hq, hq'⟩ := hf.bounds h
  have hround := hd.rounds
  have hm1 : (1 : ℚ) ≤ m := Nat.one_le_cast.2 (Nat.pos_of_ne_zero hm)
  have hm2 : (m + 1 : ℚ) ≤ 2 ^ 53 := by exact_mod_cast hlt
  have hqpos : (0 : ℚ) < 2 ^ q := zpow_pos two_pos q
  have hten : (0 : ℚ) < 10 ^ d.exponent := zpow_pos (by norm_num) _
  constructor
  · by_contra hsmall
    have hvalue : d.value < 10 ^ (((Nat.repr d.digits).length : ℤ) + d.exponent) := by
      rw [zpow_add₀ (by norm_num)]
      exact mul_lt_mul_of_pos_right hhigh hten
    have hpow : (10 : ℚ) ^ (((Nat.repr d.digits).length : ℤ) + d.exponent) ≤ 2 ^ (q - 1) :=
      ten_zpow_le_of_nonpos (by omega) (by omega)
    have hhalf : (2 : ℚ) ^ (q - 1) ≤ d.value := by
      rw [zpow_sub_one₀ two_ne_zero, mul_comm, ← le_div_iff₀ hqpos]
      obtain ⟨h, -⟩ | ⟨-, h, -⟩ := hround <;> linarith
    linarith
  · by_contra hlarge
    have hvalue : (10 : ℚ) ^ (((Nat.repr d.digits).length : ℤ) - 1 + d.exponent) ≤ d.value := by
      rw [zpow_add₀ (by norm_num)]
      exact mul_le_mul_of_nonneg_right hlow hten.le
    have hupper : d.value < 2 ^ (53 + q) := by
      rw [zpow_add₀ two_ne_zero, ← div_lt_iff₀ hqpos]
      obtain ⟨-, h⟩ | ⟨-, -, h⟩ := hround <;> exact_mod_cast (by linarith : d.value / 2 ^ q < 2 ^ 53)
    have hpow : (2 : ℚ) ^ (53 + q) ≤ 10 ^ (((Nat.repr d.digits).length : ℤ) - 1 + d.exponent) :=
      two_zpow_le_ten_zpow (by omega) (by omega)
    linarith

/-- **A decimal that reads back as a magnitude is read as its bit pattern.** The shortcut for decimals out of
range is never taken. -/
theorem decimalBits_eq (hf : f.IsWithinDouble) (h : f.finite? bits = some (m, q)) (hm : m ≠ 0)
    (hd : (ReadBack.of f m q).Mem d.value) : decimalBits f d = bits := by
  have hdigits : d.digits ≠ 0 := by
    intro h0
    simpa [Decimal.value, h0] using hd.pos hm
  have hsize := size_bounds hf h hm hd hdigits
  have hvalue : ((d.digits * Nat.pow 10 d.exponent.toNat : ℕ) : ℚ) / (Nat.pow 10 (-d.exponent).toNat : ℕ) =
      d.value := by
    have hpow := pow_toNat_eq (b := 10) (by decide) d.exponent
    have hne : (10 : ℚ) ^ (-d.exponent).toNat ≠ 0 := pow_ne_zero _ (by norm_num)
    rw [div_eq_iff (by exact_mod_cast hne)]
    push_cast [Nat.pow_eq] at hpow ⊢
    rw [hpow, Decimal.value, mul_assoc]
  have hsmall : ¬ (d.digits = 0 ∨ ((Nat.repr d.digits).length : ℤ) + d.exponent < -400) := by omega
  have hlarge : ¬ 400 < ((Nat.repr d.digits).length : ℤ) + d.exponent := by omega
  rw [← hvalue] at hd
  simp only [decimalBits, if_neg hsmall, if_neg hlarge]
  exact hd.nearest_eq hm h (pow_ne_zero _ (by decide))

end Numeral

/-! ### Bit patterns as texts -/

namespace Numeral

variable {cs : List Char} {d : Decimal}

/-- A literal begins without a sign. -/
lemma Literal.sign_eq (h : Literal cs d) : sign cs = (false, cs) := by
  obtain ⟨c, ds, rfl, hc⟩ := h.exists_cons
  have hminus : c ≠ '-' := by rintro rfl; cases hc
  have hplus : c ≠ '+' := by rintro rfl; cases hc
  simp [sign, hminus, hplus]

/-- A digit has no other case. -/
lemma toLower_eq_of_isDigit {c : Char} (h : c.isDigit = true) : c.toLower = c := by
  rw [Char.isDigit, Bool.and_eq_true, decide_eq_true_eq, decide_eq_true_eq] at h
  have hupper : ¬ ('A'.val ≤ c.val ∧ c.val ≤ 'Z'.val) := fun hc =>
    absurd (UInt32.le_trans hc.1 h.2) (by decide)
  exact dif_neg hupper

/-- A literal is none of the names of infinity and of the undefined number. -/
lemma Literal.unsigned?_eq (h : Literal cs d) : unsigned? cs = some (.decimal d) := by
  have hliteral := h.decimal?_eq
  obtain ⟨c, ds, rfl, hc⟩ := h.exists_cons
  have hlower : lower (c :: ds) = c :: lower ds := by
    rw [lower, List.map_cons, toLower_eq_of_isDigit hc]
    rfl
  have hn : c ≠ 'n' := by rintro rfl; cases hc
  have hi : c ≠ 'i' := by rintro rfl; cases hc
  simp [unsigned?, hlower, hn, hi, hliteral]

/-- The literal of zero. -/
lemma literal_zero : Literal "0".toList ⟨0, 0⟩ := by
  rw [show "0".toList = List.replicate 1 '0' by decide]
  exact .whole (areDigits_zeros 1) (List.cons_ne_nil _ _)

end Numeral

namespace Number

open BinaryFormat Numeral

variable {f : BinaryFormat} {bits : ℕ}

/-- The text of a bit pattern without a sign. -/
def magnitudeText (f : BinaryFormat) (bits : ℕ) : String :=
  match f.finite? bits with
  | none => "inf"
  | some (m, q) => if m = 0 then "0" else (shortest f m q).positional

/-- A pattern of a number is printed by its sign and its magnitude. -/
lemma textOfBits_eq (hnumber : bits % f.signBit ≤ f.infinityBits) :
    textOfBits f bits =
      if bits < f.signBit then magnitudeText f (bits % f.signBit)
      else "-" ++ magnitudeText f (bits % f.signBit) :=
  if_neg (not_lt.2 hnumber)

/-- The text of a magnitude is read as its bit pattern. -/
lemma unsigned?_magnitudeText (hf : f.IsWithinDouble) (hnumber : bits ≤ f.infinityBits) :
    sign (magnitudeText f bits).toList = (false, (magnitudeText f bits).toList) ∧
      ∃ n, unsigned? (magnitudeText f bits).toList = some n ∧ n.bits f = bits := by
  unfold magnitudeText
  match h : f.finite? bits with
  | none =>
    have hinf : f.infinityBits ≤ bits := by
      by_contra hlt
      simp only [finite?, if_neg hlt] at h
      split_ifs at h
    have hread : sign "inf".toList = (false, "inf".toList) ∧ unsigned? "inf".toList = some .infinite := by
      decide
    exact ⟨hread.1, .infinite, hread.2, hnumber.antisymm' hinf⟩
  | some (m, q) =>
    by_cases hm : m = 0
    · subst hm
      obtain ⟨⟨-, -, hfull⟩, -, hsum⟩ := finite?_eq_some h
      have hpos := f.hiddenBit_pos
      obtain rfl : q = f.minExponent := hfull.resolve_left (by omega)
      refine ⟨literal_zero.sign_eq, .decimal ⟨0, 0⟩, literal_zero.unsigned?_eq, ?_⟩
      simpa [Numeral.bits, decimalBits] using hsum
    · obtain ⟨e, hliteral, hvalue⟩ := (shortest f m q).exists_literal_positional
      simp only [if_neg hm]
      refine ⟨hliteral.sign_eq, .decimal e, hliteral.unsigned?_eq, ?_⟩
      exact decimalBits_eq hf h hm (hvalue ▸ shortest_mem hf h hm)

/-- **The text of a bit pattern is read as the same bit pattern.** -/
theorem bitsOfText?_textOfBits (hf : f.IsWithinDouble) (hsign : bits < 2 * f.signBit)
    (hnumber : bits % f.signBit ≤ f.infinityBits) : bitsOfText? f (textOfBits f bits) = some bits := by
  obtain ⟨hunsigned, n, hread, hbits⟩ := unsigned?_magnitudeText hf hnumber
  rw [textOfBits_eq hnumber]
  split_ifs with hlt
  · rw [Nat.mod_eq_of_lt hlt] at *
    simp [bitsOfText?, hunsigned, hread, hbits]
  · have hsum : f.signBit + bits % f.signBit = bits := by
      rw [Nat.mod_eq_sub_mod (not_lt.1 hlt), Nat.mod_eq_of_lt (by omega)]
      omega
    simp [bitsOfText?, sign, hread, hbits, hsum]

/-! ### The characters of numbers -/

/-- A character that numbers are written with. -/
def InNumber (c : Char) : Prop := c.isDigit = true ∨ c ∈ ['-', '.', 'i', 'n', 'f']

instance : DecidablePred InNumber := fun _ => inferInstanceAs (Decidable (_ ∨ _))

/-- Where all characters of a text pass the test, each of them is one of numbers. -/
lemma inNumber_of_mem {cs : List Char} (h : (cs.all fun c => decide (InNumber c)) = true) {c : Char}
    (hc : c ∈ cs) : InNumber c :=
  of_decide_eq_true (List.all_eq_true.1 h c hc)

/-- None of them is a blank. -/
lemma InNumber.isBlank {c : Char} (h : InNumber c) : Text.isBlank c = false := by
  obtain h | h := h
  · rw [Char.isDigit, Bool.and_eq_true, decide_eq_true_eq, decide_eq_true_eq] at h
    have hlow : 48 ≤ c.toNat := UInt32.le_iff_toNat_le.1 h.1
    have hhigh : c.toNat ≤ 57 := UInt32.le_iff_toNat_le.1 h.2
    simp only [Text.isBlank]
    grind
  · have hall : (['-', '.', 'i', 'n', 'f'].all fun c => !Text.isBlank c) = true := by decide
    simpa using List.all_eq_true.1 hall c h

/-- A printed magnitude has only characters of numbers. -/
lemma inNumber_of_mem_magnitudeText {c : Char} (hc : c ∈ (magnitudeText f bits).toList) : InNumber c := by
  unfold magnitudeText at hc
  split at hc
  · exact inNumber_of_mem (by decide) hc
  · split_ifs at hc
    · exact inNumber_of_mem (by decide) hc
    · obtain ⟨e, hliteral, -⟩ := Decimal.exists_literal_positional _
      exact (hliteral.isDigit_or hc).imp_right fun hpoint => by simp [hpoint]

/-- **A number is written without blanks, commas or at signs.** -/
theorem inNumber_of_mem_textOfBits (hnumber : bits % f.signBit ≤ f.infinityBits) {c : Char}
    (hc : c ∈ (textOfBits f bits).toList) : InNumber c := by
  rw [textOfBits_eq hnumber] at hc
  split_ifs at hc
  · exact inNumber_of_mem_magnitudeText hc
  · rw [String.toList_append, List.mem_append] at hc
    exact hc.elim (inNumber_of_mem (by decide)) inNumber_of_mem_magnitudeText

/-! ### Integers -/

/-- The literal of a whole number. -/
lemma literal_repr (n : ℕ) : Literal (Nat.repr n).toList ⟨n, 0⟩ := by
  have hne : (Nat.repr n).toList ≠ [] := by
    rw [Nat.toList_repr]
    exact Nat.toDigits_ne_nil
  have h := Literal.whole (areDigits_repr n) hne
  rwa [digitsValue_repr] at h

/-- A run of digits with a sign is read as the integer that it is. -/
lemma integerOfText?_of_sign {text : String} {negative : Bool} {k : ℕ} {n : ℤ}
    (hsign : sign text.toList = (negative, (Nat.repr k).toList)) (hn : (if negative then -(k : ℤ) else k) = n)
    (hlow : -2 ^ 63 ≤ n) (hhigh : n < 2 ^ 63) : integerOfText? text = some n := by
  have hall : (Nat.repr k).toList.all Char.isDigit = true := List.all_eq_true.2 (areDigits_repr k)
  have hne : (Nat.repr k).toList.isEmpty = false := by simp
  have hbounds : -Int.pow 2 63 ≤ n ∧ n < Int.pow 2 63 := ⟨hlow, hhigh⟩
  simp only [integerOfText?, hsign, hall, hne, digitsValue_repr, hn, Bool.not_true, Bool.false_eq_true,
    or_self, if_false, if_pos hbounds]

/-- **An integer within 64 bits is read as it is written.** -/
theorem integerOfText?_repr {n : ℤ} (hlow : -2 ^ 63 ≤ n) (hhigh : n < 2 ^ 63) :
    integerOfText? (Int.repr n) = some n := by
  rw [Int.repr_eq_if]
  split_ifs with hneg
  · exact integerOfText?_of_sign (literal_repr _).sign_eq (Int.toNat_of_nonneg hneg) hlow hhigh
  · have hsign : sign ("-" ++ (-n).toNat.repr).toList = (true, (-n).toNat.repr.toList) := by
      rw [String.toList_append]
      rfl
    exact integerOfText?_of_sign hsign (by simp only [if_true]; omega) hlow hhigh

/-- A printed whole number has only characters of numbers. -/
lemma inNumber_of_mem_repr {n : ℤ} {c : Char} (hc : c ∈ (Int.repr n).toList) : InNumber c := by
  rw [Int.repr_eq_if] at hc
  split_ifs at hc
  · exact .inl (areDigits_repr _ c hc)
  · rw [String.toList_append, List.mem_append] at hc
    exact hc.elim (inNumber_of_mem (by decide)) fun hc => .inl (areDigits_repr _ c hc)

/-- What is read as an integer is within 64 bits. -/
lemma bounds_of_integerOfText? {text : String} {n : ℤ} (h : integerOfText? text = some n) :
    -2 ^ 63 ≤ n ∧ n < 2 ^ 63 := by
  simp only [integerOfText?] at h
  split_ifs at h with hdigits hneg hbounds hbounds
  all_goals cases h; exact hbounds

end Number

end ViewMarkup
