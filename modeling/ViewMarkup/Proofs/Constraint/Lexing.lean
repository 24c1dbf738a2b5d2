import Mathlib.Data.List.TakeWhile
import ViewMarkup.Constraint.Clause

/-!
# What the text of a token says

The scanner of the constraint language cuts a text into tokens and gives each a kind. What stands
behind the scanner reads the texts again: an amount as a number, a layout id without its prefix, a
priority as a name or else as a number. This module says which texts the scanner can leave for
which kind, so that the second reading is known never to fail where the kind promised a number and
never to succeed where the kind promised a word.

## Main definitions

* `Text.IsNumeral` — digits with an optional minus and an optional fraction.
* `Token.IsShaped` — the texts that fit the kind of a token.

## Main statements

* `Token.isShaped_of_scan` — every token of a scanned text is shaped.
* `Token.IsShaped.exists_bits` — a number token denotes a number in every format.
* `Token.IsShaped.not_onScale` — a word that is read as a number is not on the scale of priorities.
-/

namespace ViewMarkup

namespace Text

/-- A digit is no letter. -/
lemma isAlpha_eq_false_of_isDigit {c : Char} (h : c.isDigit = true) : c.isAlpha = false := by
  delta Char.isDigit at h
  delta Char.isAlpha Char.isUpper Char.isLower
  grind

/-- At least one digit and nothing else. -/
def IsDigits (cs : List Char) : Prop := cs ≠ [] ∧ ∀ c ∈ cs, c.isDigit = true

/-- Nothing, or a point with digits behind it. -/
def IsFraction (cs : List Char) : Prop := cs = [] ∨ ∃ places, IsDigits places ∧ cs = '.' :: places

/-- Digits with an optional minus and an optional fraction. -/
def IsNumeral (cs : List Char) : Prop :=
  ∃ whole fraction, IsDigits whole ∧ IsFraction fraction ∧
    (cs = whole ++ fraction ∨ cs = '-' :: (whole ++ fraction))

end Text

open Text

/-! ### The longest token at a position -/

namespace TokenKind

/-- The span of a test is what the longest prefix that passes it is long. -/
lemma take_span (p : Char → Bool) (cs : List Char) :
    cs.take (span p cs) = cs.takeWhile p := by
  calc cs.take (span p cs)
      = (cs.takeWhile p ++ cs.dropWhile p).take (cs.takeWhile p).length := by
        rw [List.takeWhile_append_dropWhile, span]
    _ = cs.takeWhile p := List.take_left

/-- A span of digits that is not empty is a number without a fraction. -/
lemma isDigits_takeWhile {cs : List Char} (h : span Char.isDigit cs ≠ 0) :
    IsDigits (cs.takeWhile Char.isDigit) :=
  ⟨fun hnil => h (by simp [span, hnil]), fun c hc => List.all_eq_true.mp List.all_takeWhile c hc⟩

/-- Behind the digits of a number stands at most a fraction. -/
lemma exists_take_numberTail (cs : List Char) :
    ∃ fraction, IsFraction fraction ∧
      cs.take (numberTail cs) = cs.takeWhile Char.isDigit ++ fraction := by
  have whole : cs.take (span Char.isDigit cs) = cs.takeWhile Char.isDigit ++ [] := by
    rw [take_span, List.append_nil]
  unfold numberTail
  dsimp only
  split
  case h_1 fraction hdrop =>
    split
    · exact ⟨[], .inl rfl, whole⟩
    · rename_i hplaces
      refine ⟨'.' :: fraction.takeWhile Char.isDigit,
        .inr ⟨_, isDigits_takeWhile hplaces, rfl⟩, ?_⟩
      rw [Nat.add_assoc, List.take_add, hdrop, take_span, Nat.add_comm 1, List.take_succ_cons,
        take_span]
  case h_2 => exact ⟨[], .inl rfl, whole⟩

/-- A number token is a number. -/
lemma isNumeral_of_longest? {c : Char} {cs : List Char} {n : Nat}
    (h : longest? c cs = some (.number, n)) : IsNumeral (c :: cs.take n) := by
  obtain ⟨fraction, hfraction, htake⟩ := exists_take_numberTail cs
  unfold longest? at h
  split at h
  case h_11 =>
    split at h
    · simp at h
    · rename_i hdigits
      obtain rfl : numberTail cs = n := by simpa using h
      exact ⟨_, fraction, isDigits_takeWhile hdigits, hfraction, .inr (by rw [htake])⟩
  case h_12 =>
    split at h
    · rename_i hdigit
      obtain rfl : numberTail cs = n := by simpa using h
      refine ⟨c :: cs.takeWhile Char.isDigit, fraction, ⟨by simp, ?_⟩, hfraction,
        .inl (by rw [htake, List.cons_append])⟩
      exact List.forall_mem_cons.mpr
        ⟨hdigit, fun d hd => List.all_eq_true.mp List.all_takeWhile d hd⟩
    · grind
  all_goals grind

/-- A word begins as words do. -/
lemma isWordStart_of_longest? {c : Char} {cs : List Char} {n : Nat}
    (h : longest? c cs = some (.ident, n)) : isWordStart c = true := by
  unfold longest? at h
  grind

/-- A token for a layout id begins with its prefix. -/
lemma isPrefix_of_longest? {c : Char} {cs : List Char} {n : Nat}
    (h : longest? c cs = some (.layoutId, n)) : ∃ name, c :: cs.take n = "id:".toList ++ name := by
  unfold longest? at h
  split at h
  case h_12 =>
    split at h
    · simp at h
    split at h
    · dsimp only at h
      split at h
      · split at h
        · obtain rfl : _ = n := (Prod.mk.inj (Option.some.inj h)).2
          exact ⟨_, by rw [Nat.add_comm]; rfl⟩
        · simp at h
      · simp at h
    · simp at h
  all_goals grind

end TokenKind

/-! ### Shaped tokens -/

namespace Token

/-- The texts that fit the kind of a token: a number is a numeral, a word begins like a word, a
layout id begins with its prefix. -/
def IsShaped (t : Token) : Prop :=
  match t.kind with
  | .number => IsNumeral t.text.toList
  | .ident => ∃ c cs, TokenKind.isWordStart c = true ∧ t.text.toList = c :: cs
  | .layoutId => ∃ name, t.text = "id:" ++ name
  | _ => True

/-- A number token has the shape of one if its text is a number. -/
lemma isShaped_number {t : Token} (h : t.kind = .number) :
    t.IsShaped ↔ IsNumeral t.text.toList := by
  simp only [IsShaped, h]

/-- A word has the shape of one if its text begins as words do. -/
lemma isShaped_ident {t : Token} (h : t.kind = .ident) :
    t.IsShaped ↔ ∃ c cs, TokenKind.isWordStart c = true ∧ t.text.toList = c :: cs := by
  simp only [IsShaped, h]

/-- A layout id has the shape of one if its text begins with the prefix. -/
lemma isShaped_layoutId {t : Token} (h : t.kind = .layoutId) :
    t.IsShaped ↔ ∃ name, t.text = "id:" ++ name := by
  simp only [IsShaped, h]

/-- The token that begins at a character is shaped. -/
lemma isShaped_of_longest? {c : Char} {cs : List Char} {kind : TokenKind} {n : Nat}
    (h : TokenKind.longest? c cs = some (kind, n)) (offset : Nat) :
    (Token.mk kind (String.ofList (c :: cs.take n)) offset).IsShaped := by
  match kind with
  | .number =>
      rw [isShaped_number rfl, String.toList_ofList]
      exact TokenKind.isNumeral_of_longest? h
  | .ident =>
      rw [isShaped_ident rfl, String.toList_ofList]
      exact ⟨c, _, TokenKind.isWordStart_of_longest? h, rfl⟩
  | .layoutId =>
      rw [isShaped_layoutId rfl]
      obtain ⟨name, hname⟩ := TokenKind.isPrefix_of_longest? h
      exact ⟨String.ofList name, by rw [hname, String.ofList_append, String.ofList_toList]⟩
  | .equalEqual | .lessEqual | .greaterEqual | .relationKeyword | .assign | .dot | .atSign
  | .parenOpen | .parenClose | .colon | .comma | .semicolon => trivial

/-- All tokens of a scan have the shape of their kind. -/
lemma isShaped_of_scanFrom {offset : Nat} {cs : List Char} {tokens : List Token}
    (h : scanFrom offset cs = .ok tokens) : ∀ t ∈ tokens, t.IsShaped := by
  induction offset, cs using scanFrom.induct generalizing tokens with
  | case1 =>
      rw [scanFrom] at h
      obtain rfl : [] = tokens := Except.ok.inj h
      simp
  | case2 offset c cs hspace ih =>
      rw [scanFrom, if_pos hspace] at h
      exact ih h
  | case3 offset c cs hspace hlongest =>
      rw [scanFrom, if_neg hspace, hlongest] at h
      cases h
  | case4 offset c cs hspace kind n hlongest lexeme e hrest =>
      rw [scanFrom, if_neg hspace, hlongest] at h
      simp only [hrest, lexeme] at h
      cases h
  | case5 offset c cs hspace kind n hlongest lexeme rest hrest =>
      rename_i ih
      rw [scanFrom, if_neg hspace, hlongest] at h
      simp only [hrest, lexeme] at h
      obtain rfl : _ :: rest = tokens := Except.ok.inj h
      exact List.forall_mem_cons.mpr ⟨isShaped_of_longest? hlongest offset, ih hrest⟩

/-- **What the scanner promises.** Every token of a scanned text is shaped. -/
theorem isShaped_of_scan {text : String} {tokens : List Token} (h : scan text = .ok tokens) :
    ∀ t ∈ tokens, t.IsShaped :=
  isShaped_of_scanFrom h

end Token

/-! ### Shaped tokens as numbers -/

namespace Numeral

/-- Digits are at least one digit. -/
lemma exists_isDigit_of_append {whole : List Char} (h : IsDigits whole) (rest : List Char) :
    ∃ c cs, c.isDigit = true ∧ whole ++ rest = c :: cs := by
  obtain ⟨hne, hall⟩ := h
  cases whole with
  | nil => exact absurd rfl hne
  | cons c cs => exact ⟨c, cs ++ rest, hall c (by simp), rfl⟩

/-- Only the two signs are taken off. -/
lemma sign_cons {c : Char} (hminus : c ≠ '-') (hplus : c ≠ '+') (cs : List Char) :
    sign (c :: cs) = (false, c :: cs) := by
  unfold sign
  split
  · rename_i h; exact absurd (List.cons.inj h).1 hminus
  · rename_i h; exact absurd (List.cons.inj h).1 hplus
  · rfl

/-- A numeral without its sign is a decimal. -/
lemma isSome_decimal? {whole fraction : List Char} (hwhole : IsDigits whole)
    (hfraction : IsFraction fraction) : (decimal? (whole ++ fraction)).isSome = true := by
  obtain ⟨hne, hdigits⟩ := hwhole
  unfold decimal?
  obtain rfl | ⟨places, ⟨-, hplaces⟩, rfl⟩ := hfraction
  · simp [List.takeWhile_eq_self_iff.mpr hdigits, List.dropWhile_eq_nil_iff.mpr hdigits, hne,
      exponent?]
  · simp [List.takeWhile_append_of_pos hdigits, List.dropWhile_append_of_pos hdigits,
      List.dropWhile_eq_nil_iff.mpr hplaces, hne, exponent?]

/-- A whole part with a fraction is read as a number. -/
lemma isSome_unsigned? {whole fraction : List Char} (hwhole : IsDigits whole)
    (hfraction : IsFraction fraction) : (unsigned? (whole ++ fraction)).isSome = true := by
  unfold unsigned?
  split
  · rfl
  split
  · rfl
  · simpa using isSome_decimal? hwhole hfraction

/-- What begins like a word denotes a number only by being one of the names of infinity and of the
undefined number. -/
lemma eq_of_unsigned?_word {c : Char} (h : TokenKind.isWordStart c = true) {cs : List Char}
    {n : Numeral} (hn : unsigned? (c :: cs) = some n) : n = .undefined ∨ n = .infinite := by
  have hdigit : c.isDigit = false := by
    rw [← Bool.not_eq_true]
    intro hdigit
    simp only [TokenKind.isWordStart, Bool.or_eq_true, beq_iff_eq] at h
    obtain h | rfl := h
    · rw [Text.isAlpha_eq_false_of_isDigit hdigit] at h
      cases h
    · simp at hdigit
  have hpoint : c ≠ '.' := by rintro rfl; simp [TokenKind.isWordStart] at h
  have hnone : decimal? (c :: cs) = none := by simp [decimal?, hdigit, hpoint]
  rw [unsigned?, hnone] at hn
  split at hn
  · exact .inl (Option.some.inj hn).symm
  split at hn
  · exact .inr (Option.some.inj hn).symm
  · cases hn

/-- Neither the undefined number nor infinity lies on the scale of priorities. -/
lemma onScale_bits {n : Numeral} (h : n = .undefined ∨ n = .infinite) :
    Priority.onScale (Float32.ofBits (n.bits .single).toUInt32) = false := by
  obtain rfl | rfl := h <;> decide

end Numeral

namespace Token.IsShaped

/-- A number token denotes a number in every format. -/
theorem exists_bits {t : Token} (h : t.IsShaped) (hkind : t.kind = .number) (f : BinaryFormat) :
    ∃ bits, Number.bitsOfText? f t.text = some bits := by
  obtain ⟨whole, fraction, hwhole, hfraction, htext⟩ := (isShaped_number hkind).mp h
  have some_unsigned := Numeral.isSome_unsigned? hwhole hfraction
  obtain ⟨n, hn⟩ := Option.isSome_iff_exists.mp some_unsigned
  obtain ⟨c, cs, hc, hcons⟩ := Numeral.exists_isDigit_of_append hwhole fraction
  unfold Number.bitsOfText?
  obtain htext | htext := htext
  · rw [htext, hcons, Numeral.sign_cons (by rintro rfl; simp at hc) (by rintro rfl; simp at hc),
      ← hcons]
    exact ⟨_, by simp only [hn]; rfl⟩
  · rw [htext]
    exact ⟨_, by simp only [Numeral.sign, hn]; rfl⟩

/-- A word that is read as a number is infinite or undefined, and so not on the scale. -/
theorem not_onScale {t : Token} (h : t.IsShaped) (hkind : t.kind = .ident) {v : Float32}
    (hv : Number.singleOfText? t.text = some v) : Priority.onScale v = false := by
  obtain ⟨c, cs, hstart, htext⟩ := (isShaped_ident hkind).mp h
  have hsign : Numeral.sign t.text.toList = (false, c :: cs) := by
    rw [htext, Numeral.sign_cons] <;> rintro rfl <;> simp [TokenKind.isWordStart] at hstart
  unfold Number.singleOfText? Number.bitsOfText? at hv
  rw [hsign] at hv
  obtain ⟨bits, hbits, rfl⟩ := Option.map_eq_some_iff.mp hv
  obtain ⟨n, hn, rfl⟩ := Option.map_eq_some_iff.mp hbits
  exact Numeral.onScale_bits (Numeral.eq_of_unsigned?_word hstart hn)

end Token.IsShaped

end ViewMarkup
