import ViewMarkup.Proofs.Constraint.Parsing
import ViewMarkup.Proofs.Source.Setters

/-!
# Words of the constraint language

A word of the constraint language begins with a letter or an underscore and goes on with letters,
digits and underscores. So a word that is an identifier is one without any mark, comment or blank,
and different words are different identifiers. The names under which constraints are captured are
words.

## Main definitions

* `Token.IsWord` — a text is a word.

## Main statements

* `Token.isWord_of_scan` — the tokens that are words.
* `Constraint.isWord_captureName` — the names of captured constraints.
* `Token.IsWord.eq_of_ofText?` — the identifier that a word is.
-/

namespace ViewMarkup

namespace TokenKind

/-- The longest token that is a word has only characters of words. -/
lemma isWordPart_of_longest? {c : Char} {cs : List Char} {n : Nat}
    (h : longest? c cs = some (.ident, n)) : ∀ d ∈ cs.take n, isWordPart d = true := by
  have word : ∀ d ∈ cs.take (span isWordPart cs), isWordPart d = true := by
    rw [take_span]
    exact fun d hd => List.all_eq_true.mp List.all_takeWhile d hd
  unfold longest? at h
  split at h
  case h_12 =>
    split at h
    · cases h
    split at h
    · dsimp only at h
      split at h
      · split at h
        · cases h
        · cases h
          exact word
      · cases h
        exact word
    · cases h
  all_goals grind

end TokenKind

namespace Token

/-- A text is a word. -/
def IsWord (text : String) : Prop :=
  ∃ c cs, text.toList = c :: cs ∧ TokenKind.isWordStart c = true ∧
    ∀ d ∈ cs, TokenKind.isWordPart d = true

/-- The words that are scanned are words. -/
lemma isWord_of_scanFrom {offset : Nat} {cs : List Char} {tokens : List Token}
    (h : scanFrom offset cs = .ok tokens) : ∀ t ∈ tokens, t.kind = .ident → IsWord t.text := by
  induction offset, cs using scanFrom.induct generalizing tokens with
  | case1 =>
    rw [scanFrom] at h
    cases h
    exact fun _ ht => (List.not_mem_nil ht).elim
  | case2 offset c cs hspace ih =>
    rw [scanFrom, if_pos hspace] at h
    exact ih h
  | case3 offset c cs hspace hlongest =>
    rw [scanFrom, if_neg hspace, hlongest] at h
    cases h
  | case4 offset c cs hspace kind n hlongest lexeme e hrest =>
    rw [scanFrom, if_neg hspace, hlongest] at h
    simp only [hrest, lexeme] at h
    cases h
  | case5 offset c cs hspace kind n hlongest lexeme rest hrest =>
    rename_i ih
    rw [scanFrom, if_neg hspace, hlongest] at h
    simp only [hrest, lexeme] at h
    cases h
    refine List.forall_mem_cons.2 ⟨fun hkind => ?_, ih hrest⟩
    subst hkind
    exact ⟨c, cs.take n, String.toList_ofList, TokenKind.isWordStart_of_longest? hlongest,
      TokenKind.isWordPart_of_longest? hlongest⟩

/-- The tokens of a scanned text that are to be words are words. -/
theorem isWord_of_scan {text : String} {tokens : List Token} (h : scan text = .ok tokens) :
    ∀ t ∈ tokens, t.kind = .ident → IsWord t.text :=
  isWord_of_scanFrom h

end Token

/-- **The names of captured constraints** are words. -/
theorem Constraint.isWord_captureName {name text : String} {cs : List Constraint}
    (h : ofText name text = .ok cs) :
    ∀ c ∈ cs, ∀ x, c.captureName = some x → Token.IsWord x := by
  obtain ⟨keyword, tokens, -, htokens, ds, hds, -, rfl⟩ := ofText_eq_ok_iff.1 h
  intro c hc x hx
  obtain ⟨d, hd, hc⟩ := List.mem_flatMap.1 hc
  obtain ⟨anchor, -, rfl⟩ := List.mem_map.1 hc
  obtain ⟨capture, hcapture, rfl⟩ := Option.map_eq_some_iff.1 hx
  have hm : capture.name ∈ d.tokens := by
    rw [Derivation.tokens, hcapture, optional_some, Capture.tokens]
    simp
  exact Token.isWord_of_scan htokens _
    (Grammar.mem_of_mem_segments (hds ▸ List.mem_map_of_mem hd) hm) capture.isIdent

/-! ### Words that are identifiers -/

namespace Token.IsWord

open Identifier

/-- Words begin with a character between the first capital and the last small letter. -/
lemma toNat_of_isWordStart {c : Char} (h : TokenKind.isWordStart c = true) :
    65 ≤ c.toNat ∧ c.toNat ≤ 122 := by
  simp only [TokenKind.isWordStart, Char.isAlpha, Char.isUpper, Char.isLower, Bool.or_eq_true,
    Bool.and_eq_true, decide_eq_true_eq, ge_iff_le, UInt32.le_iff_toNat_le, beq_iff_eq] at h
  change 65 ≤ c.val.toNat ∧ c.val.toNat ≤ 122
  have upper : 'Z'.val.toNat = 90 := rfl
  have capital : 'A'.val.toNat = 65 := rfl
  have lower : 'z'.val.toNat = 122 := rfl
  have small : 'a'.val.toNat = 97 := rfl
  rcases h with (h | h) | rfl
  · omega
  · omega
  · exact ⟨by decide, by decide⟩

/-- What goes on a word may stand in a name. -/
lemma isNamePart_of_isWordPart {c : Char} (h : TokenKind.isWordPart c = true) :
    Text.isNamePart c = true := by
  have ascii : c.toNat < 0x80 := by
    simp only [TokenKind.isWordPart, Char.isAlphanum, Char.isAlpha, Char.isUpper, Char.isLower,
      Char.isDigit, Bool.or_eq_true, Bool.and_eq_true, decide_eq_true_eq, ge_iff_le,
      UInt32.le_iff_toNat_le, beq_iff_eq] at h
    change c.val.toNat < 0x80
    have upper : 'Z'.val.toNat = 90 := rfl
    have lower : 'z'.val.toNat = 122 := rfl
    have digit : '9'.val.toNat = 57 := rfl
    rcases h with ((h | h) | h) | rfl
    · omega
    · omega
    · omega
    · decide
  rw [Text.isNamePart, if_pos ascii]
  exact h

/-- No blank or comment is at the beginning of a word. -/
lemma afterBlanks_eq {c : Char} (h : TokenKind.isWordStart c = true) (cs : List Char) :
    afterBlanks (c :: cs) = c :: cs := by
  have hrange := toNat_of_isWordStart h
  have hslash : ¬ '/' = c := by
    rintro rfl
    revert hrange
    decide
  have hcomment : comment? (c :: cs) = none := by
    simp [comment?, begins, Text.after?, hslash]
  have hgap : isGap c = false := by
    have hmark : ∀ m : Char, 122 < m.toNat → (c == m) = false := fun m hm =>
      beq_eq_false_iff_ne.2 fun he => by rw [he] at hrange; omega
    rw [isGap, hmark _ (by decide), hmark _ (by decide), Text.isBlank]
    simp
    omega
  rw [afterBlanks, hcomment]
  simp [hgap]

/-- **A word that is an identifier** is one by itself. -/
theorem eq_of_ofText? {text : String} (h : IsWord text) {i : Identifier}
    (hi : ofText? text = some i) : i = ⟨false, text⟩ := by
  obtain ⟨c, cs, htext, hstart, hparts⟩ := h
  have hrange := toNat_of_isWordStart hstart
  have hnames : ∀ d ∈ cs, Text.isNamePart d = true := fun d hd =>
    isNamePart_of_isWordPart (hparts d hd)
  have hbegin : Identifier.isStart c = true := by
    have ascii : c.toNat < 0x80 := by omega
    rw [Identifier.isStart, Text.isNameStart, if_pos ascii, Bool.or_comm]
    exact hstart
  have hname : readName? (c :: cs) = some (text, []) := by
    rw [readName?, if_pos hbegin, List.takeWhile_eq_self_iff.2 hnames,
      List.dropWhile_eq_nil_iff.2 hnames, ← htext, String.ofList_toList]
  have hplain : Text.after? rawMark.toList (c :: cs) = none := by
    -- the mark has a sign in it that no word has
    cases cs with
    | nil => by_cases hc : 'r' = c <;> simp [rawMark, Text.after?, hc]
    | cons d ds =>
      have hd : ¬ '#' = d := by
        rintro rfl
        exact absurd (hparts '#' List.mem_cons_self) (by decide)
      by_cases hc : 'r' = c <;> simp [rawMark, Text.after?, hc, hd]
  have gone : afterBlanks [] = [] := by rw [afterBlanks]
  unfold ofText? at hi
  rw [htext] at hi
  split at hi
  · next hmark =>
    rw [List.head_eq_of_cons_eq hmark] at hrange
    exact absurd hrange (by decide)
  · simp only [afterBlanks_eq hstart, read?, hplain, hname] at hi
    split at hi
    · next hread =>
      split at hread
      · cases hread
      · cases hread
        simp only [gone, List.isEmpty_nil, if_true] at hi
        exact (Option.some.inj hi).symm
    · cases hi

end Token.IsWord

end ViewMarkup
