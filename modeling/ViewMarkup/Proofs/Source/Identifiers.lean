import Mathlib.Data.List.TakeWhile
import ViewMarkup.Source.Build

/-!
# Plain identifiers

A text that is written like a name, with nothing around it and no mark in front of it, reads as the
identifier of that name, unless it is a keyword. Only such texts read as themselves: other texts
read as identifiers that are written in another way. Plain texts can be put together with underscores
and numbered, and what comes out is plain again.

## Main definitions

* `Identifier.IsPlain` — a text is written like a name.

## Main statements

* `Identifier.ofText?_eq_self_iff` — the texts that read as themselves.
* `Identifier.IsPlain.eq_of_ofText?` — the identifier that a plain text is.
* `Identifier.IsPlain.append`, `Identifier.IsPlain.numbered` — plain texts that are put together.
-/

namespace ViewMarkup

namespace Identifier

/-- A text is written like a name: nothing is around it and no mark stands in front of it. It may be
a keyword. -/
def IsPlain (text : String) : Prop :=
  ∃ c cs, text.toList = c :: cs ∧ isStart c = true ∧ ∀ d ∈ cs, Text.isNamePart d = true

/-! ### Characters of names -/

/-- No name begins with a blank. -/
lemma isGap_of_isStart {c : Char} (h : isStart c = true) : isGap c = false := by
  have apart : ∀ n ∈ [0x09, 0x0A, 0x0B, 0x0C, 0x0D, 0x20, 0x85, 0xA0, 0x1680, 0x2000, 0x2001,
      0x2002, 0x2003, 0x2004, 0x2005, 0x2006, 0x2007, 0x2008, 0x2009, 0x200A, 0x2028, 0x2029,
      0x202F, 0x205F, 0x3000, 0x200E, 0x200F], isStart (Char.ofNat n) = false := by
    decide +kernel
  refine Bool.eq_false_iff.2 fun hgap => ?_
  have := apart c.toNat ?_
  · rw [Char.ofNat_toNat, h] at this
    cases this
  · simp only [isGap, Text.isBlank, Bool.or_eq_true, Bool.and_eq_true, decide_eq_true_eq,
      beq_iff_eq] at hgap
    have left : '\u200e'.toNat = 0x200E := rfl
    have right : '\u200f'.toNat = 0x200F := rfl
    simp only [List.mem_cons, List.not_mem_nil, or_false]
    rcases hgap with (hgap | rfl) | rfl
    · omega
    · omega
    · omega

/-- What may begin a name may stand in it. -/
lemma isNamePart_of_isStart {c : Char} (h : isStart c = true) : Text.isNamePart c = true := by
  rw [isStart, Bool.or_eq_true, beq_iff_eq] at h
  rcases h with rfl | h
  · rfl
  · rw [Text.isNameStart] at h
    rw [Text.isNamePart]
    split
    · next hascii =>
      rw [if_pos hascii] at h
      rw [Char.isAlphanum, h]
      rfl
    · next hascii =>
      rw [if_neg hascii] at h
      rw [h, Bool.true_or]

/-- A digit may stand in a name. -/
lemma isNamePart_of_isDigit {c : Char} (h : c.isDigit = true) : Text.isNamePart c = true := by
  have ascii : c.toNat < 0x80 := by
    simp only [Char.isDigit, Bool.and_eq_true, decide_eq_true_eq, ge_iff_le,
      UInt32.le_iff_toNat_le] at h
    change c.val.toNat < 0x80
    have digit : '9'.val.toNat = 57 := rfl
    omega
  rw [Text.isNamePart, if_pos ascii, Char.isAlphanum, h, Bool.or_true, Bool.true_or]

/-- No blank or comment is where a name begins. -/
lemma afterBlanks_eq {c : Char} (h : isStart c = true) (cs : List Char) :
    afterBlanks (c :: cs) = c :: cs := by
  have hslash : ¬ '/' = c := by
    rintro rfl
    exact absurd h (by decide)
  have hcomment : comment? (c :: cs) = none := by
    simp [comment?, begins, Text.after?, hslash]
  rw [afterBlanks, hcomment]
  simp [isGap_of_isStart h]

/-! ### Reading plain texts -/

/-- What is read is a plain text. -/
lemma isPlain_of_readName? {cs rest : List Char} {name : String}
    (h : readName? cs = some (name, rest)) : IsPlain name := by
  cases cs with
  | nil => cases h
  | cons c cs =>
    rw [readName?] at h
    split at h
    · next hstart =>
      cases h
      exact ⟨c, _, String.toList_ofList, hstart, fun d hd =>
        List.all_eq_true.mp List.all_takeWhile d hd⟩
    · cases h

/-- An identifier without the mark is a plain text that is no keyword. -/
lemma isPlain_of_read? {cs rest : List Char} {name : String}
    (h : read? cs = some (⟨false, name⟩, rest)) : IsPlain name ∧ name ∉ keywords := by
  unfold read? at h
  split at h
  · split at h
    · split at h <;> cases h
    · cases h
  · split at h
    · next hname =>
      split at h
      · cases h
      · next hkeyword =>
        cases h
        exact ⟨isPlain_of_readName? hname, hkeyword⟩
    · cases h

namespace IsPlain

variable {text : String}

/-- A plain text is read to its end. -/
lemma read?_eq (h : IsPlain text) :
    read? text.toList = if text ∈ keywords then none else some (⟨false, text⟩, []) := by
  obtain ⟨c, cs, htext, hstart, hparts⟩ := h
  have hname : readName? (c :: cs) = some (text, []) := by
    rw [readName?, if_pos hstart, List.takeWhile_eq_self_iff.2 hparts,
      List.dropWhile_eq_nil_iff.2 hparts, ← htext, String.ofList_toList]
  have hmark : Text.after? rawMark.toList (c :: cs) = none := by
    -- the mark has a sign in it that no name has
    cases cs with
    | nil => by_cases hc : 'r' = c <;> simp [rawMark, Text.after?, hc]
    | cons d ds =>
      have hd : ¬ '#' = d := by
        rintro rfl
        exact absurd (hparts '#' List.mem_cons_self) (by decide)
      by_cases hc : 'r' = c <;> simp [rawMark, Text.after?, hc, hd]
  rw [htext, read?, hmark]
  simp only [hname]

/-- What a plain text reads as. -/
lemma ofText?_eq (h : IsPlain text) :
    ofText? text = if text ∈ keywords then none else some ⟨false, text⟩ := by
  have hread := h.read?_eq
  obtain ⟨c, cs, htext, hstart, -⟩ := h
  have gone : afterBlanks [] = [] := by rw [afterBlanks]
  unfold ofText?
  rw [htext] at hread ⊢
  split
  · next hmark =>
    rw [List.head_eq_of_cons_eq hmark] at hstart
    exact absurd hstart (by decide +kernel)
  · simp only [afterBlanks_eq hstart, hread]
    split
    · next hkeyword =>
      split at hkeyword
      · cases hkeyword
      · next hne =>
        cases hkeyword
        rw [if_neg hne, if_pos (by rw [gone]; rfl)]
    · next hkeyword =>
      split at hkeyword
      · next hm => rw [if_pos hm]
      · cases hkeyword

/-- **A plain text that is an identifier** is the one of that name. -/
theorem eq_of_ofText? (h : IsPlain text) {i : Identifier} (hi : ofText? text = some i) :
    i = ⟨false, text⟩ := by
  rw [h.ofText?_eq] at hi
  split at hi
  · cases hi
  · exact (Option.some.inj hi).symm

/-! ### Putting plain texts together -/

/-- More characters of names may follow. -/
lemma append_of_forall (h : IsPlain text) {more : String}
    (hmore : ∀ d ∈ more.toList, Text.isNamePart d = true) : IsPlain (text ++ more) := by
  obtain ⟨c, cs, htext, hstart, hparts⟩ := h
  refine ⟨c, cs ++ more.toList, ?_, hstart, List.forall_mem_append.2 ⟨hparts, hmore⟩⟩
  rw [String.toList_append, htext, List.cons_append]

/-- The characters of a plain text may stand in a name. -/
lemma forall_isNamePart (h : IsPlain text) : ∀ d ∈ text.toList, Text.isNamePart d = true := by
  obtain ⟨c, cs, htext, hstart, hparts⟩ := h
  rw [htext]
  exact List.forall_mem_cons.2 ⟨isNamePart_of_isStart hstart, hparts⟩

/-- So may the underscore. -/
lemma forall_isNamePart_underscore : ∀ d ∈ "_".toList, Text.isNamePart d = true :=
  List.forall_mem_singleton.2 rfl

/-- **Two plain texts with an underscore between them** are a plain text. -/
theorem append {text' : String} (h : IsPlain text) (h' : IsPlain text') :
    IsPlain (text ++ "_" ++ text') :=
  (h.append_of_forall forall_isNamePart_underscore).append_of_forall h'.forall_isNamePart

/-- **A plain text with a number** is a plain text. -/
theorem numbered (h : IsPlain text) (n : Nat) : IsPlain (Draft.numbered text n) := by
  refine (h.append_of_forall forall_isNamePart_underscore).append_of_forall fun d hd => ?_
  rw [Nat.repr, String.toList_ofList] at hd
  exact isNamePart_of_isDigit (Nat.isDigit_of_mem_toDigits (by decide) (by decide) hd)

end IsPlain

/-- **The texts that read as themselves** are the plain ones that are no keywords. -/
theorem ofText?_eq_self_iff {text : String} :
    ofText? text = some ⟨false, text⟩ ↔ IsPlain text ∧ text ∉ keywords := by
  constructor
  · intro h
    unfold ofText? at h
    dsimp only at h
    split at h
    · next hread =>
      split at h
      · cases h
        exact isPlain_of_read? hread
      · cases h
    · cases h
  · rintro ⟨hplain, hkeyword⟩
    rw [hplain.ofText?_eq, if_neg hkeyword]

end Identifier

end ViewMarkup
