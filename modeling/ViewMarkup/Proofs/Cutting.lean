import Mathlib.Data.List.DropRight
import ViewMarkup.Text.Blank

/-!
# Texts that are cut and trimmed

Blanks are dropped at both ends of a text and nowhere else, so a text without blanks there stays as it is,
and trimming it again changes nothing. A text is cut at the first separator, or at all of them; what is put
together around separators is cut into the same parts, if the parts have none in them.

## Main definitions

* `Text.IsTrimmed` — a text with no blank at its ends.

## Main statements

* `Text.isTrimmed_trimChars`, `Text.IsTrimmed.trimChars_eq` — trimming a text, and trimming it again.
* `Text.cutAt?_eq_some_iff` — the first separator of a text.
* `Text.pieces_eq_singleton` — a text without a separator is one part.
-/

namespace ViewMarkup.Text

variable {sep : Char} {cs ds as : List Char}

/-! ### The first separator -/

/-- A text is not cut where there is no separator. -/
lemma cutAt?_eq_none_iff : cutAt? sep cs = none ↔ sep ∉ cs := by
  induction cs with
  | nil => simp [cutAt?]
  | cons c cs ih =>
    rw [cutAt?]
    by_cases hc : c = sep
    · simp [hc]
    · simp [hc, ih, Ne.symm hc]

/-- A text is cut at its first separator. -/
lemma cutAt?_append_cons (h : sep ∉ cs) : cutAt? sep (cs ++ sep :: ds) = some (cs, ds) := by
  induction cs with
  | nil => simp [cutAt?]
  | cons c cs ih =>
    rw [List.mem_cons, not_or] at h
    rw [List.cons_append, cutAt?, if_neg (Ne.symm h.1), ih h.2]
    rfl

/-- Where a text is cut, and what is in front and behind. -/
theorem cutAt?_eq_some_iff : cutAt? sep as = some (cs, ds) ↔ sep ∉ cs ∧ as = cs ++ sep :: ds := by
  constructor
  · intro h
    by_cases hmem : sep ∈ as
    · obtain ⟨cs', ds', rfl, hcs⟩ := List.eq_append_cons_of_mem hmem
      rw [cutAt?_append_cons hcs] at h
      cases h
      exact ⟨hcs, rfl⟩
    · rw [cutAt?_eq_none_iff.2 hmem] at h
      cases h
  · rintro ⟨hcs, rfl⟩
    exact cutAt?_append_cons hcs

/-! ### All separators -/

/-- A text without separators is one piece. -/
theorem pieces_eq_singleton {p : Char → Bool} (h : ∀ c ∈ cs, p c = false) : pieces p cs = [cs] := by
  induction cs with
  | nil => rfl
  | cons c cs ih =>
    rw [List.forall_mem_cons] at h
    simp [pieces, h.1, ih h.2]

/-! ### Blanks at the ends -/

/-- No blank stands at either end. -/
structure IsTrimmed (cs : List Char) : Prop where
  /-- Not at the beginning. -/
  head : ∀ c ∈ cs.head?, isBlank c = false
  /-- Not at the end. -/
  last : ∀ c ∈ cs.getLast?, isBlank c = false

/-- Trimming makes nothing up. -/
lemma mem_of_mem_trimChars {c : Char} (h : c ∈ trimChars cs) : c ∈ cs := by
  rw [trimChars, dropTrailing, List.mem_reverse] at h
  have h := (List.dropWhile_sublist _).subset h
  exact (List.dropWhile_sublist _).subset (List.mem_reverse.1 h)

/-- A text without blanks is trimmed. -/
lemma isTrimmed_of_forall (h : ∀ c ∈ cs, isBlank c = false) : IsTrimmed cs :=
  ⟨fun c hc => h c (List.mem_of_mem_head? hc), fun c hc => h c (List.mem_of_mem_getLast? hc)⟩

/-- What has been trimmed has no blank at its ends. -/
theorem isTrimmed_trimChars (cs : List Char) : IsTrimmed (trimChars cs) := by
  change IsTrimmed ((cs.dropWhile isBlank).rdropWhile isBlank)
  constructor
  · intro c hc
    have hhead : c ∈ (cs.dropWhile isBlank).head? := by
      obtain ⟨ds, hds⟩ := List.rdropWhile_prefix isBlank (l := cs.dropWhile isBlank)
      rw [← hds, List.head?_append, Option.mem_def.1 hc]
      rfl
    have hnot := List.head?_dropWhile_not isBlank cs
    rw [Option.mem_def.1 hhead] at hnot
    simpa using hnot
  · intro c hc
    obtain ⟨hne, rfl⟩ := List.mem_getLast?_eq_getLast hc
    exact Bool.eq_false_iff.2 (List.rdropWhile_last_not isBlank _ hne)

/-- What has no blank at its ends stays as it is. -/
theorem IsTrimmed.trimChars_eq (h : IsTrimmed cs) : trimChars cs = cs := by
  have hhead : cs.dropWhile isBlank = cs := by
    cases cs with
    | nil => rfl
    | cons c cs => exact List.dropWhile_cons_of_neg (by simp [h.head c rfl])
  rw [trimChars, hhead]
  exact List.rdropWhile_eq_self_iff.2 fun hne => by
    simp [h.last _ (List.getLast_mem_getLast? hne)]

/-- A trimmed text stays as it is. -/
lemma trim_eq_self {s : String} (h : IsTrimmed s.toList) : trim s = s := by
  rw [trim, h.trimChars_eq, String.ofList_toList]

/-- Trimming twice is trimming once. -/
lemma trim_trim (s : String) : trim (trim s) = trim s :=
  trim_eq_self (by rw [trim, String.toList_ofList]; exact isTrimmed_trimChars _)

/-- Blanks in front do not matter. -/
lemma trimChars_cons {c : Char} (h : isBlank c = true) (cs : List Char) :
    trimChars (c :: cs) = trimChars cs := by
  rw [trimChars, List.dropWhile_cons_of_pos h, trimChars]

end ViewMarkup.Text
