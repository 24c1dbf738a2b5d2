import ViewMarkup.Proofs.Constraint.Lexing

/-!
# Reading by longest match

The tokens of the constraint language are given by fifteen patterns. Several of them begin alike: a word, a
layout id; a colon, a relation; a number with a fraction, a number and a point. So a scanner has to look ahead
and to go back: what begins like a layout id may turn out to be a word, a colon and a blank. Which token
stands at a position is told by the patterns alone: of all texts that begin there and fit some pattern the
longest one is taken.

## Main definitions

* `Pattern`, `TokenKind.pattern` — the patterns, and the one of each kind of token.
* `TokenKind.IsLongest` — a text is the longest that fits a pattern at a position, and of which kind.
* `Token.Reads` — reading by longest match goes from one position to another.

## Main statements

* `TokenKind.isLongest_of_longest?`, `TokenKind.not_matches_of_longest?` — what is found at a position.
* `Token.scanFrom_eq_ok_iff`, `Token.scanFrom_eq_error_iff` — what a scan comes to.
* `Token.scan_spec` — a scan reads by longest match.
-/

namespace ViewMarkup

open Text

/-! ### Patterns -/

/-- A pattern of texts. -/
inductive Pattern where
  /-- A given text. -/
  | text (cs : List Char)
  /-- One character of a class. -/
  | one (p : Char → Bool)
  /-- Any number of characters of a class. -/
  | many (p : Char → Bool)
  /-- One pattern after another. -/
  | seq (a b : Pattern)
  /-- A pattern or nothing. -/
  | maybe (a : Pattern)

namespace Pattern

/-- The texts that fit a pattern. -/
def Matches : Pattern → List Char → Prop
  | text cs, w => w = cs
  | one p, w => ∃ c, p c = true ∧ w = [c]
  | many p, w => ∀ c ∈ w, p c = true
  | seq a b, w => ∃ u v, a.Matches u ∧ b.Matches v ∧ w = u ++ v
  | maybe a, w => w = [] ∨ a.Matches w

/-- One character of a class and any number of another class. -/
def run (first more : Char → Bool) : Pattern := seq (one first) (many more)

/-- What a run matches: one character that begins it, and others that go on. -/
lemma matches_run {first more : Char → Bool} {w : List Char} :
    (run first more).Matches w ↔
      ∃ c v, first c = true ∧ (∀ d ∈ v, more d = true) ∧ w = c :: v := by
  constructor
  · rintro ⟨_, v, ⟨c, hc, rfl⟩, hv, rfl⟩
    exact ⟨c, v, hc, hv, rfl⟩
  · rintro ⟨c, v, hc, hv, rfl⟩
    exact ⟨[c], v, ⟨c, hc, rfl⟩, hv, rfl⟩

/-- What a fixed text with something behind it matches. -/
lemma matches_text_seq {cs : List Char} {a : Pattern} {w : List Char} :
    (seq (text cs) a).Matches w ↔ ∃ v, a.Matches v ∧ w = cs ++ v :=
  ⟨fun ⟨_, v, hu, hv, hw⟩ => ⟨v, hv, hu ▸ hw⟩, fun ⟨v, hv, hw⟩ => ⟨cs, v, rfl, hv, hw⟩⟩

end Pattern

namespace TokenKind

open Pattern

/-- The pattern of digits. -/
def digits : Pattern := run Char.isDigit Char.isDigit

/-- The pattern of a word. -/
def word : Pattern := run isWordStart isWordPart

/-- The pattern of each kind of token. -/
def pattern : TokenKind → Pattern
  | equalEqual => text ['=', '=']
  | lessEqual => text ['<', '=']
  | greaterEqual => text ['>', '=']
  | layoutId => seq (text ['i', 'd', ':']) word
  | relationKeyword => seq (text [':']) (run isLetter isLetter)
  | number => seq (maybe (text ['-'])) (seq digits (maybe (seq (text ['.']) digits)))
  | ident => word
  | assign => text ['=']
  | dot => text ['.']
  | atSign => text ['@']
  | parenOpen => text ['(']
  | parenClose => text [')']
  | colon => text [':']
  | comma => text [',']
  | semicolon => text [';']

/-- A text fits the pattern of a kind. -/
def Matches (kind : TokenKind) (w : List Char) : Prop := kind.pattern.Matches w

/-- Digits are matched by digits. -/
lemma matches_digits {w : List Char} : digits.Matches w ↔ IsDigits w := by
  rw [digits, matches_run]
  constructor
  · rintro ⟨c, v, hc, hv, rfl⟩
    exact ⟨List.cons_ne_nil _ _, List.forall_mem_cons.2 ⟨hc, hv⟩⟩
  · rintro ⟨hne, hall⟩
    obtain ⟨c, v, rfl⟩ := List.exists_cons_of_ne_nil hne
    exact ⟨c, v, (List.forall_mem_cons.1 hall).1, (List.forall_mem_cons.1 hall).2, rfl⟩

/-- A number is matched by its pattern. -/
lemma matches_number {w : List Char} : number.Matches w ↔ IsNumeral w := by
  have behind : ∀ v, (seq digits (maybe (seq (text ['.']) digits))).Matches v ↔
      ∃ whole fraction, IsDigits whole ∧ IsFraction fraction ∧ v = whole ++ fraction := fun v => by
    refine exists₂_congr fun whole fraction => and_congr matches_digits (and_congr ?_ Iff.rfl)
    refine or_congr Iff.rfl (matches_text_seq.trans (exists_congr fun places => ?_))
    exact and_congr matches_digits Iff.rfl
  constructor
  · rintro ⟨sign, v, hsign, hv, rfl⟩
    obtain ⟨whole, fraction, hw, hf, rfl⟩ := (behind v).1 hv
    refine ⟨whole, fraction, hw, hf, ?_⟩
    rcases hsign with rfl | rfl
    · exact .inl rfl
    · exact .inr rfl
  · rintro ⟨whole, fraction, hw, hf, hsign⟩
    have hv := (behind _).2 ⟨whole, fraction, hw, hf, rfl⟩
    rcases hsign with rfl | rfl
    · exact ⟨[], _, .inl rfl, hv, rfl⟩
    · exact ⟨['-'], _, .inr rfl, hv, rfl⟩

/-- What the pattern of a word matches. -/
lemma matches_ident {w : List Char} :
    ident.Matches w ↔
      ∃ c v, isWordStart c = true ∧ (∀ d ∈ v, isWordPart d = true) ∧ w = c :: v := matches_run

/-- What the pattern of a layout id matches. -/
lemma matches_layoutId {w : List Char} :
    layoutId.Matches w ↔ ∃ name, ident.Matches name ∧ w = ['i', 'd', ':'] ++ name := matches_text_seq

/-- What the pattern of a relation in words matches. -/
lemma matches_relationKeyword {w : List Char} :
    relationKeyword.Matches w ↔
      ∃ c v, isLetter c = true ∧ (∀ d ∈ v, isLetter d = true) ∧ w = ':' :: c :: v := by
  refine matches_text_seq.trans ⟨?_, ?_⟩
  · rintro ⟨_, h, rfl⟩
    obtain ⟨c, v, hc, hv, rfl⟩ := matches_run.1 h
    exact ⟨c, v, hc, hv, rfl⟩
  · rintro ⟨c, v, hc, hv, rfl⟩
    exact ⟨c :: v, matches_run.2 ⟨c, v, hc, hv, rfl⟩, rfl⟩

/-! ### The longest text at a position -/

/-- **A text is the longest at a position**: it fits the pattern of a kind and of no other one, and nothing
longer that begins there fits any. -/
structure IsLongest (kind : TokenKind) (w rest : List Char) : Prop where
  /-- It fits the pattern. -/
  fits : kind.Matches w
  /-- Nothing longer fits any. -/
  longest : ∀ kind' w', w' <+: w ++ rest → Matches kind' w' → w'.length ≤ w.length
  /-- It fits no other one. -/
  only : ∀ kind', Matches kind' w → kind' = kind

/-- The characters that a kind of token may begin with. -/
def mayBegin : TokenKind → Char → Bool
  | equalEqual, c | assign, c => c == '='
  | lessEqual, c => c == '<'
  | greaterEqual, c => c == '>'
  | layoutId, c => c == 'i'
  | relationKeyword, c | colon, c => c == ':'
  | number, c => c == '-' || c.isDigit
  | ident, c => isWordStart c
  | dot, c => c == '.'
  | atSign, c => c == '@'
  | parenOpen, c => c == '('
  | parenClose, c => c == ')'
  | comma, c => c == ','
  | semicolon, c => c == ';'

variable {kind : TokenKind} {c : Char} {cs v w rest : List Char} {n : Nat}

/-- A token is not empty, and it begins with a character that may begin one of its kind. -/
lemma exists_cons_of_matches (h : kind.Matches w) : ∃ c v, w = c :: v ∧ kind.mayBegin c = true := by
  cases kind with
  | layoutId =>
    obtain ⟨name, -, rfl⟩ := matches_layoutId.1 h
    exact ⟨_, _, rfl, rfl⟩
  | relationKeyword =>
    obtain ⟨d, v, -, -, rfl⟩ := matches_relationKeyword.1 h
    exact ⟨_, _, rfl, rfl⟩
  | number =>
    obtain ⟨whole, fraction, hw, -, rfl | rfl⟩ := matches_number.1 h
    · obtain ⟨d, v, hd, he⟩ := Numeral.exists_isDigit_of_append hw fraction
      exact ⟨d, v, he, by rw [mayBegin, hd, Bool.or_true]⟩
    · exact ⟨_, _, rfl, rfl⟩
  | ident =>
    obtain ⟨d, v, hd, -, rfl⟩ := matches_ident.1 h
    exact ⟨d, v, rfl, hd⟩
  | equalEqual | lessEqual | greaterEqual | assign | dot | atSign | parenOpen | parenClose | colon
  | comma | semicolon => exact ⟨_, _, h, rfl⟩

/-- The first character of a token may begin one of its kind. -/
lemma mayBegin_of_matches (h : kind.Matches (c :: v)) : kind.mayBegin c = true := by
  obtain ⟨d, v', he, hd⟩ := exists_cons_of_matches h
  rwa [(List.cons.inj he).1]

/-- An equals sign begins an equality or an assignment. -/
lemma eq_of_mayBegin_equal (h : kind.mayBegin '=' = true) : kind = equalEqual ∨ kind = assign := by
  revert h
  cases kind <;> decide

/-- A colon begins a relation in words or stands alone. -/
lemma eq_of_mayBegin_colon (h : kind.mayBegin ':' = true) : kind = relationKeyword ∨ kind = colon := by
  revert h
  cases kind <;> decide

/-- A prefix that passes a test is within its span. -/
lemma length_le_span {p : Char → Bool} (hv : v <+: cs) (hp : ∀ d ∈ v, p d = true) :
    v.length ≤ span p cs := by
  obtain ⟨rest, rfl⟩ := hv
  rw [span, List.takeWhile_append_of_pos hp, List.length_append]
  exact Nat.le_add_right _ _

/-- A span is within the list. -/
lemma span_le (p : Char → Bool) (cs : List Char) : span p cs ≤ cs.length :=
  (List.takeWhile_sublist p).length_le

/-- So is what can follow the first digit of a number. -/
lemma numberTail_le (cs : List Char) : numberTail cs ≤ cs.length := by
  have hspan := span_le Char.isDigit cs
  unfold numberTail
  dsimp only
  split
  · next fraction hdrop =>
    have hlen := congrArg List.length hdrop
    rw [List.length_drop, List.length_cons] at hlen
    have := span_le Char.isDigit fraction
    split <;> omega
  · exact hspan

/-- No digits with a fraction go on further. -/
lemma length_le_numberTail {whole fraction : List Char} (hv : whole ++ fraction <+: cs)
    (hw : ∀ d ∈ whole, d.isDigit = true) (hf : IsFraction fraction) :
    (whole ++ fraction).length ≤ numberTail cs := by
  have hle := length_le_span ((List.prefix_append whole fraction).trans hv) hw
  rcases hf with rfl | ⟨places, ⟨hne, hall⟩, rfl⟩
  · rw [List.append_nil]
    unfold numberTail
    dsimp only
    split
    · split <;> omega
    · exact hle
  · -- The point ends the digits, and those behind it are all taken.
    obtain ⟨rest, rfl⟩ := hv
    have hspan : span Char.isDigit (whole ++ '.' :: places ++ rest) = whole.length := by
      rw [span, List.append_assoc, List.takeWhile_append_of_pos hw, List.cons_append,
        List.takeWhile_cons_of_neg (by decide), List.append_nil]
    have hplaces := length_le_span (List.prefix_append places rest) hall
    have hpos := List.length_pos_iff.2 hne
    have hdrop : (whole ++ '.' :: places ++ rest).drop whole.length = '.' :: (places ++ rest) := by
      rw [List.append_assoc, List.drop_left, List.cons_append]
    unfold numberTail
    simp only [hspan, hdrop]
    rw [if_neg (by omega), List.length_append, List.length_cons]
    omega

/-- What is found at a position, with what it is compared with. -/
structure IsBest (kind : TokenKind) (c : Char) (cs : List Char) (n : Nat) : Prop where
  /-- There are enough characters. -/
  le_length : n ≤ cs.length
  /-- The text fits the pattern. -/
  fits : kind.Matches (c :: cs.take n)
  /-- Nothing else that begins there is longer, or as long. -/
  best : ∀ kind' v, v <+: cs → Matches kind' (c :: v) → v.length ≤ n ∧ (v.length = n → kind' = kind)

/-- What the scanner takes for the best token is a longest one. -/
lemma IsBest.isLongest (h : IsBest kind c cs n) : kind.IsLongest (c :: cs.take n) (cs.drop n) where
  fits := h.fits
  longest kind' w' hw hm := by
    obtain ⟨d, v, rfl, -⟩ := exists_cons_of_matches hm
    rw [List.cons_append, List.take_append_drop, List.cons_prefix_cons] at hw
    obtain ⟨rfl, hv⟩ := hw
    rw [List.length_cons, List.length_cons, List.length_take_of_le h.le_length]
    exact Nat.succ_le_succ (h.best kind' v hv hm).1
  only kind' hm :=
    (h.best kind' _ (List.take_prefix n cs) hm).2 (List.length_take_of_le h.le_length)

/-- A text that is a pattern by itself is found where nothing else of its length or more begins. -/
lemma isBest_text {more : List Char} (hk : kind.pattern = text (c :: more)) (hcs : more <+: cs)
    (others : ∀ kind' v, v <+: cs → Matches kind' (c :: v) → kind' = kind ∨ v.length < more.length) :
    IsBest kind c cs more.length where
  le_length := hcs.length_le
  fits := by
    rw [Matches, hk, ← List.prefix_iff_eq_take.1 hcs]
    rfl
  best kind' v hv hm := by
    rcases others kind' v hv hm with rfl | hlt
    · rw [Matches, hk] at hm
      exact ⟨((List.cons.inj hm).2 ▸ le_rfl), fun _ => rfl⟩
    · exact ⟨hlt.le, fun he => absurd he hlt.ne⟩

/-- A digit begins nothing but a number. -/
lemma eq_number_of_mayBegin (hc : c.isDigit = true) (h : kind.mayBegin c = true) : kind = number := by
  have isNot : ∀ d : Char, d.isDigit = false → c ≠ d := fun d hd he => by simp [he, hd] at hc
  cases kind with
  | number => rfl
  | ident =>
    rw [mayBegin, isWordStart, isAlpha_eq_false_of_isDigit hc, Bool.false_or, beq_iff_eq] at h
    exact absurd h (isNot '_' rfl)
  | _ => exact absurd (beq_iff_eq.1 h) (isNot _ rfl)

/-- A letter begins a word or a layout id. -/
lemma eq_word_of_mayBegin (hc : isWordStart c = true) (h : kind.mayBegin c = true) :
    kind = ident ∨ kind = layoutId := by
  have isNot : ∀ d : Char, isWordStart d = false → c ≠ d := fun d hd he => by simp [he, hd] at hc
  cases kind with
  | ident => exact .inl rfl
  | layoutId => exact .inr rfl
  | number =>
    rcases (Bool.or_eq_true _ _).mp h with he | hd
    · exact absurd (beq_iff_eq.1 he) (isNot _ rfl)
    · rw [isWordStart, isAlpha_eq_false_of_isDigit hd, Bool.false_or, beq_iff_eq] at hc
      simp [hc] at hd
  | _ => exact absurd (beq_iff_eq.1 h) (isNot _ rfl)

/-- What may begin a word may go on with it. -/
lemma isWordPart_of_isWordStart (h : isWordStart c = true) : isWordPart c = true := by
  unfold isWordStart at h
  unfold isWordPart Char.isAlphanum
  grind

/-- A numeral without its first character is digits and a fraction; behind a minus there are digits. -/
lemma exists_of_isNumeral_cons (h : IsNumeral (c :: v)) :
    ∃ whole fraction, (∀ d ∈ whole, d.isDigit = true) ∧ IsFraction fraction ∧ v = whole ++ fraction ∧
      (c = '-' → whole ≠ []) := by
  obtain ⟨whole, fraction, ⟨hne, hall⟩, hf, he | he⟩ := h
  · obtain ⟨d, whole, rfl⟩ := List.exists_cons_of_ne_nil hne
    obtain ⟨rfl, rfl⟩ := List.cons.inj he
    obtain ⟨hc, hall⟩ := List.forall_mem_cons.1 hall
    exact ⟨whole, fraction, hall, hf, rfl, fun hm => by simp [hm] at hc⟩
  · exact ⟨whole, fraction, hall, hf, (List.cons.inj he).2, fun _ => hne⟩

/-- Where only a number may begin, the number that is found is the longest text. -/
lemma isBest_number (hfits : IsNumeral (c :: cs.take (numberTail cs)))
    (others : ∀ kind' : TokenKind, kind'.mayBegin c = true → kind' = number) :
    IsBest number c cs (numberTail cs) where
  le_length := numberTail_le cs
  fits := matches_number.2 hfits
  best kind' v hv hm := by
    obtain rfl := others kind' (mayBegin_of_matches hm)
    obtain ⟨whole, fraction, hw, hf, rfl, -⟩ := exists_of_isNumeral_cons (matches_number.1 hm)
    exact ⟨length_le_numberTail hv hw hf, fun _ => rfl⟩

/-- A word goes on with characters of words. -/
lemma forall_isWordPart_of_matches (h : ident.Matches (c :: v)) : ∀ d ∈ v, isWordPart d = true := by
  obtain ⟨_, _, -, hall, he⟩ := matches_ident.1 h
  rwa [(List.cons.inj he).2]

/-- A layout id has a word behind its prefix. -/
lemma exists_of_matches_layoutId (h : layoutId.Matches (c :: v)) :
    c = 'i' ∧ ∃ d name, v = 'd' :: ':' :: d :: name ∧ isWordStart d = true ∧
      ∀ e ∈ name, isWordPart e = true := by
  obtain ⟨_, hname, he⟩ := matches_layoutId.1 h
  obtain ⟨d, name, hd, hall, rfl⟩ := matches_ident.1 hname
  exact ⟨(List.cons.inj he).1, d, name, (List.cons.inj he).2, hd, hall⟩

/-- A letter with all characters of words behind it is a word. -/
lemma matches_ident_take_span (hc : isWordStart c = true) :
    ident.Matches (c :: cs.take (span isWordPart cs)) := by
  refine matches_ident.2 ⟨c, _, hc, fun d hd => ?_, rfl⟩
  rw [take_span] at hd
  exact List.all_eq_true.1 List.all_takeWhile d hd

/-- Where a layout id begins stands its prefix with a word behind it. -/
lemma exists_of_prefix_of_matches_layoutId (hv : v <+: cs) (h : layoutId.Matches (c :: v)) :
    c = 'i' ∧ ∃ name, cs = 'd' :: ':' :: name ∧ name.head?.any isWordStart = true := by
  obtain ⟨hc, d, name, rfl, hd, -⟩ := exists_of_matches_layoutId h
  obtain ⟨rest, rfl⟩ := hv
  exact ⟨hc, d :: (name ++ rest), rfl, hd⟩

/-- A word is the longest text where no layout id begins. -/
lemma isBest_ident (hc : isWordStart c = true)
    (hid : ∀ v, v <+: cs → ¬ layoutId.Matches (c :: v)) : IsBest ident c cs (span isWordPart cs) where
  le_length := span_le _ cs
  fits := matches_ident_take_span hc
  best kind' v hv hm := by
    rcases eq_word_of_mayBegin hc (mayBegin_of_matches hm) with rfl | rfl
    · exact ⟨length_le_span hv (forall_isWordPart_of_matches hm), fun _ => rfl⟩
    · exact absurd hm (hid v hv)

/-- A layout id is longer than the word before its colon. -/
lemma isBest_layoutId {d : Char} {name : List Char} (hd : isWordStart d = true) :
    IsBest layoutId 'i' ('d' :: ':' :: d :: name) (2 + span isWordPart (d :: name)) := by
  have hspan : span isWordPart (d :: name) = span isWordPart name + 1 := by
    rw [span, List.takeWhile_cons_of_pos (isWordPart_of_isWordStart hd), List.length_cons, span]
  have htwo : 2 + (span isWordPart name + 1) = span isWordPart name + 1 + 1 + 1 := Nat.add_comm _ _
  rw [hspan, htwo]
  refine ⟨Nat.succ_le_succ (Nat.succ_le_succ (Nat.succ_le_succ (span_le _ name))),
    matches_layoutId.2 ⟨_, matches_ident_take_span hd, rfl⟩, fun kind' v hv hm => ?_⟩
  · rcases eq_word_of_mayBegin rfl (mayBegin_of_matches hm) with rfl | rfl
    · -- The colon is no part of a word.
      have hle := length_le_span hv (forall_isWordPart_of_matches hm)
      have hone : span isWordPart ('d' :: ':' :: d :: name) = 1 := rfl
      omega
    · obtain ⟨-, e, name', rfl, he, hall⟩ := exists_of_matches_layoutId hm
      simp only [List.cons_prefix_cons, true_and] at hv
      have hle := length_le_span hv.2 hall
      exact ⟨Nat.succ_le_succ (Nat.succ_le_succ (Nat.succ_le_succ hle)), fun _ => rfl⟩

/-- A relation is longer than its colon. -/
lemma isBest_relationKeyword (h : span isLetter cs ≠ 0) :
    IsBest relationKeyword ':' cs (span isLetter cs) := by
  refine ⟨span_le _ cs, ?_, fun kind' v hv hm => ?_⟩
  · rw [take_span]
    cases hletters : cs.takeWhile isLetter with
    | nil => exact absurd (congrArg List.length hletters) h
    | cons d v =>
      have hall := List.forall_mem_cons.1 (hletters ▸ List.all_eq_true.1 (List.all_takeWhile (l := cs)))
      exact matches_relationKeyword.2 ⟨d, v, hall.1, hall.2, rfl⟩
  · rcases eq_of_mayBegin_colon (mayBegin_of_matches hm) with rfl | rfl
    · obtain ⟨d, v', hd, hall, he⟩ := matches_relationKeyword.1 hm
      obtain rfl := (List.cons.inj he).2
      exact ⟨length_le_span hv (List.forall_mem_cons.2 ⟨hd, hall⟩), fun _ => rfl⟩
    · obtain rfl : v = [] := (List.cons.inj hm).2
      exact ⟨Nat.zero_le _, fun he => absurd he.symm h⟩

/-- A text that is a pattern by itself is found where it begins with a mark of its own. -/
lemma isBest_own {more : List Char} (hk : kind.pattern = text (c :: more)) (hcs : more <+: cs)
    (own : ∀ kind' : TokenKind, kind'.mayBegin c = true → kind' = kind) : IsBest kind c cs more.length :=
  isBest_text hk hcs fun kind' _ _ hm => .inl (own kind' (mayBegin_of_matches hm))

/-- A mark is found alone where nothing else fits. -/
lemma isBest_mark (hk : kind.pattern = text [c])
    (others : ∀ kind' v, v <+: cs → Matches kind' (c :: v) → kind' = kind) : IsBest kind c cs 0 :=
  isBest_text hk List.nil_prefix fun kind' v hv hm => .inl (others kind' v hv hm)

/-- The first member of a list is a prefix of it. -/
lemma head?_eq_some_iff {d : Char} : cs.head? = some d ↔ [d] <+: cs := by
  cases cs <;> simp [eq_comm]

/-- A token of a fixed text is that text. -/
lemma eq_of_matches_text {more : List Char} (hk : kind.pattern = text (c :: more))
    (h : kind.Matches (c :: v)) : v = more := by
  rw [Matches, hk] at h
  exact (List.cons.inj h).2

/-- Two equals signs are one token. -/
lemma isBest_equalEqual (h : cs.head? = some '=') : IsBest equalEqual '=' cs 1 := by
  refine isBest_text rfl (head?_eq_some_iff.1 h) fun kind' v _ hm => ?_
  refine (eq_of_mayBegin_equal (mayBegin_of_matches hm)).imp_right ?_
  rintro rfl
  obtain rfl : v = [] := eq_of_matches_text rfl hm
  exact Nat.zero_lt_one

/-- An equals sign with no other behind it is an assignment. -/
lemma isBest_assign (h : cs.head? ≠ some '=') : IsBest assign '=' cs 0 := by
  refine isBest_mark rfl fun kind' v hv hm => ?_
  refine (eq_of_mayBegin_equal (mayBegin_of_matches hm)).resolve_left ?_
  rintro rfl
  exact h (head?_eq_some_iff.2 (eq_of_matches_text rfl hm ▸ hv))

/-- A colon with no letter behind it stands alone. -/
lemma isBest_colon (h : span isLetter cs = 0) : IsBest colon ':' cs 0 := by
  refine isBest_mark rfl fun kind' v hv hm => ?_
  refine (eq_of_mayBegin_colon (mayBegin_of_matches hm)).resolve_left ?_
  rintro rfl
  obtain ⟨d, v', hd, hall, he⟩ := matches_relationKeyword.1 hm
  obtain rfl := (List.cons.inj he).2
  have hle := length_le_span hv (List.forall_mem_cons.2 ⟨hd, hall⟩)
  exact absurd (h ▸ hle) (Nat.not_succ_le_zero _)

/-- **What is found at a position is the longest text that fits a pattern.** -/
theorem isBest_of_longest? (h : longest? c cs = some (kind, n)) : IsBest kind c cs n := by
  have isNumeral : kind = number → IsNumeral (c :: cs.take n) := by
    rintro rfl
    exact isNumeral_of_longest? h
  unfold longest? at h
  split at h
  case h_1 =>
    split at h
    · next hhead => cases h; exact isBest_equalEqual hhead
    · next hhead => cases h; exact isBest_assign hhead
  case h_2 =>
    split at h
    · next hhead =>
      cases h
      exact isBest_own rfl (head?_eq_some_iff.1 hhead) fun kind' => by cases kind' <;> decide
    · cases h
  case h_3 =>
    split at h
    · next hhead =>
      cases h
      exact isBest_own rfl (head?_eq_some_iff.1 hhead) fun kind' => by cases kind' <;> decide
    · cases h
  case h_4 =>
    dsimp only at h
    split at h
    · next hletters => cases h; exact isBest_colon hletters
    · next hletters => cases h; exact isBest_relationKeyword hletters
  case h_11 =>
    split at h
    · cases h
    · cases h
      exact isBest_number (isNumeral rfl) fun kind' => by cases kind' <;> decide
  case h_12 =>
    split at h
    · next hdigit =>
      cases h
      exact isBest_number (isNumeral rfl) fun _ => eq_number_of_mayBegin hdigit
    split at h
    · next hstart =>
      dsimp only at h
      split at h
      · next name _ _ =>
        split at h
        · next hname =>
          cases h
          obtain ⟨d, hd, hstart⟩ := (Option.any_eq_true _ _).1 hname
          obtain ⟨name, rfl⟩ := head?_eq_some_iff.1 hd
          exact isBest_layoutId hstart
        · next hname =>
          cases h
          refine isBest_ident hstart fun v hv hm => hname ?_
          obtain ⟨-, name, he, hany⟩ := exists_of_prefix_of_matches_layoutId hv hm
          cases he
          exact hany
      · next hother =>
        cases h
        refine isBest_ident hstart fun v hv hm => ?_
        obtain ⟨hi, name, hd, -⟩ := exists_of_prefix_of_matches_layoutId hv hm
        exact hother name hi hd
    · cases h
  all_goals
    cases h
    exact isBest_own rfl List.nil_prefix fun kind' => by cases kind' <;> decide

/-- The token that the scanner takes is a longest one. -/
theorem isLongest_of_longest? (h : longest? c cs = some (kind, n)) :
    kind.IsLongest (c :: cs.take n) (cs.drop n) :=
  (isBest_of_longest? h).isLongest

/-- **Where nothing is found, no text fits any pattern.** -/
theorem not_matches_of_longest? (h : longest? c cs = none) (hv : v <+: cs) :
    ¬ kind.Matches (c :: v) := by
  intro hm
  have hbegin := mayBegin_of_matches hm
  unfold longest? at h
  split at h
  case h_2 =>
    obtain rfl : kind = lessEqual := by revert hbegin; cases kind <;> decide
    rw [if_pos (head?_eq_some_iff.2 (eq_of_matches_text rfl hm ▸ hv))] at h
    cases h
  case h_3 =>
    obtain rfl : kind = greaterEqual := by revert hbegin; cases kind <;> decide
    rw [if_pos (head?_eq_some_iff.2 (eq_of_matches_text rfl hm ▸ hv))] at h
    cases h
  case h_11 =>
    obtain rfl : kind = number := by revert hbegin; cases kind <;> decide
    obtain ⟨whole, fraction, hw, -, rfl, hne⟩ := exists_of_isNumeral_cons (matches_number.1 hm)
    have hle := length_le_span ((List.prefix_append whole fraction).trans hv) hw
    have hpos := List.length_pos_iff.2 (hne rfl)
    rw [if_neg (hpos.trans_le hle).ne'] at h
    cases h
  case h_12 =>
    -- Neither a digit nor the first character of a word, and none of the marks.
    have hdigit : c.isDigit = false := by grind
    have hstart : isWordStart c = false := by grind
    cases kind with
    | layoutId => exact absurd (beq_iff_eq.1 hbegin) fun he => by simp [he, isWordStart] at hstart
    | _ => simp_all [mayBegin]
  all_goals grind

/-- The longest text at a position is one text of one kind. -/
lemma IsLongest.unique {kind' : TokenKind} {w' rest' : List Char} (h : kind.IsLongest w rest)
    (h' : kind'.IsLongest w' rest') (he : w ++ rest = w' ++ rest') :
    kind = kind' ∧ w = w' ∧ rest = rest' := by
  have hle : w.length ≤ w'.length := h'.longest kind w (he ▸ List.prefix_append w rest) h.fits
  have hge : w'.length ≤ w.length := h.longest kind' w' (he ▸ List.prefix_append w' rest') h'.fits
  obtain ⟨rfl, rfl⟩ := List.append_inj he (hle.antisymm hge)
  exact ⟨h'.only kind h.fits, rfl, rfl⟩

/-- Nothing can be read at a position: there is no blank, and nothing that begins there fits a pattern. -/
def NothingAt (c : Char) (rest : List Char) : Prop :=
  isSpace c = false ∧ ∀ kind v, v <+: rest → ¬ Matches kind (c :: v)

/-- A blank begins no token. -/
lemma isSpace_eq_false_of_mayBegin (h : kind.mayBegin c = true) : isSpace c = false := by
  rw [← Bool.not_eq_true]
  intro hspace
  simp only [isSpace, Bool.or_eq_true, beq_iff_eq] at hspace
  obtain (((rfl | rfl) | rfl) | rfl) | rfl := hspace <;> cases kind <;> exact absurd h (by decide)

/-- What is the longest text at a position is found there. -/
lemma IsLongest.longest?_eq (h : kind.IsLongest (c :: w) rest) :
    longest? c (w ++ rest) = some (kind, w.length) := by
  cases hfound : longest? c (w ++ rest) with
  | none => exact absurd h.fits (not_matches_of_longest? hfound (List.prefix_append w rest))
  | some found =>
    obtain ⟨kind', n⟩ := found
    have hbest := isBest_of_longest? hfound
    obtain ⟨rfl, hw, -⟩ := h.unique hbest.isLongest
      (by rw [List.cons_append, List.cons_append, List.take_append_drop])
    rw [(List.cons.inj hw).2, List.length_take_of_le hbest.le_length]

/-- Where no token begins, the scanner takes none. -/
lemma NothingAt.longest?_eq (h : NothingAt c rest) : longest? c rest = none := by
  rw [Option.eq_none_iff_forall_ne_some]
  rintro ⟨kind, n⟩ hfound
  exact h.2 kind _ (List.take_prefix n rest) (isBest_of_longest? hfound).fits

end TokenKind

namespace Text

/-- The lengths of two texts in bytes add up. -/
lemma byteLength_append (cs ds : List Char) : byteLength (cs ++ ds) = byteLength cs + byteLength ds := by
  induction cs with
  | nil => exact (Nat.zero_add _).symm
  | cons c cs ih => simp only [byteLength, List.cons_append, List.foldr_cons] at ih ⊢; omega

end Text

/-! ### Reading by longest match -/

namespace Token

open TokenKind

/-- **Reading by longest match** goes from an offset, with the characters behind it, to another one: blanks
are skipped, and the longest text that fits a pattern is a token, with the offset at which it stands. -/
inductive Reads : Nat → List Char → List Token → Nat → List Char → Prop where
  /-- Nothing is read. -/
  | here {o : Nat} {cs : List Char} : Reads o cs [] o cs
  /-- A blank is skipped. -/
  | space {o : Nat} {c : Char} {cs : List Char} {ts : List Token} {o' : Nat} {rest : List Char} :
    isSpace c = true → Reads (o + c.utf8Size) cs ts o' rest → Reads o (c :: cs) ts o' rest
  /-- A token is read. -/
  | token {o : Nat} {kind : TokenKind} {w cs : List Char} {ts : List Token} {o' : Nat} {rest : List Char} :
    kind.IsLongest w cs → Reads (o + byteLength w) cs ts o' rest →
      Reads o (w ++ cs) (⟨kind, String.ofList w, o⟩ :: ts) o' rest

variable {o o' : Nat} {cs rest : List Char} {ts : List Token}

/-- What is read is taken off the characters, and its bytes are counted. -/
lemma Reads.exists_append (h : Reads o cs ts o' rest) :
    ∃ w, cs = w ++ rest ∧ o' = o + byteLength w := by
  induction h with
  | here => exact ⟨[], rfl, rfl⟩
  | @space o c cs ts o' rest _ _ ih =>
    obtain ⟨w, rfl, rfl⟩ := ih
    exact ⟨c :: w, rfl, Nat.add_assoc ..⟩
  | @token o kind w cs ts o' rest _ _ ih =>
    obtain ⟨v, rfl, rfl⟩ := ih
    exact ⟨w ++ v, (List.append_assoc ..).symm, by rw [byteLength_append, Nat.add_assoc]⟩

/-- Each token that is read is the longest text at its offset. -/
lemma Reads.exists_slice (h : Reads o cs ts o' rest) {t : Token} (ht : t ∈ ts) :
    ∃ before after, cs = before ++ t.text.toList ++ after ∧ t.offset = o + byteLength before ∧
      t.kind.IsLongest t.text.toList after := by
  induction h with
  | here => cases ht
  | @space o c cs ts o' rest _ _ ih =>
    obtain ⟨before, after, rfl, ho, hl⟩ := ih ht
    exact ⟨c :: before, after, rfl, ho.trans (Nat.add_assoc ..), hl⟩
  | @token o kind w cs ts o' rest hl _ ih =>
    rcases List.mem_cons.1 ht with rfl | ht
    · exact ⟨[], cs, by rw [String.toList_ofList, List.nil_append], rfl, by rwa [String.toList_ofList]⟩
    · obtain ⟨before, after, rfl, ho, hl⟩ := ih ht
      refine ⟨w ++ before, after, by simp only [List.append_assoc], ?_, hl⟩
      rw [ho, byteLength_append, Nat.add_assoc]

/-- The tokens that are read come one after the other. -/
lemma Reads.pairwise (h : Reads o cs ts o' rest) :
    ts.Pairwise fun t u => t.offset + byteLength t.text.toList ≤ u.offset := by
  induction h with
  | here => exact .nil
  | space _ _ ih => exact ih
  | @token o kind w cs ts o' rest _ hread ih =>
    refine List.pairwise_cons.2 ⟨fun u hu => ?_, ih⟩
    obtain ⟨before, after, -, ho, -⟩ := hread.exists_slice hu
    rw [String.toList_ofList, ho]
    exact Nat.le_add_right _ _

/-- Every character that was passed is a blank or belongs to a token. -/
lemma Reads.isSpace_or_mem (h : Reads o cs ts o' rest) {before after : List Char} {c : Char}
    (hcs : cs = before ++ c :: after) (hlt : o + byteLength before < o') :
    isSpace c = true ∨ ∃ t ∈ ts, t.offset ≤ o + byteLength before ∧
      o + byteLength before < t.offset + byteLength t.text.toList := by
  induction h generalizing before with
  | here => exact absurd hlt (Nat.not_lt.2 (Nat.le_add_right _ _))
  | @space o d cs ts o' rest hd _ ih =>
    cases before with
    | nil => exact .inl ((List.cons.inj hcs).1 ▸ hd)
    | cons e before =>
      obtain ⟨rfl, rfl⟩ := List.cons.inj hcs
      have hbytes : o + byteLength (d :: before) = o + d.utf8Size + byteLength before :=
        (Nat.add_assoc ..).symm
      rw [hbytes] at hlt ⊢
      exact ih rfl hlt
  | @token o kind w cs ts o' rest _ _ ih =>
    -- The character is behind the token, or inside it.
    have hsplit : (∃ between, before = w ++ between ∧ cs = between ++ c :: after) ∨
        ∃ more, w = before ++ c :: more := by
      rcases List.append_eq_append_iff.1 hcs with ⟨between, hb, hcs⟩ | ⟨more, hw, hmore⟩
      · exact .inl ⟨between, hb, hcs⟩
      · cases more with
        | nil => exact .inl ⟨[], by rw [hw, List.append_nil, List.append_nil], hmore.symm⟩
        | cons d more => exact .inr ⟨more, by rw [hw, (List.cons.inj hmore).1]⟩
    rcases hsplit with ⟨between, rfl, hbehind⟩ | ⟨more, rfl⟩
    · rw [byteLength_append, ← Nat.add_assoc] at hlt ⊢
      exact (ih hbehind hlt).imp_right fun ⟨t, ht, hin⟩ => ⟨t, List.mem_cons_of_mem _ ht, hin⟩
    · refine .inr ⟨_, List.mem_cons_self, Nat.le_add_right _ _, Nat.add_lt_add_left ?_ o⟩
      rw [String.toList_ofList, byteLength_append]
      exact Nat.lt_add_of_pos_right ((Char.utf8Size_pos c).trans_le (Nat.le_add_right _ _))

/-- **A scan goes on from where reading has come to.** -/
theorem Reads.scanFrom_eq (h : Reads o cs ts o' rest) :
    scanFrom o cs = (scanFrom o' rest).map (ts ++ ·) := by
  induction h with
  | here => cases scanFrom _ _ <;> rfl
  | @space o c cs ts o' rest hspace _ ih => rw [scanFrom, if_pos hspace, ih]
  | @token o kind w cs ts o' rest hl _ ih =>
    obtain ⟨c, v, rfl, hbegin⟩ := exists_cons_of_matches hl.fits
    rw [List.cons_append, scanFrom, if_neg (by rw [isSpace_eq_false_of_mayBegin hbegin]; decide),
      hl.longest?_eq]
    dsimp only
    rw [List.take_left, List.drop_left, ih]
    cases scanFrom o' rest <;> rfl

/-- A token that the scanner takes is the first of what is read. -/
lemma Reads.of_longest? {c : Char} {kind : TokenKind} {n : Nat} (h : longest? c cs = some (kind, n))
    (hread : Reads (o + byteLength (c :: cs.take n)) (cs.drop n) ts o' rest) :
    Reads o (c :: cs) (⟨kind, String.ofList (c :: cs.take n), o⟩ :: ts) o' rest := by
  have hcs : c :: cs = (c :: cs.take n) ++ cs.drop n := by rw [List.cons_append, List.take_append_drop]
  rw [hcs]
  exact .token (isLongest_of_longest? h) hread

/-- A scan says where nothing can be read. -/
lemma scanFrom_eq_of_nothingAt {c : Char} (h : NothingAt c rest) :
    scanFrom o (c :: rest) = .error (.unexpectedCharacter c o) := by
  rw [scanFrom, if_neg (by rw [h.1]; decide), h.longest?_eq]

/-- Reading comes to the end, or to a position where nothing can be read. -/
lemma exists_reads (o : Nat) (cs : List Char) :
    ∃ ts o' rest, Reads o cs ts o' rest ∧ ∀ c more, rest = c :: more → NothingAt c more := by
  induction o, cs using scanFrom.induct with
  | case1 o => exact ⟨[], o, [], .here, fun c more he => absurd he (List.cons_ne_nil c more).symm⟩
  | case2 o c cs hspace ih =>
    obtain ⟨ts, o', rest, hread, hend⟩ := ih
    exact ⟨ts, o', rest, .space hspace hread, hend⟩
  | case3 o c cs hspace hlongest =>
    refine ⟨[], o, c :: cs, .here, fun d more he => ?_⟩
    obtain ⟨rfl, rfl⟩ := List.cons.inj he
    exact ⟨by simpa using hspace, fun kind v hv => not_matches_of_longest? hlongest hv⟩
  | case4 o c cs hspace kind n hlongest | case5 o c cs hspace kind n hlongest =>
    rename_i ih
    obtain ⟨ts, o', rest, hread, hend⟩ := ih
    exact ⟨_, o', rest, .of_longest? hlongest hread, hend⟩

/-- A scan succeeds if and only if reading comes to the end. -/
theorem scanFrom_eq_ok_iff : scanFrom o cs = .ok ts ↔ ∃ o', Reads o cs ts o' [] := by
  constructor
  · intro h
    obtain ⟨ts', o', rest, hread, hend⟩ := exists_reads o cs
    rw [hread.scanFrom_eq] at h
    cases rest with
    | nil =>
      rw [scanFrom] at h
      cases h
      exact ⟨o', by simpa only [List.append_nil] using hread⟩
    | cons c more =>
      rw [scanFrom_eq_of_nothingAt (hend c more rfl)] at h
      cases h
  · rintro ⟨o', h⟩
    rw [h.scanFrom_eq, scanFrom]
    exact congrArg Except.ok (List.append_nil ts)

/-- A scan fails if and only if reading comes to a position where nothing can be read, and says which one. -/
theorem scanFrom_eq_error_iff {e : LayoutError} :
    scanFrom o cs = .error e ↔ ∃ ts o' c more, Reads o cs ts o' (c :: more) ∧ NothingAt c more ∧
      e = .unexpectedCharacter c o' := by
  constructor
  · intro h
    obtain ⟨ts, o', rest, hread, hend⟩ := exists_reads o cs
    rw [hread.scanFrom_eq] at h
    cases rest with
    | nil =>
      rw [scanFrom] at h
      cases h
    | cons c more =>
      rw [scanFrom_eq_of_nothingAt (hend c more rfl)] at h
      exact ⟨ts, o', c, more, hread, hend c more rfl, (Except.error.inj h).symm⟩
  · rintro ⟨ts, o', c, more, hread, hnothing, rfl⟩
    rw [hread.scanFrom_eq, scanFrom_eq_of_nothingAt hnothing]
    rfl

/-- **A text is read by longest match.** A scan succeeds if and only if reading by longest match comes to the
end, and with the tokens that were read. They stand one after the other, each is the slice of the text at its
byte offset, it is the longest text there that fits a pattern, and it is of that pattern's kind. Every
character before, between and behind them is a blank. A scan fails if and only if reading comes to a position
where nothing can be read, and it says the character there with its byte offset.

**Proof sketch.** Reading always comes to the end or to such a position (`exists_reads`), and from wherever it
has come to the scan goes on (`Reads.scanFrom_eq`). -/
theorem scan_spec (text : String) :
    (∀ ts, scan text = .ok ts ↔ ∃ o, Reads 0 text.toList ts o []) ∧
    (∀ ts, scan text = .ok ts →
      (ts.Pairwise fun t u => t.offset + byteLength t.text.toList ≤ u.offset) ∧
      (∀ t ∈ ts, ∃ before after, text.toList = before ++ t.text.toList ++ after ∧
        t.offset = byteLength before ∧ t.kind.IsLongest t.text.toList after) ∧
      ∀ before c after, text.toList = before ++ c :: after → isSpace c = true ∨
        ∃ t ∈ ts, t.offset ≤ byteLength before ∧
          byteLength before < t.offset + byteLength t.text.toList) ∧
    ∀ e, scan text = .error e ↔ ∃ ts before c more, text.toList = before ++ c :: more ∧
      Reads 0 text.toList ts (byteLength before) (c :: more) ∧ NothingAt c more ∧
      e = .unexpectedCharacter c (byteLength before) := by
  refine ⟨fun ts => scanFrom_eq_ok_iff, fun ts h => ?_, fun e => scanFrom_eq_error_iff.trans ⟨?_, ?_⟩⟩
  · obtain ⟨o, hread⟩ := scanFrom_eq_ok_iff.1 h
    refine ⟨hread.pairwise, fun t ht => ?_, fun before c after hcs => ?_⟩
    · simpa only [Nat.zero_add] using hread.exists_slice ht
    · obtain ⟨w, hw, rfl⟩ := hread.exists_append
      rw [List.append_nil] at hw
      have hlt : byteLength before < byteLength w := by
        rw [← hw, hcs, byteLength_append]
        exact Nat.lt_add_of_pos_right ((Char.utf8Size_pos c).trans_le (Nat.le_add_right _ _))
      simpa only [Nat.zero_add] using hread.isSpace_or_mem hcs (Nat.add_lt_add_left hlt 0)
  · rintro ⟨ts, o, c, more, hread, hnothing, rfl⟩
    obtain ⟨before, hw, ho⟩ := hread.exists_append
    rw [Nat.zero_add] at ho
    exact ⟨ts, before, c, more, hw, ho ▸ hread, hnothing, ho ▸ rfl⟩
  · rintro ⟨ts, before, c, more, -, hread, hnothing, rfl⟩
    exact ⟨ts, _, c, more, hread, hnothing, rfl⟩

/-- The point behind the number has no digits behind it. -/
example : (scan "id:x :lt==-1.").toOption.map (·.map fun t => (t.kind, t.text, t.offset)) =
    some [(.layoutId, "id:x", 0), (.relationKeyword, ":lt", 5), (.equalEqual, "==", 8),
      (.number, "-1", 10), (.dot, ".", 12)] := by cbv

end Token

end ViewMarkup
