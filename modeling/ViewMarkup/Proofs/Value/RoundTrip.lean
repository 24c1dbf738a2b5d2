import ViewMarkup.Proofs.Fallible
import ViewMarkup.Proofs.Number.Patterns
import ViewMarkup.Proofs.Value.Colors
import ViewMarkup.Value.Basic

/-!
# Values written and read

A property value is written so that a reader of the same type reads the same value again. Reader and writer of
a type agree on little else: the reader drops blanks that the writer does not put there, takes short forms
where the writer gives all parts, and cuts a text at the first at sign or at every comma, which no number and no
face has in it.

## Main definitions

* `Value.IsDefined` — a value without the undefined number.

## Main statements

* `Geometry.readNumbers_text` — a list of numbers is read as it is written.
* `Font.ofText_text` — a font is read as it is written.
* `ValueType.read_text` — a value is read as it is written.
-/

namespace ViewMarkup

open Text Number ViewMarkup.Except

/-! ### Lists of numbers -/

namespace Geometry

variable {x : Float} {xs : List Float} {part : List Char}

/-- The characters of a number, maybe with a blank in front of them. -/
def Spells (part : List Char) (x : Float) : Prop :=
  part = (Number.text x).toList ∨ part = ' ' :: (Number.text x).toList

/-- A part that spells a number is that number with blanks around it. -/
lemma Spells.trimChars_eq (h : Spells part x) (hx : x.isNaN = false) :
    trimChars part = (Number.text x).toList := by
  have htrimmed : IsTrimmed (Number.text x).toList :=
    isTrimmed_of_forall fun _ hc => (inNumber_of_mem_text hx hc).isBlank
  obtain rfl | rfl := h
  · exact htrimmed.trimChars_eq
  · rw [trimChars_cons (by decide), htrimmed.trimChars_eq]

/-- It has no comma in it. -/
lemma Spells.pieces_eq (h : Spells part x) (hx : x.isNaN = false) : pieces (· = ',') part = [part] := by
  have hcomma : ',' ∉ (Number.text x).toList := fun hc => absurd (inNumber_of_mem_text hx hc) (by decide)
  refine pieces_eq_singleton fun c hc => decide_eq_false ?_
  rintro rfl
  obtain rfl | rfl := h
  · exact hcomma hc
  · exact hcomma ((List.mem_cons.1 hc).resolve_left (by decide))

/-- Hence it is read as the number, and the other parts are read after it. -/
lemma Spells.readParts_cons (h : Spells part x) (hx : x.isNaN = false) (parts : List (List Char)) :
    readParts (part :: parts) = (readParts parts).map (x :: ·) := by
  simp only [readParts, h.trimChars_eq hx, String.ofList_toList, ofText?_text hx]

/-- A single number is written as it is. -/
lemma text_singleton (x : Float) : text [x] = Number.text x := by
  rw [text, Text.join, List.map_singleton, String.intercalate_singleton]

/-- Further numbers follow behind a comma and a blank. -/
lemma toList_text_cons_cons (x y : Float) (xs : List Float) :
    (text (x :: y :: xs)).toList =
      (Number.text x).toList ++ ',' :: ([' '] ++ (text (y :: xs)).toList) := by
  have hsep : ", ".toList = [',', ' '] := by decide
  rw [text, Text.join, List.map_cons, List.map_cons, String.intercalate_cons_cons, String.toList_append,
    String.toList_append, hsep, List.append_assoc]
  rfl

/-- A list of numbers is read from its first number on, which may have a blank in front of it, as every
number but the first of all has. -/
lemma readParts_pieces {lead : List Char} (hlead : lead = [] ∨ lead = [' ']) (x : Float) (xs : List Float)
    (hxs : ∀ y ∈ x :: xs, y.isNaN = false) :
    readParts (pieces (· = ',') (lead ++ (text (x :: xs)).toList)) = .ok (x :: xs) := by
  induction xs generalizing x lead with
  | nil =>
    have hspells : Spells (lead ++ (Number.text x).toList) x := hlead.imp (by simp [·]) (by simp [·])
    have hx := hxs x List.mem_cons_self
    rw [text_singleton, hspells.pieces_eq hx, hspells.readParts_cons hx]
    rfl
  | cons y ys ih =>
    have hspells : Spells (lead ++ (Number.text x).toList) x := hlead.imp (by simp [·]) (by simp [·])
    obtain ⟨hx, hys⟩ := List.forall_mem_cons.1 hxs
    rw [toList_text_cons_cons, ← List.append_assoc,
      @pieces_append_cons _ (· = ',') ',' (decide_eq_true rfl), hspells.pieces_eq hx, List.singleton_append, hspells.readParts_cons hx, ih (.inr rfl) y hys]
    rfl

/-- **A list of numbers is read as it is written.** -/
theorem readNumbers_text (hne : xs ≠ []) (hxs : ∀ x ∈ xs, x.isNaN = false) :
    readNumbers (text xs) = .ok xs := by
  obtain ⟨x, xs, rfl⟩ := List.exists_cons_of_ne_nil hne
  exact readParts_pieces (.inl rfl) x xs hxs

end Geometry

/-! ### Fonts -/

namespace Font

/-- The characters of a face: a weight behind a colon, or a name. -/
def face : Font → List Char
  | system weight _ => ':' :: weight.keyword.toList
  | named name _ => name.toList

/-- The size of a font. -/
def size : Font → Float
  | system _ size => size
  | named _ size => size

/-- What a font is by its face alone: the face is read as the font, and it is neither cut at an at sign nor
trimmed when it stands before one. -/
structure HasFace (f : Font) : Prop where
  /-- The face is read as the font. -/
  ofFace_eq : ofFace f.face f.size = .ok f
  /-- It has no at sign in it. -/
  not_mem : '@' ∉ f.face
  /-- It does not begin with a blank. -/
  head : ∀ c ∈ f.face.head?, isBlank c = false

variable {f : Font} {s : String} {x : Float} {cs : List Char}

/-- The keyword of a weight is read as the weight, and it has no at sign in it. -/
lemma keyword_spec (weight : FontWeight) :
    FontWeight.ofKeyword? weight.keyword = some weight ∧ '@' ∉ weight.keyword.toList := by
  cases weight <;> decide

/-- A system font has a face. -/
lemma hasFace_system (weight : FontWeight) (x : Float) : (system weight x).HasFace := by
  obtain ⟨hkeyword, hat⟩ := keyword_spec weight
  refine ⟨?_, List.not_mem_cons_of_ne_of_not_mem (by decide) hat, ?_⟩
  · simp only [face, ofFace, String.ofList_toList, hkeyword]
    rfl
  · intro c hc
    cases hc
    decide

/-- A font that was read from a face has a face, and the size that it was read with. -/
lemma hasFace_of_ofFace (h : ofFace cs x = .ok f) (hat : '@' ∉ cs)
    (hhead : ∀ c ∈ cs.head?, isBlank c = false) : f.HasFace ∧ f.size = x := by
  unfold ofFace at h
  split at h
  · cases h
    exact ⟨hasFace_system _ _, rfl⟩
  · split at h
    · cases h
      exact ⟨hasFace_system _ _, rfl⟩
    · cases h
  · next hempty hcolon =>
    cases h
    have hface : (named (String.ofList cs) x).face = cs := String.toList_ofList
    refine ⟨⟨?_, ?_, ?_⟩, rfl⟩
    all_goals rw [hface]
    · change ofFace cs x = .ok (.named (String.ofList cs) x)
      unfold ofFace
      split
      · exact absurd rfl hempty
      · exact absurd rfl (hcolon _)
      · rfl
    · exact hat
    · exact hhead

/-- A size that was read is positive. -/
lemma lt_of_readSize (h : readSize s = .ok x) : 0.0 < x := by
  unfold readSize at h
  split at h
  · split_ifs at h with hlt
    cases h
    exact hlt
  · cases h

/-- What is read as a font has a size above zero and a face. -/
lemma hasFace_of_ofText (h : ofText s = .ok f) : f.HasFace ∧ 0.0 < f.size := by
  simp only [ofText] at h
  split at h
  · obtain ⟨x, hx, rfl⟩ := map_eq_ok.1 h
    exact ⟨hasFace_system _ _, lt_of_readSize hx⟩
  · next cs size hcut =>
    obtain ⟨hat, hcs⟩ := cutAt?_eq_some_iff.1 hcut
    split at h
    · cases h
    · next x hx =>
      have hhead : ∀ c ∈ cs.head?, isBlank c = false := by
        intro c hc
        refine (isTrimmed_trimChars s.toList).head c ?_
        rw [hcs, List.head?_append, Option.mem_def.1 hc]
        rfl
      obtain ⟨hface, hsize⟩ := hasFace_of_ofFace h hat hhead
      exact ⟨hface, hsize ▸ lt_of_readSize hx⟩

/-- A font is written as its face, an at sign and its size. -/
lemma toList_text (f : Font) : f.text.toList = f.face ++ '@' :: (Number.text f.size).toList := by
  cases f <;> simp [text, face, size]

/-- **A font is read as it is written.** -/
theorem ofText_text (h : ofText s = .ok f) : ofText f.text = .ok f := by
  obtain ⟨⟨hface, hat, hhead⟩, hpos⟩ := hasFace_of_ofText h
  have hsize := isNaN_of_lt hpos
  have hblank : ∀ c ∈ '@' :: (Number.text f.size).toList, isBlank c = false :=
    List.forall_mem_cons.2 ⟨by decide, fun _ hc => (inNumber_of_mem_text hsize hc).isBlank⟩
  have htrimmed : IsTrimmed f.text.toList := by
    rw [toList_text]
    constructor
    · intro c hc
      rw [List.head?_append] at hc
      cases hf : f.face.head? with
      | none => exact hblank c (List.mem_of_mem_head? (by simpa [hf] using hc))
      | some d => exact hhead c (by simpa [hf] using hc)
    · intro c hc
      rw [List.getLast?_append_of_ne_nil _ (List.cons_ne_nil _ _)] at hc
      exact hblank c (List.mem_of_mem_getLast? hc)
  have hread : readSize (String.ofList (Number.text f.size).toList) = .ok f.size := by
    have htrim : trim (Number.text f.size) = Number.text f.size :=
      trim_eq_self (isTrimmed_of_forall fun _ hc => (inNumber_of_mem_text hsize hc).isBlank)
    rw [String.ofList_toList]
    unfold readSize
    rw [htrim, ofText?_text hsize]
    exact if_pos hpos
  simp only [ofText, htrimmed.trimChars_eq]
  rw [toList_text, cutAt?_append_cons hat]
  simp only [hread, hface]

end Font

/-! ### Values without the undefined number -/

/-- A point of numbers equals itself. -/
lemma Point.beq_self {p : Point} (h : ∀ x ∈ p.numbers, x.isNaN = false) : (p == p) = true := by
  simp only [Point.numbers, List.forall_mem_cons] at h
  exact Bool.and_eq_true_iff.2 ⟨Number.beq_self h.1, Number.beq_self h.2.1⟩

/-- So does a size. -/
lemma Size.beq_self {s : Size} (h : ∀ x ∈ s.numbers, x.isNaN = false) : (s == s) = true := by
  simp only [Size.numbers, List.forall_mem_cons] at h
  exact Bool.and_eq_true_iff.2 ⟨Number.beq_self h.1, Number.beq_self h.2.1⟩

/-- So does a rectangle. -/
lemma Rect.beq_self {r : Rect} (h : ∀ x ∈ r.numbers, x.isNaN = false) : (r == r) = true := by
  rw [Rect.numbers, List.forall_mem_append] at h
  exact Bool.and_eq_true_iff.2 ⟨Point.beq_self h.1, Size.beq_self h.2⟩

/-- So do insets. -/
lemma EdgeInsets.beq_self {e : EdgeInsets} (h : ∀ x ∈ e.numbers, x.isNaN = false) : (e == e) = true := by
  simp only [EdgeInsets.numbers, List.forall_mem_cons] at h
  obtain ⟨htop, hleft, hbottom, hright, -⟩ := h
  change (e.top == e.top && (e.left == e.left && (e.bottom == e.bottom && e.right == e.right))) = true
  simp only [Number.beq_self htop, Number.beq_self hleft, Number.beq_self hbottom, Number.beq_self hright,
    Bool.and_self]

/-- So does a font whose size is a number. -/
lemma Font.beq_self {f : Font} (h : f.size.isNaN = false) : (f == f) = true := by
  cases f with
  | system weight x => exact Bool.and_eq_true_iff.2 ⟨beq_self_eq_true weight, Number.beq_self h⟩
  | named name x => exact Bool.and_eq_true_iff.2 ⟨beq_self_eq_true name, Number.beq_self h⟩

/-! ### Values -/

namespace Value

/-- The numbers that a text spells are numbers. Only these types can be read from the undefined number: the
size of a font is above zero, and the components of a colour are fractions of its channels. -/
def IsDefined : Value → Prop
  | .float x => x.isNaN = false
  | .double x => x.isNaN = false
  | .point p => ∀ x ∈ p.numbers, x.isNaN = false
  | .size s => ∀ x ∈ s.numbers, x.isNaN = false
  | .rect r => ∀ x ∈ r.numbers, x.isNaN = false
  | .edgeInsets e => ∀ x ∈ e.numbers, x.isNaN = false
  | _ => True

end Value

/-- A word of a list is read as it is written. -/
lemma Choice.ofText_word {family : ChoiceFamily} {raw : String} {c : Choice} (h : ofText family raw = .ok c) :
    ofText family c.word = .ok c := by
  simp only [ofText] at h
  split at h
  · next hmem =>
    cases h
    simp only [ofText, trim_trim]
    exact dif_pos hmem
  · cases h

namespace ValueType

variable {t : ValueType} {raw : String} {v : Value}

/-- What is written with the characters of numbers is not changed by trimming. -/
lemma trim_eq_of_inNumber {s : String} (h : ∀ c ∈ s.toList, InNumber c) : trim s = s :=
  trim_eq_self (isTrimmed_of_forall fun c hc => (h c hc).isBlank)

/-- A color in hexadecimal digits is read back. -/
lemma read_text_color (h : color.read raw = .ok v) (hhex : (trim raw).toList.head? = some '#') :
    color.read v.text = .ok v ∧ (v == v) = true := by
  unfold read Color.ofText? at h
  dsimp only at h
  rw [Color.named?_eq_none hhex, Option.none_or] at h
  split at h
  · next c hc =>
    cases h
    obtain ⟨r, g, b, a, hr, hg, hb, ha, rfl⟩ := Color.ofHex?_eq_some hc
    obtain ⟨hsharp, htrimmed⟩ := Color.isTrimmed_hex hr hg hb ha
    refine ⟨?_, Color.beq_self hr hg hb ha⟩
    unfold read Color.ofText? Value.text
    dsimp only
    rw [trim_eq_self htrimmed, Color.named?_eq_none hsharp, Option.none_or, Color.ofHex?_hex hr hg hb ha]
  · cases h

/-- **A value is read as it is written.** Whatever text a type accepts, the value of it is written so that the
same type reads the same value from what is written, and the value is equal to itself. A colour must have been
spelled with digits, for the components of a named one are not all fractions of a channel; and no number of
the value may be the undefined one, which is equal to nothing.

**Proof sketch.** One case for each type. Numbers are read as they are written (`Number.ofText?_text`,
`Number.singleOfText?_singleText`, `Number.integerOfText?_repr`), and no blank, comma or at sign is in their
texts (`Number.InNumber`). So a list of them is cut into the same numbers, and a font at the same at sign, since
its face cannot have another one. What has been trimmed once is not changed by trimming. -/
theorem read_text (hread : t.read raw = .ok v) (hdefined : v.IsDefined)
    (hhex : t = .color → (trim raw).toList.head? = some '#') :
    t.read v.text = .ok v ∧ (v == v) = true := by
  cases t with
  | color => exact read_text_color hread (hhex rfl)
  | string =>
    cases hread
    exact ⟨rfl, beq_self_eq_true raw⟩
  | font =>
    obtain ⟨f, hf, rfl⟩ := map_eq_ok.1 hread
    constructor
    · exact map_eq_ok.2 ⟨f, Font.ofText_text hf, rfl⟩
    · exact Font.beq_self (isNaN_of_lt (Font.hasFace_of_ofText hf).2)
  | integer =>
    unfold read at hread
    dsimp only at hread
    split at hread
    · next n hn =>
      cases hread
      obtain ⟨hlow, hhigh⟩ := bounds_of_integerOfText? hn
      constructor
      · unfold read Value.text
        dsimp only
        rw [trim_eq_of_inNumber fun _ => inNumber_of_mem_repr, integerOfText?_repr hlow hhigh]
      · exact beq_self_eq_true n
    · cases hread
  | float =>
    unfold read at hread
    dsimp only at hread
    split at hread
    · next x hx =>
      cases hread
      constructor
      · unfold read Value.text
        dsimp only
        rw [trim_eq_of_inNumber fun _ => inNumber_of_mem_singleText hdefined, singleOfText?_singleText hdefined]
      · exact single_beq_self hdefined
    · cases hread
  | double =>
    unfold read at hread
    dsimp only at hread
    split at hread
    · next x hx =>
      cases hread
      constructor
      · unfold read Value.text
        dsimp only
        rw [trim_eq_of_inNumber fun _ => inNumber_of_mem_text hdefined, ofText?_text hdefined]
      · exact Number.beq_self hdefined
    · cases hread
  | bool =>
    have htrim : trim "true" = "true" ∧ trim "false" = "false" := by decide
    unfold read at hread
    dsimp only at hread
    split_ifs at hread <;> cases hread
    · refine ⟨?_, rfl⟩
      unfold read Value.text
      simp [htrim]
    · refine ⟨?_, rfl⟩
      unfold read Value.text
      simp [htrim]
  | choice family =>
    obtain ⟨c, hc, rfl⟩ := map_eq_ok.1 hread
    constructor
    · exact map_eq_ok.2 ⟨c, Choice.ofText_word hc, rfl⟩
    · exact beq_self_eq_true c
  | point =>
    obtain ⟨_, -, hread⟩ := bind_eq_ok.1 hread
    obtain ⟨_, -, ⟨⟩⟩ := bind_eq_ok.1 hread
    exact ⟨bind_eq_ok.2 ⟨_, Geometry.readNumbers_text (List.cons_ne_nil _ _) hdefined, rfl⟩,
      Point.beq_self hdefined⟩
  | size =>
    obtain ⟨_, -, hread⟩ := bind_eq_ok.1 hread
    obtain ⟨_, -, ⟨⟩⟩ := bind_eq_ok.1 hread
    exact ⟨bind_eq_ok.2 ⟨_, Geometry.readNumbers_text (List.cons_ne_nil _ _) hdefined, rfl⟩,
      Size.beq_self hdefined⟩
  | rect =>
    obtain ⟨_, -, hread⟩ := bind_eq_ok.1 hread
    obtain ⟨_, -, ⟨⟩⟩ := bind_eq_ok.1 hread
    exact ⟨bind_eq_ok.2 ⟨_, Geometry.readNumbers_text (List.cons_ne_nil _ _) hdefined, rfl⟩,
      Rect.beq_self hdefined⟩
  | edgeInsets =>
    obtain ⟨_, -, hread⟩ := bind_eq_ok.1 hread
    obtain ⟨_, -, ⟨⟩⟩ := bind_eq_ok.1 hread
    exact ⟨bind_eq_ok.2 ⟨_, Geometry.readNumbers_text (List.cons_ne_nil _ _) hdefined, rfl⟩,
      EdgeInsets.beq_self hdefined⟩
  | image =>
    unfold read at hread
    dsimp only at hread
    split_ifs at hread with hempty
    cases hread
    constructor
    · unfold read Value.text
      dsimp only
      rw [trim_trim, if_neg hempty]
    · exact beq_self_eq_true (trim raw)

/-- A font whose name has blanks and a colon in it, in a size with a fraction. -/
theorem read_text_bodyText :
    font.read " Body Text: wide@12.5 " = .ok (.font (.named "Body Text: wide" 12.5)) ∧
      font.read (Value.font (.named "Body Text: wide" 12.5)).text =
        .ok (.font (.named "Body Text: wide" 12.5)) := by
  have hcut : cutAt? '@' (trimChars " Body Text: wide@12.5 ".toList) =
      some ("Body Text: wide".toList, "12.5".toList) := by decide +kernel
  have hsize : ofText? (trim "12.5") = some 12.5 ∧ (0.0 : Float) < 12.5 := by decide +kernel
  have hread : Font.readSize (String.ofList "12.5".toList) = .ok 12.5 := by
    unfold Font.readSize
    rw [String.ofList_toList, hsize.1]
    exact if_pos hsize.2
  have hfont : Font.ofText " Body Text: wide@12.5 " = .ok (.named "Body Text: wide" 12.5) := by
    unfold Font.ofText
    dsimp only
    rw [hcut]
    dsimp only
    rw [hread]
    rfl
  have hvalue : font.read " Body Text: wide@12.5 " = .ok (.font (.named "Body Text: wide" 12.5)) :=
    map_eq_ok.2 ⟨_, hfont, rfl⟩
  exact ⟨hvalue, (read_text hvalue trivial nofun).1⟩

end ValueType

end ViewMarkup
