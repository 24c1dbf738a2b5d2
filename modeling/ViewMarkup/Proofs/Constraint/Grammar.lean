import Mathlib.Tactic.Lemma
import ViewMarkup.Constraint.Basic

/-!
# The grammar of layout attributes

A layout attribute holds clauses separated by semicolons, and a clause is

    [Ident '='] [relation] [target ['.' anchor]] {modifier} ['@' priority]

where every part may be missing and a word may be a capture, a target, an anchor, a modifier, a
label or a priority. This module states the grammar without a word on how it is read: a derivation
names the part to which every token of a clause belongs, and its fields hold the proofs that the
tokens are of the right kind and obey the side conditions of the language.

## Main definitions

* `Capture`, `WrittenRelation`, `Reference`, `Call`, `WrittenPriority` — the parts of a clause.
* `Derivation` — one clause taken apart, with `Derivation.tokens`, the tokens that it derives, and
  `Derivation.clause`, what it means.
* `Derivation.Fits` — the side conditions that depend on the attribute's keyword.
* `Grammar.segments` — the runs of tokens that are clauses.

## Main statements

* `Relation.ofText?_eq_some_iff`, `Anchor.ofKeyword?_eq_some_iff`,
  `AnchorKeyword.ofName?_eq_some_iff`, `ModifierKind.ofName?_eq_some_iff` — the words of the
  language are looked up by their spelling.
-/

namespace ViewMarkup

/-! ### The words of the language -/

namespace Relation

/-- The symbol and the keywords of a relation. -/
def spellings : Relation → List String
  | equal => ["==", ":eq"]
  | atMost => ["<=", ":lt", ":lte"]
  | atLeast => [">=", ":gt", ":gte"]

/-- A relation is read from its spellings, and from nothing else. -/
theorem ofText?_eq_some_iff {text : String} {r : Relation} :
    ofText? text = some r ↔ text ∈ r.spellings := by
  constructor
  · intro h
    unfold ofText? at h
    split at h
    · obtain rfl := Option.some.inj h
      simpa [spellings]
    split at h
    · obtain rfl := Option.some.inj h
      simpa [spellings]
    split at h
    · obtain rfl := Option.some.inj h
      simpa [spellings]
    · cases h
  · cases r <;> intro h <;> simp only [spellings, List.mem_cons, List.not_mem_nil, or_false] at h
    · obtain rfl | rfl := h <;> rfl
    · obtain rfl | rfl | rfl := h <;> rfl
    · obtain rfl | rfl | rfl := h <;> rfl

end Relation

namespace Anchor

/-- An anchor is read from its keyword, and from nothing else. -/
theorem ofKeyword?_eq_some_iff {word : String} {a : Anchor} :
    ofKeyword? word = some a ↔ word = a.keyword := by
  constructor
  · intro h
    have := List.find?_some h
    exact (of_decide_eq_true this).symm
  · rintro rfl
    cases a <;> rfl

end Anchor

namespace AnchorKeyword

/-- The spelling of a keyword. -/
def name : AnchorKeyword → String
  | single a => a.keyword
  | size => "size"
  | center => "center"
  | edges => "edges"
  | fillHorizontally => "fillHorizontally"
  | fillVertically => "fillVertically"
  | before => "before"
  | after => "after"
  | above => "above"
  | below => "below"

/-- An attribute is read from its name, and from nothing else. -/
theorem ofName?_eq_some_iff {word : String} {keyword : AnchorKeyword} :
    ofName? word = some keyword ↔ word = keyword.name := by
  constructor
  · intro h
    unfold ofName? at h
    split at h
    · rename_i a ha
      obtain rfl := Option.some.inj h
      exact Anchor.ofKeyword?_eq_some_iff.mp ha
    · obtain ⟨front, back, hentries, -⟩ := List.lookup_eq_some_iff.mp h
      have hmem : (word, keyword) ∈ front ++ (word, keyword) :: back := by simp
      rw [← hentries] at hmem
      obtain ⟨k, -, hk⟩ : ∃ k ∈ [size, center, edges, fillHorizontally, fillVertically, before,
          after, above, below], (k.name, k) = (word, keyword) := List.mem_map.mp hmem
      obtain ⟨rfl, rfl⟩ := Prod.mk.inj hk
      rfl
  · rintro rfl
    cases keyword with
    | single a => cases a <;> rfl
    | _ => rfl

end AnchorKeyword

namespace ModifierKind

/-- A modifier is read from its name, and from nothing else. -/
theorem ofName?_eq_some_iff {word : String} {m : ModifierKind} :
    ofName? word = some m ↔ word = m.name := by
  constructor
  · intro h
    have := List.find?_some h
    exact (of_decide_eq_true this).symm
  · rintro rfl
    cases m <;> rfl

end ModifierKind

namespace Priority

/-- The named steps of the scale. -/
def names : List (String × Priority) :=
  [("required", required), ("high", high), ("medium", medium), ("low", low)]

end Priority

namespace Token

/-- The number that a numeral denotes. -/
def number (t : Token) : Float := (Number.ofText? t.text).getD 0

/-- The number that a numeral denotes on the scale of priorities. -/
def single (t : Token) : Float32 := (Number.singleOfText? t.text).getD 0

end Token

/-! ### The parts of a clause -/

/-- The name under which a constraint is captured: `Ident '='`. -/
structure Capture where
  /-- The name. -/
  name : Token
  /-- The sign of assignment. -/
  sign : Token
  isIdent : name.kind = .ident
  isAssign : sign.kind = .assign

/-- A relation as written, by its symbol or by a known keyword. -/
structure WrittenRelation where
  /-- The symbol or keyword. -/
  token : Token
  /-- The relation it stands for. -/
  relation : Relation
  isRelation : Clause.isRelation token.kind = true
  isSpelled : token.text ∈ relation.spellings

/-- A target as written. -/
inductive WrittenTarget where
  /-- The word for the parent. -/
  | parent (token : Token) (isIdent : token.kind = .ident) (isSuper : token.text = "super")
  /-- Another word. -/
  | field (token : Token) (isIdent : token.kind = .ident) (notSuper : token.text ≠ "super")
  /-- A layout id behind its prefix. -/
  | id (token : Token) (name : String) (isLayoutId : token.kind = .layoutId)
      (isSpelled : token.text = "id:" ++ name)
  /-- A number. -/
  | constant (token : Token) (isNumber : token.kind = .number)

/-- An anchor as written behind a target: `'.' Ident`. -/
structure WrittenAnchor where
  /-- The point. -/
  point : Token
  /-- The word behind it. -/
  word : Token
  /-- The anchor it names. -/
  anchor : Anchor
  isDot : point.kind = .dot
  isIdent : word.kind = .ident
  isKeyword : word.text = anchor.keyword

namespace WrittenTarget

/-- The token of a target. -/
def token : WrittenTarget → Token
  | parent t _ _ | field t _ _ | id t _ _ _ | constant t _ => t

/-- The target that is meant. -/
def meaning : WrittenTarget → Target
  | parent _ _ _ => .parent
  | field t _ _ => .field t.text
  | id _ name _ _ => .id name
  | constant t _ => .constant t.number

end WrittenTarget

/-- A target with the anchor behind it; a number has none. -/
structure Reference where
  /-- The target. -/
  target : WrittenTarget
  /-- The anchor. -/
  anchor : Option WrittenAnchor
  noneAfterNumber : target.meaning.isConstant = true → anchor = none

/-- The label of an argument: `'by' ':'`. -/
structure Label where
  /-- The word. -/
  word : Token
  /-- The colon. -/
  colon : Token
  isIdent : word.kind = .ident
  isBy : word.text = "by"
  isColon : colon.kind = .colon

/-- A modifier with its argument: a known name and one number in brackets, behind a label only
where the modifier takes one. A divisor is not zero. -/
structure Call where
  /-- What is done. -/
  kind : ModifierKind
  /-- The name of the modifier. -/
  name : Token
  /-- The bracket before the argument. -/
  bracket : Token
  /-- The label of the argument. -/
  label : Option Label
  /-- The argument. -/
  amount : Token
  /-- The bracket behind the argument. -/
  close : Token
  isIdent : name.kind = .ident
  isName : name.text = kind.name
  isOpen : bracket.kind = .parenOpen
  takesLabel : label.isSome = true → kind.takesLabel = true
  isNumber : amount.kind = .number
  isClose : close.kind = .parenClose
  isDivisor : kind = .divided → (amount.number == 0) = false

/-- A priority as written: `'@'` and the name of a step or a number on the scale. -/
inductive WrittenPriority where
  /-- The name of a step. -/
  | step (sign word : Token) (priority : Priority) (isAt : sign.kind = .atSign)
      (isIdent : word.kind = .ident) (isName : (word.text, priority) ∈ Priority.names)
  /-- A number. -/
  | number (sign value : Token) (isAt : sign.kind = .atSign) (isNumber : value.kind = .number)
      (onScale : Priority.onScale value.single = true)

/-! ### The tokens that a part derives -/

/-- The tokens of a capture. -/
def Capture.tokens (c : Capture) : List Token := [c.name, c.sign]

/-- The tokens of a relation. -/
def WrittenRelation.tokens (r : WrittenRelation) : List Token := [r.token]

/-- The tokens of an anchor. -/
def WrittenAnchor.tokens (a : WrittenAnchor) : List Token := [a.point, a.word]

/-- The tokens of a label. -/
def Label.tokens (l : Label) : List Token := [l.word, l.colon]

/-- The tokens of a priority. -/
def WrittenPriority.tokens : WrittenPriority → List Token
  | step sign word _ _ _ _ => [sign, word]
  | number sign value _ _ _ => [sign, value]

/-- The tokens of a part that may be missing. -/
def optional {α : Type} (tokens : α → List Token) : Option α → List Token
  | none => []
  | some part => tokens part

/-- A part that is missing has no tokens. -/
@[simp]
lemma optional_none {α : Type} (tokens : α → List Token) : optional tokens none = [] := rfl

/-- A part that is there has its own. -/
@[simp]
lemma optional_some {α : Type} (tokens : α → List Token) (part : α) :
    optional tokens (some part) = tokens part := rfl

/-- The tokens of a target with its anchor. -/
def Reference.tokens (r : Reference) : List Token :=
  r.target.token :: optional WrittenAnchor.tokens r.anchor

/-- The tokens of a modifier. -/
def Call.tokens (c : Call) : List Token :=
  c.name :: c.bracket :: (optional Label.tokens c.label ++ [c.amount, c.close])

/-- The modifier that is meant. -/
def Call.modifier (c : Call) : Modifier := ⟨c.kind, c.amount.number⟩

/-- The priority that is meant. -/
def WrittenPriority.priority : WrittenPriority → Priority
  | step _ _ p _ _ _ => p
  | number _ value _ _ _ => .custom value.single

/-! ### Clauses -/

/-- A clause taken apart. -/
structure Derivation where
  /-- The name under which the constraint is captured. -/
  capture : Option Capture
  /-- The relation. -/
  relation : Option WrittenRelation
  /-- The target with its anchor. -/
  reference : Option Reference
  /-- The modifiers. -/
  calls : List Call
  /-- The priority. -/
  priority : Option WrittenPriority

namespace Derivation

/-- The tokens of a clause, part by part. -/
def tokens (d : Derivation) : List Token :=
  optional Capture.tokens d.capture ++
    (optional WrittenRelation.tokens d.relation ++
      (optional Reference.tokens d.reference ++
        (d.calls.flatMap Call.tokens ++ optional WrittenPriority.tokens d.priority)))

/-- What a clause means: equality with the parent where no relation and no target is written, and
required where no priority is. -/
def clause (d : Derivation) : Clause where
  captureName := d.capture.map fun c => c.name.text
  relation := (d.relation.map WrittenRelation.relation).getD .equal
  target := (d.reference.map fun r => r.target.meaning).getD .parent
  targetAnchor := d.reference.bind fun r => r.anchor.map WrittenAnchor.anchor
  modifiers := d.calls.map Call.modifier
  priority := (d.priority.map WrittenPriority.priority).getD .required

/-- A clause fits a keyword if it writes an anchor behind its target only where the keyword stands
for one anchor, and a number as its target only where every anchor is a dimension. -/
structure Fits (d : Derivation) (keyword : AnchorKeyword) : Prop where
  single : d.clause.targetAnchor.isSome = true → keyword.expansion.length = 1
  dimensions : d.clause.target.isConstant = true →
    ∀ anchor ∈ keyword.expansion, anchor.1 = .width ∨ anchor.1 = .height

/-- The constraints of a clause: one for every anchor of the keyword, in order. -/
def constraints (d : Derivation) (keyword : AnchorKeyword) : List Constraint :=
  keyword.expansion.map fun (anchor, default) => d.clause.forAnchor anchor default

end Derivation

namespace Grammar

/-- The runs of tokens between semicolons that are not empty. -/
def runs (ts : List Token) : List (List Token) :=
  (ts.splitOnP fun t => t.kind = .semicolon).filter fun run => !run.isEmpty

/-- The runs of tokens that are clauses: a value without any other token than semicolons is one
empty clause. -/
def segments (ts : List Token) : List (List Token) := if runs ts = [] then [[]] else runs ts

end Grammar

end ViewMarkup
