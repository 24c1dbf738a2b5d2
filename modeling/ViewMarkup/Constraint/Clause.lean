import ViewMarkup.Constraint.Priority
import ViewMarkup.Constraint.Token

/-!
# Clauses: one constraint as written

A clause is `[name =] [relation] [target [. anchor]] {modifier} [@ priority]`. Each reader below
takes the tokens that are left and returns what it read with the tokens behind it. A clause is
read before the anchors are known to which it applies.

## Main definitions

* `Target`, `Modifier`, `Clause`.
* `Clause.ofTokens` — reads one clause and refuses leftover tokens.
-/

namespace ViewMarkup

/-- What an anchor is related to. -/
inductive Target where
  /-- The parent of the element. -/
  | parent
  /-- An element of the same scope, by its field name. -/
  | field (name : String)
  /-- An element of the same scope, by its layout id. -/
  | id (name : String)
  /-- A number. -/
  | constant (value : Float)
deriving Repr, BEq

namespace Target

/-- A target as markup writes it. -/
def text : Target → String
  | parent => "super"
  | field name => name
  | id name => "id:" ++ name
  | constant value => Number.text value

/-- Whether the target is a number. -/
def isConstant : Target → Bool
  | constant _ => true
  | _ => false

end Target

/-- What a modifier does with its amount. -/
inductive ModifierKind where
  | multiplied
  | divided
  | offset
  | inset
deriving Repr, DecidableEq

namespace ModifierKind

/-- The name of a modifier. -/
def name : ModifierKind → String
  | multiplied => "multiplied"
  | divided => "divided"
  | offset => "offset"
  | inset => "inset"

/-- The modifier of a given name. -/
def ofName? (word : String) : Option ModifierKind :=
  [multiplied, divided, offset, inset].find? fun m => m.name = word

/-- Whether the argument may carry the label `by`. -/
def takesLabel : ModifierKind → Bool
  | multiplied | divided => true
  | offset | inset => false

end ModifierKind

/-- A modifier with its amount. -/
structure Modifier where
  /-- What is done. -/
  kind : ModifierKind
  /-- The amount. -/
  amount : Float
deriving Repr, BEq

/-- One constraint as written. -/
structure Clause where
  /-- The name under which the constraint is captured. -/
  captureName : Option String
  /-- The relation, equality when none is written. -/
  relation : Relation
  /-- The target, the parent when none is written. -/
  target : Target
  /-- The anchor written behind the target. -/
  targetAnchor : Option Anchor
  /-- The modifiers in the order written. -/
  modifiers : List Modifier
  /-- The priority, required when none is written. -/
  priority : Priority
deriving Repr, BEq

namespace Clause

/-- Whether the tokens begin with one of the given kind. -/
def startsWith (kind : TokenKind) (ts : List Token) : Bool := ts.head?.any fun t => t.kind = kind

/-- A name with a sign of assignment behind it. -/
def readCapture : List Token → Option String × List Token
  | name :: sign :: rest =>
      if name.kind = .ident ∧ sign.kind = .assign then (some name.text, rest)
      else (none, name :: sign :: rest)
  | ts => (none, ts)

/-- Whether a token of this kind can only be a relation. -/
def isRelation : TokenKind → Bool
  | .equalEqual | .lessEqual | .greaterEqual | .relationKeyword => true
  | _ => false

/-- A relation, or equality when none is written. -/
def readRelation : List Token → Except LayoutError (Relation × List Token)
  | [] => .ok (.equal, [])
  | t :: rest =>
      if isRelation t.kind then
        match Relation.ofText? t.text with
        | some r => .ok (r, rest)
        | none => .error (.unknownRelation t.text)
      else .ok (.equal, t :: rest)

/-- A written target. A word with a bracket behind it is a modifier instead, except for the word
that names the parent. -/
def readTarget : List Token → Option Target × List Token
  | [] => (none, [])
  | t :: rest =>
      match t.kind with
      | .ident =>
          if t.text = "super" then (some .parent, rest)
          else if startsWith .parenOpen rest then (none, t :: rest)
          else (some (.field t.text), rest)
      | .layoutId => (some (.id (String.ofList (t.text.toList.drop 3))), rest)
      | .number =>
          match Number.ofText? t.text with
          | some v => (some (.constant v), rest)
          | none => (none, t :: rest)
      | _ => (none, t :: rest)

/-- An anchor behind a written target; a number takes none. -/
def readTargetAnchor (target : Target) :
    List Token → Except LayoutError (Option Anchor × List Token)
  | [] => .ok (none, [])
  | t :: rest =>
      if t.kind = .dot then
        if target.isConstant then .error (.unexpectedToken t.text)
        else
          match rest with
          | [] => .error (.unexpectedEnd "expected target anchor after '.'")
          | name :: rest =>
              if name.kind = .ident then
                match Anchor.ofKeyword? name.text with
                | some a => .ok (some a, rest)
                | none => .error (.unknownTargetAnchor name.text)
              else .error (.unknownTargetAnchor name.text)
      else .ok (none, t :: rest)

/-- The label `by` and its colon are skipped before the argument of a modifier that takes them. -/
def skipLabel (kind : ModifierKind) : List Token → List Token
  | label :: colon :: rest =>
      if kind.takesLabel ∧ label.kind = .ident ∧ label.text = "by" ∧ colon.kind = .colon then rest
      else label :: colon :: rest
  | ts => ts

/-- Leaving out a label takes no more than what is there. -/
theorem length_skipLabel_le (kind : ModifierKind) (ts : List Token) :
    (skipLabel kind ts).length ≤ ts.length := by
  match ts with
  | [] => simp [skipLabel]
  | [_] => simp [skipLabel]
  | label :: colon :: rest =>
      simp only [skipLabel]
      split
      · simp only [List.length_cons]; omega
      · simp

/-- The argument of a modifier up to and with its closing bracket. -/
def readArgument (kind : ModifierKind) (ts : List Token) :
    Except LayoutError ({ rest : List Token // rest.length ≤ ts.length } × Modifier) :=
  match h : skipLabel kind ts with
  | [] => .error (.unexpectedEnd ("expected argument for `" ++ kind.name ++ "`"))
  | t :: rest =>
      match (if t.kind = .number then Number.ofText? t.text else none), rest, h with
      | none, _, _ => .error (.invalidModifier kind.name t.text)
      | some _, [], _ => .error (.unexpectedEnd "expected ')' after modifier argument")
      | some amount, close :: rest, h =>
          if close.kind = .parenClose then
            if kind = .divided ∧ amount == 0 then .error (.invalidModifier kind.name "0")
            else
              .ok (⟨rest, by
                have := length_skipLabel_le kind ts
                rw [h] at this
                simp only [List.length_cons] at this
                omega⟩, ⟨kind, amount⟩)
          else .error (.unexpectedToken close.text)

/-- The modifiers: calls of known names, up to the first token that is no word. -/
def readModifiers : List Token → Except LayoutError (List Modifier × List Token)
  | [] => .ok ([], [])
  | name :: rest =>
      if name.kind = .ident then
        match rest with
        | [] => .error (.unexpectedToken name.text)
        | bracket :: arguments =>
            if bracket.kind = .parenOpen then
              match ModifierKind.ofName? name.text with
              | none => .error (.unknownModifier name.text)
              | some kind =>
                  match readArgument kind arguments with
                  | .error e => .error e
                  | .ok (rest, modifier) =>
                      match readModifiers rest.val with
                      | .error e => .error e
                      | .ok (modifiers, rest) => .ok (modifier :: modifiers, rest)
            else .error (.unexpectedToken name.text)
      else .ok ([], name :: rest)
termination_by ts => ts.length
decreasing_by
  have := rest.property
  simp only [List.length_cons]
  omega

/-- A priority behind its sign, or the required one. -/
def readPriority : List Token → Except LayoutError (Priority × List Token)
  | [] => .ok (.required, [])
  | t :: rest =>
      if t.kind = .atSign then
        match rest with
        | [] => .error (.unexpectedEnd "expected priority after '@'")
        | value :: rest =>
            if value.kind = .ident ∨ value.kind = .number then
              (Priority.ofText value.text).map fun p => (p, rest)
            else .error (.unknownPriority value.text)
      else .ok (.required, t :: rest)

/-- Reads one clause. -/
def ofTokens (ts : List Token) : Except LayoutError Clause := do
  let (captureName, ts) := readCapture ts
  let (relation, ts) ← readRelation ts
  let (written, ts) := readTarget ts
  let (targetAnchor, ts) ←
    match written with
    | some target => readTargetAnchor target ts
    | none => .ok (none, ts)
  let (modifiers, ts) ← readModifiers ts
  let (priority, ts) ← readPriority ts
  match ts with
  | [] =>
      .ok { captureName, relation, target := written.getD .parent, targetAnchor, modifiers,
            priority }
  | t :: _ => .error (.unexpectedToken t.text)

end Clause

end ViewMarkup
