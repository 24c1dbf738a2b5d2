import ViewMarkup.Text.Blank

/-!
# Paths

A path is spelled with slashes. Two spellings mean the same path when their parts agree: doubled
slashes, a slash at the end and a dot between slashes are no parts. A dot at the very beginning is
one, and so are two dots anywhere.

## Main definitions

* `PathPart`, with the order in which paths are listed.
* `Path`, `Path.key` — what a spelling means, `Path.fileName?`, `Path.parent`,
  `Path.child`.
-/

namespace ViewMarkup

/-- A part of a path. -/
inductive PathPart where
  /-- The slash at the beginning. -/
  | top
  /-- The dot at the beginning. -/
  | here
  /-- Two dots. -/
  | above
  /-- A name. -/
  | name (text : String)
deriving Repr, DecidableEq

namespace PathPart

/-- The rank of a part in the order of parts. -/
def rank : PathPart → Nat
  | top => 0
  | here => 1
  | above => 2
  | name _ => 3

/-- The text of a name. -/
def text : PathPart → String
  | name text => text
  | _ => ""

instance : LT PathPart := ⟨fun a b => a.rank < b.rank ∨ a.rank = b.rank ∧ a.text < b.text⟩

instance : DecidableLT PathPart := fun a b =>
  inferInstanceAs (Decidable (a.rank < b.rank ∨ a.rank = b.rank ∧ a.text < b.text))

/-- The part that stands between slashes, if there is one. -/
def ofPiece? : List Char → Option PathPart
  | [] => none
  | ['.'] => none
  | ['.', '.'] => some above
  | cs => some (name (String.ofList cs))

end PathPart

/-- A path as it is spelled. -/
structure Path where
  /-- The spelling. -/
  spelling : String
deriving Repr, DecidableEq

/-- What a spelling means: the parts. -/
abbrev PathKey := List PathPart

namespace Path

/-- The texts between the slashes. -/
def pieces (p : Path) : List (List Char) := Text.pieces (· = '/') p.spelling.toList

/-- The parts of a path. -/
def key (p : Path) : PathKey :=
  match p.pieces with
  | [] :: rest => if rest.isEmpty then [] else .top :: rest.filterMap PathPart.ofPiece?
  | ['.'] :: rest => .here :: rest.filterMap PathPart.ofPiece?
  | pieces => pieces.filterMap PathPart.ofPiece?

/-- Whether a path is not listed after another one. -/
def notAfter (p q : Path) : Bool := !decide (q.key < p.key)

/-- The name at the end of a path. -/
def fileName? (p : Path) : Option String :=
  match p.key.getLast? with
  | some (.name text) => some text
  | _ => none

/-- The path of the directory that holds the last part of a path. -/
def parent (p : Path) : Path :=
  let behind := p.pieces.reverse.dropWhile fun piece => (PathPart.ofPiece? piece).isNone
  match behind.tail.reverse with
  | [[]] => ⟨"/"⟩
  | pieces => ⟨"/".intercalate (pieces.map String.ofList)⟩

/-- The path of something in a directory. -/
def child (p : Path) (name : String) : Path :=
  if p.spelling.isEmpty || p.spelling.toList.getLast? = some '/' then ⟨p.spelling ++ name⟩
  else ⟨p.spelling ++ "/" ++ name⟩

end Path

end ViewMarkup
