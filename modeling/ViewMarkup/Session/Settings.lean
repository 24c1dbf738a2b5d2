import ViewMarkup.Files.Path

/-!
# Settings of a session

## Main definitions

* `Settings`, `Settings.isDocument`.
-/

namespace ViewMarkup

/-- The settings of a session. -/
structure Settings where
  /-- The milliseconds between two looks at a watched file. -/
  pollInterval : Nat := 250
  /-- How the name of a document ends. -/
  ending : String := ".ui.xml"
  /-- The documents of shared styles that are loaded at the start. -/
  sharedStyles : List Path := []
  /-- The directory that is searched for documents at the start. -/
  searchRoot : Option Path := none
  /-- The types that the host has compiled in, each once and in order. -/
  compiled : List String := []
  /-- Whether files are watched. -/
  watches : Bool := true
deriving Repr, DecidableEq

namespace Settings

/-- Names with one put among them, in order and each once. -/
def placeName (name : String) : List String → List String
  | [] => [name]
  | n :: ns =>
      if name = n then n :: ns
      else if name < n then name :: n :: ns
      else n :: placeName name ns

/-- The settings with a type marked as compiled in. -/
def compile (s : Settings) (typeName : String) : Settings :=
  { s with compiled := placeName typeName s.compiled }

/-- Whether a path names a document: its last part is a name that ends as documents do, with
something before the ending. -/
def isDocument (s : Settings) (p : Path) : Bool :=
  match p.fileName? with
  | some name => (Text.before? s.ending name).any fun stem => !stem.isEmpty
  | none => false

end Settings

end ViewMarkup
