import ViewMarkup.Files.Path
import ViewMarkup.Table

/-!
# A directory of files

The files below a working directory, and how a path finds one: every part but the last must be a
directory, and so must the last if a slash or a dot follows. Two dots lead back, and may lead out
of the working directory, where nothing is known to be. Names and paths have a greatest length in
bytes, and no path holds a null character.

## Main definitions

* `FileFault` — why a file is not read.
* `Directory`, with `read`, `stamp?`, `filesBelow`, `write`, `delete?`, `makeDirectory`.
-/

namespace ViewMarkup

/-- Why a file is not read. -/
inductive FileFault where
  /-- There is nothing at the path. -/
  | notFound
  /-- Something on the way is not a directory. -/
  | notDirectory
  /-- A directory is at the path. -/
  | isDirectory
  /-- A name on the way or the whole path is too long. -/
  | nameTooLong
  /-- The path holds a null character. -/
  | nullCharacter
  /-- The bytes are not a text. -/
  | notText
deriving Repr, DecidableEq

/-- The wording of a fault. -/
def FileFault.message : FileFault → String
  | notFound => "No such file or directory (os error 2)"
  | notDirectory => "Not a directory (os error 20)"
  | isDirectory => "Is a directory (os error 21)"
  | nameTooLong => "File name too long (os error 36)"
  | nullCharacter => "file name contained an unexpected NUL byte"
  | notText => "stream did not contain valid UTF-8"

/-- What is seen of a file without reading it. -/
structure Stamp where
  /-- When it was last written, if that is known. -/
  modified : Option Nat
  /-- The number of its bytes, or of the entries of a directory. -/
  length : Nat
deriving Repr, DecidableEq

/-- What is found at a path. -/
inductive FileEntry where
  | directory
  /-- A file with its bytes and the time of its last writing. -/
  | file (bytes : ByteArray) (written : Nat)

/-- Where a path leads. -/
inductive Location where
  /-- Below the working directory, by the names on the way. -/
  | inside (names : List String)
  /-- To a directory outside. -/
  | outside
deriving Repr, DecidableEq

/-- The directory that holds what is at a location. -/
def Location.above : Location → Location
  | inside [] => outside
  | inside names => inside names.dropLast
  | outside => outside

/-- The names that lead to something in a directory. -/
def Location.below? (name : String) : Location → Option (List String)
  | inside names => some (names ++ [name])
  | outside => none

namespace Path

/-- The most bytes that a name may have. -/
def nameLimit : Nat := 255

/-- The most bytes that the spelling of a path may have. -/
def spellingLimit : Nat := 4095

/-- Why a path leads nowhere, whatever the files are. -/
def fault? (p : Path) : Option FileFault :=
  if p.spelling.toList.contains '\x00' then some .nullCharacter
  else if p.spelling.isEmpty then some .notFound
  else if spellingLimit < p.spelling.utf8ByteSize then some .nameTooLong
  else none

/-- Where the way along a path starts. -/
def start (p : Path) : Location :=
  match p.pieces with
  | [] :: _ => .outside
  | _ => .inside []

/-- The steps of the way along a path. -/
def steps (p : Path) : List (List Char) :=
  match p.pieces with
  | [] :: rest => rest
  | pieces => pieces

end Path

/-- The files below a working directory. -/
structure Directory where
  /-- The entries, by the names on the way. -/
  entries : Table (List String) FileEntry := {}
  /-- How often a file was written. -/
  clock : Nat := 0

namespace Directory

/-- What is at a location. -/
def find? (d : Directory) : Location → Option FileEntry
  | .outside => some .directory
  | .inside names => if names.isEmpty then some .directory else d.entries.get? names

/-- One step along a path, which must start in a directory. -/
def step (d : Directory) (l : Location) (piece : List Char) : Except FileFault Location :=
  match d.find? l with
  | some .directory =>
      match piece with
      | [] => .ok l
      | ['.'] => .ok l
      | ['.', '.'] => .ok l.above
      | cs =>
          let name := String.ofList cs
          if Path.nameLimit < name.utf8ByteSize then .error .nameTooLong
          else
            match l.below? name with
            | some names =>
                if d.entries.contains names then .ok (.inside names) else .error .notFound
            | none => .error .notFound
  | some (.file ..) => .error .notDirectory
  | none => .error .notFound

/-- Where a path leads. -/
def resolve (d : Directory) (p : Path) : Except FileFault Location :=
  match p.fault? with
  | some fault => .error fault
  | none => p.steps.foldlM d.step p.start

/-- The text of a file. -/
def read (d : Directory) (p : Path) : Except FileFault String :=
  match d.resolve p with
  | .error e => .error e
  | .ok l =>
      match d.find? l with
      | none => .error .notFound
      | some .directory => .error .isDirectory
      | some (.file bytes _) =>
          match String.fromUTF8? bytes with
          | some text => .ok text
          | none => .error .notText

/-- A file that holds the bytes of a text is read as that text. -/
theorem read_eq_ok {d : Directory} {p : Path} {l : Location} {text : String} {written : Nat}
    (hl : d.resolve p = .ok l) (hf : d.find? l = some (.file text.toUTF8 written)) :
    d.read p = .ok text := by
  have hbytes : String.fromUTF8? text.toUTF8 = some text := dif_pos text.isValidUTF8
  rw [read, hl]
  simp only [hf, hbytes]

/-- The number of entries that a directory holds, without those of the directories in it. -/
def countAt (d : Directory) : Location → Nat
  | .outside => 0
  | .inside names => d.entries.keys.countP fun found => !found.isEmpty && found.dropLast == names

/-- What is seen of the file or the directory at a path, if something is there. -/
def stamp? (d : Directory) (p : Path) : Option Stamp :=
  match d.resolve p with
  | .error _ => none
  | .ok l =>
      (d.find? l).map fun
        | .directory => ⟨none, d.countAt l⟩
        | .file bytes written => ⟨some written, bytes.size⟩

/-- The files below a directory at any depth, spelled from the spelling of the directory. -/
def filesBelow (d : Directory) (p : Path) : Except FileFault (List Path) :=
  match d.resolve p with
  | .error e => .error e
  | .ok l =>
      match d.find? l, l with
      | some .directory, .inside names =>
          .ok (d.entries.entries.filterMap fun (found, entry) =>
            match entry with
            | .file .. =>
                if names.isPrefixOf found then
                  some ((found.drop names.length).foldl Path.child p)
                else none
            | .directory => none)
      | some .directory, .outside => .ok []
      | _, _ => .error .notDirectory

/-- The directory with a directory made wherever there is nothing on a way. It is left as far as it
came if something else is in the way. -/
def makeAlong (d : Directory) (l : Location) : List (List Char) → Directory
  | [] => d
  | piece :: rest =>
      match d.step l piece with
      | .ok l => makeAlong d l rest
      | .error .notFound =>
          match l.below? (String.ofList piece) with
          | some names =>
              makeAlong { d with entries := d.entries.insert names .directory } (.inside names) rest
          | none => d
      | .error _ => d

/-- The directory with a directory at a path, and with the ones on the way. -/
def makeDirectory (d : Directory) (p : Path) : Directory :=
  match p.fault? with
  | some _ => d
  | none => d.makeAlong p.start p.steps

/-- The names that lead to a file at a path, or to the one that would be made there: nothing but
the file itself may be missing. -/
def filePlace? (d : Directory) (p : Path) : Option (List String) :=
  match d.resolve p with
  | .ok (.inside names) =>
      match d.find? (.inside names) with
      | some (.file ..) => some names
      | _ => none
  | .error .notFound =>
      match p.steps.dropLast.foldlM d.step p.start, p.steps.getLast? with
      | .ok l, some piece => l.below? (String.ofList piece)
      | _, _ => none
  | _ => none

/-- The directory with a file written, and with the directories on the way. No file is written if
something else is in the way. -/
def write (d : Directory) (p : Path) (bytes : ByteArray) : Directory :=
  let d := d.makeDirectory p.parent
  match d.filePlace? p with
  | some names =>
      { d with entries := d.entries.insert names (.file bytes d.clock), clock := d.clock + 1 }
  | none => d

/-- The directory without a file, if there is one at the path. -/
def delete? (d : Directory) (p : Path) : Option Directory :=
  match d.resolve p with
  | .ok (.inside names) =>
      match d.find? (.inside names) with
      | some (.file ..) => some { d with entries := d.entries.erase names }
      | _ => none
  | _ => none

end Directory

end ViewMarkup
