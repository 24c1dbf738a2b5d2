import ViewMarkup.Files.Path
import ViewMarkup.Text.Lines

/-!
# Diagnostics

What is wrong with which document: for each path the latest error.

## Main definitions

* `Diagnostics`, with `record`, `clear`, `get?`, `overlay`.

## Main statements

* `Diagnostics.get?_record`, `Diagnostics.get?_clear` — the errors after a change.
-/

namespace ViewMarkup

/-- The latest error of each path, in the order of paths, each path once and in the spelling under
which it came first. -/
structure Diagnostics where
  /-- The paths with their errors. -/
  entries : List (Path × String) := []
deriving Repr, DecidableEq

namespace Diagnostics

/-- Entries with an error put among them, in the place of the one before for the same path. -/
def place (p : Path) (message : String) : List (Path × String) → List (Path × String)
  | [] => [(p, message)]
  | e :: es =>
      if p.key = e.1.key then (e.1, message) :: es
      else if p.key < e.1.key then (p, message) :: e :: es
      else e :: place p message es

/-- The diagnostics with an error recorded or replaced. -/
def record (d : Diagnostics) (p : Path) (message : String) : Diagnostics :=
  ⟨place p message d.entries⟩

/-- The diagnostics without the error of a path. -/
def clear (d : Diagnostics) (p : Path) : Diagnostics :=
  ⟨d.entries.filter fun e => e.1.key ≠ p.key⟩

/-- The error of a path. -/
def get? (d : Diagnostics) (p : Path) : Option String :=
  (d.entries.find? fun e => e.1.key = p.key).map (·.2)

/-- What placing an error does to the error of a path. -/
theorem find?_place (p q : Path) (message : String) (es : List (Path × String)) :
    ((place p message es).find? fun e => e.1.key = q.key).map (·.2)
      = if p.key = q.key then some message
        else (es.find? fun e => e.1.key = q.key).map (·.2) := by
  induction es with
  | nil => by_cases h : p.key = q.key <;> simp [place, h]
  | cons e es ih =>
      simp only [place]
      split
      · next he => by_cases h : e.1.key = q.key <;> simp [he, h]
      · next he =>
          split
          · by_cases h : p.key = q.key <;> simp [h]
          · by_cases h : e.1.key = q.key
            · have : p.key ≠ q.key := fun hp => he (hp.trans h.symm)
              simp [h, this]
            · simp only [List.find?_cons, h, decide_false]
              exact ih

/-- Recording replaces the error of the path and keeps those of all others. -/
@[simp]
theorem get?_record (d : Diagnostics) (p q : Path) (message : String) :
    (d.record p message).get? q = if p.key = q.key then some message else d.get? q :=
  find?_place _ _ _ _

/-- Clearing removes the error of the path and keeps those of all others. -/
@[simp]
theorem get?_clear (d : Diagnostics) (p q : Path) :
    (d.clear p).get? q = if p.key = q.key then none else d.get? q := by
  obtain ⟨es⟩ := d
  simp only [clear, get?]
  induction es with
  | nil => simp
  | cons e es ih =>
      by_cases he : e.1.key = p.key
      · rw [List.filter_cons_of_neg (by simp [he]), ih]
        by_cases h : p.key = q.key <;> simp [h, he]
      · rw [List.filter_cons_of_pos (by simp [he])]
        by_cases h : e.1.key = q.key
        · have : p.key ≠ q.key := fun hp => he (h.trans hp.symm)
          simp [h, this]
        · simp only [List.find?_cons, h, decide_false]
          exact ih

/-- Whether a path has an error. -/
def contains (d : Diagnostics) (p : Path) : Bool := (d.get? p).isSome

/-- The number of errors. -/
def size (d : Diagnostics) : Nat := d.entries.length

/-- The lines for one path: its spelling, then the lines of its error, indented. -/
def block (e : Path × String) : List String :=
  e.1.spelling :: (Text.lines e.2).map fun line => "  " ++ line

/-- All errors, one block for each path. -/
def overlay (d : Diagnostics) : String :=
  String.join ((d.entries.flatMap block).map fun line => line ++ "\n")

end Diagnostics

end ViewMarkup
