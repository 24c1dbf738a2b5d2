import ViewMarkup.Files.Path
import ViewMarkup.View.Binding

/-!
# The roots of a session

A root is a component that a session keeps in line with its document. Roots are visited by their
places; a new root takes the place that became vacant last, or else a new one behind all others.

## Main definitions

* `RootId`, `Root`.
* `Roots`, with `insert`, `erase`, `get?`, `modify`, `inOrder`.

## Main statements

* `Roots.get?_insert`, `Roots.get?_erase`, `Roots.get?_modify` — the roots after a change.
-/

namespace ViewMarkup

/-- The identity of a root. Identities are numbered in the order in which roots are registered and
are never used again. -/
structure RootId where
  /-- The number. -/
  index : Nat
deriving Repr, DecidableEq

/-- A registered component. -/
structure Root where
  /-- The component and what it holds. -/
  binding : Binding
  /-- The document that it is kept in line with. -/
  path : Path
  /-- Its place among the roots. -/
  place : Nat
  /-- The generations of the types that the last attempt to apply depended on; none for a type that
  was not loaded then. -/
  attempted : Table String (Option Nat) := {}
deriving Repr, DecidableEq

/-- The registered roots. -/
structure Roots where
  /-- The roots, by identity. -/
  table : Table RootId Root := {}
  /-- The places that became vacant, the last one first. -/
  vacant : List Nat := []
  /-- The number of identities given so far. -/
  issued : Nat := 0
deriving Repr, DecidableEq

namespace Roots

/-- A registered root. -/
def get? (rs : Roots) (id : RootId) : Option Root := rs.table.get? id

/-- The number of roots. -/
def size (rs : Roots) : Nat := rs.table.size

/-- The place of the next root. -/
def nextPlace (rs : Roots) : Nat := rs.vacant.head?.getD rs.table.size

/-- The roots with a new one, and its identity. -/
def insert (rs : Roots) (binding : Binding) (path : Path) : RootId × Roots :=
  let id : RootId := ⟨rs.issued⟩
  (id, { table := rs.table.insert id { binding, path, place := rs.nextPlace }
         vacant := rs.vacant.tail
         issued := rs.issued + 1 })

/-- The roots without one. -/
def erase (rs : Roots) (id : RootId) : Roots :=
  match rs.get? id with
  | some r => { rs with table := rs.table.erase id, vacant := r.place :: rs.vacant }
  | none => rs

/-- The roots with one changed. -/
def modify (rs : Roots) (id : RootId) (f : Root → Root) : Roots :=
  { rs with table := rs.table.modify id f }

/-- What inserting a root does to the root of an identity. -/
@[simp]
theorem get?_insert (rs : Roots) (binding : Binding) (path : Path) (id : RootId) :
    (rs.insert binding path).2.get? id
      = if id = (rs.insert binding path).1 then some { binding, path, place := rs.nextPlace }
        else rs.get? id := by
  simp only [get?, insert, Table.get?_insert]
  by_cases h : id = ⟨rs.issued⟩
  · simp [h]
  · simp [h, Ne.symm h]

/-- What erasing a root does to it. -/
@[simp]
theorem get?_erase (rs : Roots) (id id' : RootId) :
    (rs.erase id).get? id' = if id = id' then none else rs.get? id' := by
  unfold erase
  split
  · exact Table.get?_erase _ _ _
  · next h =>
      by_cases hid : id = id'
      · simp [← hid, h]
      · simp [hid]

/-- What changing a root does to it. -/
@[simp]
theorem get?_modify (rs : Roots) (id id' : RootId) (f : Root → Root) :
    (rs.modify id f).get? id' = if id = id' then (rs.get? id').map f else rs.get? id' :=
  Table.get?_modify _ _ _ _

/-- The roots by their places. -/
def inOrder (rs : Roots) : List (RootId × Root) :=
  rs.table.entries.mergeSort fun a b => decide (a.2.place ≤ b.2.place)

end Roots

end ViewMarkup
