import ViewMarkup.Table
import ViewMarkup.Text.Blank

/-!
# Names that are still free

Elements without a name of their own get one with a running number; the number is the lowest one
that gives a name not yet taken in the scope.

## Main definitions

* `firstFree` — the lowest such number from a given one on.
* `Names` — the names taken in a scope.

## Main statements

* `firstFree_not_mem`, `mem_of_lt_firstFree` — the number that is found is free, and no lower one
  is.
-/

namespace ViewMarkup

/-- The first number from `n` on whose name is not taken. A taken name needs no second look, so it
is left out of the further search. -/
def firstFree (name : Nat → String) (taken : List String) (n : Nat) : Nat :=
  if name n ∈ taken then firstFree name (taken.erase (name n)) (n + 1) else n
termination_by taken.length
decreasing_by
  rename_i h
  have := List.length_pos_of_mem h
  rw [List.length_erase_of_mem h]
  omega

/-- The search for a free name goes upwards. -/
theorem le_firstFree (name : Nat → String) (taken : List String) (n : Nat) :
    n ≤ firstFree name taken n := by
  fun_induction firstFree name taken n with
  | case1 taken n _ ih => exact Nat.le_of_succ_le ih
  | case2 => exact Nat.le_refl _

/-- Where different numbers give different names, the name that is found is free. -/
theorem firstFree_not_mem {name : Nat → String} (inj : ∀ i j, name i = name j → i = j)
    (taken : List String) (n : Nat) : name (firstFree name taken n) ∉ taken := by
  fun_induction firstFree name taken n with
  | case1 taken n _ ih =>
      intro h
      have hlt := le_firstFree name (taken.erase (name n)) (n + 1)
      have hne : name (firstFree name (taken.erase (name n)) (n + 1)) ≠ name n :=
        fun he => by have := inj _ _ he; omega
      exact ih ((List.mem_erase_of_ne hne).2 h)
  | case2 _ _ h => exact h

/-- Every number that is passed over gives a name that is taken. -/
theorem mem_of_lt_firstFree {name : Nat → String} {taken : List String} {n m : Nat} (hn : n ≤ m)
    (hm : m < firstFree name taken n) : name m ∈ taken := by
  fun_induction firstFree name taken n with
  | case1 taken n h ih =>
      rcases Nat.eq_or_lt_of_le hn with rfl | hlt
      · exact h
      · exact List.mem_of_mem_erase (ih hlt hm)
  | case2 => omega

/-- The names taken in a scope. -/
structure Names where
  /-- The names. -/
  taken : List String := []
  /-- The number in the last name made up, by tag in lower case. Names are never given back, so
  all numbers up to it are taken. -/
  lastNumber : Table String Nat := {}

namespace Names

/-- Takes a name, unless it is taken already. -/
def declare? (names : Names) (name : String) : Option Names :=
  if name ∈ names.taken then none else some { names with taken := name :: names.taken }

/-- The name made up for an element with a tag in lower case. -/
def madeUp (tag : String) (n : Nat) : String := "temp_" ++ tag ++ "_" ++ Nat.repr n

/-- Makes up a name for an element with the given tag and takes it. -/
def makeUp (names : Names) (tag : String) : String × Names :=
  let tag := String.ofList (tag.toList.map Char.toLower)
  let number := firstFree (madeUp tag) names.taken ((names.lastNumber.get? tag).getD 0 + 1)
  let name := madeUp tag number
  (name, { taken := name :: names.taken, lastNumber := names.lastNumber.insert tag number })

end Names

end ViewMarkup
