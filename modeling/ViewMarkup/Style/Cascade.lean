import ViewMarkup.Element.Property
import ViewMarkup.Style.Basic

/-!
# The cascade

The properties of an element come from the styles of shared groups, then from the styles that it
calls by name alone, and last from its own attributes; what comes later replaces what came before.
A style is applied after the styles that it extends. An entry that the element's kind does not know
or cannot read is skipped, and so is a whole reference that cannot be followed.

## Main definitions

* `StyleSheets` — the shared groups.
* `StyleSheets.expand` — the styles behind a reference, in the order in which they apply.
* `StyleSheets.cascade` — the properties of an element.

## Main statements

* `StyleSheets.get?_insert`, `StyleSheets.get?_erase` — the groups after a change.
* `StyleSheets.mem_all_of_find?`, `StyleSheets.unvisited_cons_lt` — every step along the extended
  styles leaves fewer styles to visit, so the way ends.
-/

namespace ViewMarkup

/-- The shared style groups, in the order of their names, each name once. -/
structure StyleSheets where
  /-- The groups. -/
  groups : List StyleGroup := []
deriving Repr, DecidableEq

/-- A style together with the name of the group that it was found in. -/
structure FoundStyle where
  /-- The style. -/
  style : Style
  /-- The name of its group; none for a style of the document. -/
  group : Option String
deriving Repr, DecidableEq

/-- The name by which a found style is known while its parents are followed. -/
def FoundStyle.key (f : FoundStyle) : String :=
  match f.group with
  | some group => group ++ ":" ++ f.style.name
  | none => f.style.name

namespace StyleSheets

/-- Puts a group among groups in the order of names, in the place of one with the same name. -/
def place (g : StyleGroup) : List StyleGroup → List StyleGroup
  | [] => [g]
  | h :: hs =>
      if g.name = h.name then g :: hs
      else if g.name < h.name then g :: h :: hs
      else h :: place g hs

/-- The sheets with a group installed or replaced. -/
def insert (s : StyleSheets) (g : StyleGroup) : StyleSheets := ⟨place g s.groups⟩

/-- The group with a given name. -/
def get? (s : StyleSheets) (name : String) : Option StyleGroup :=
  s.groups.find? fun g => g.name = name

/-- The sheets without the group of a given name. -/
def erase (s : StyleSheets) (name : String) : StyleSheets :=
  ⟨s.groups.filter fun g => g.name ≠ name⟩

/-- What placing a group does to the group of a name. -/
theorem find?_place (g : StyleGroup) (gs : List StyleGroup) (name : String) :
    ((place g gs).find? fun h => h.name = name)
      = if g.name = name then some g else gs.find? fun h => h.name = name := by
  induction gs with
  | nil => by_cases hn : g.name = name <;> simp [place, hn]
  | cons h hs ih =>
      simp only [place]
      split
      · next he => by_cases hn : h.name = name <;> simp [he, hn]
      · next he =>
          split
          · by_cases hn : g.name = name <;> simp [hn]
          · by_cases hn : h.name = name
            · have : g.name ≠ name := fun hg => he (hg.trans hn.symm)
              simp [hn, this]
            · simp only [List.find?_cons, hn, decide_false]
              exact ih

/-- What storing a group does to it. -/
@[simp]
theorem get?_insert (s : StyleSheets) (g : StyleGroup) (name : String) :
    (s.insert g).get? name = if g.name = name then some g else s.get? name := find?_place _ _ _

/-- What erasing a group does to it. -/
@[simp]
theorem get?_erase (s : StyleSheets) (name name' : String) :
    (s.erase name).get? name' = if name = name' then none else s.get? name' := by
  obtain ⟨gs⟩ := s
  simp only [erase, get?]
  induction gs with
  | nil => simp
  | cons g gs ih =>
      by_cases hg : g.name = name
      · rw [List.filter_cons_of_neg (by simp [hg]), ih]
        by_cases hn : name = name' <;> simp [hn, hg]
      · rw [List.filter_cons_of_pos (by simp [hg])]
        by_cases hn : g.name = name'
        · have : name ≠ name' := fun h => hg (hn.trans h.symm)
          simp [hn, this]
        · simp only [List.find?_cons, hn, decide_false]
          exact ih

/-- The names of the groups, in order. -/
def names (s : StyleSheets) : List String := s.groups.map (·.name)

/-- The style with a given name in a group. -/
def inGroup? (name : String) (g : StyleGroup) : Option FoundStyle :=
  (g.find? name).map fun style => ⟨style, some g.name⟩

/-- The style that a reference means. A plain name is looked up in the group of the style that
extends it, then among the styles of the document, then in all groups in order. -/
def find? (s : StyleSheets) (declared : List Style) (scope : Option String) :
    StyleReference → Option FoundStyle
  | .shared group name => (s.get? group).bind (inGroup? name)
  | .plain name =>
      (((scope.bind s.get?).bind (inGroup? name)).or
        ((declared.find? fun style => style.name = name).map fun style => ⟨style, none⟩)).or
        (s.groups.findSome? (inGroup? name))

/-- Every style that can be found, with its group. -/
def all (s : StyleSheets) (declared : List Style) : List FoundStyle :=
  (s.groups.flatMap fun g => g.styles.map fun style => ⟨style, some g.name⟩)
    ++ declared.map fun style => ⟨style, none⟩

/-- A style that is found in a group is among all. -/
theorem mem_all_of_inGroup? {s : StyleSheets} {declared : List Style} {name : String}
    {g : StyleGroup} {f : FoundStyle} (hg : g ∈ s.groups) (h : inGroup? name g = some f) :
    f ∈ s.all declared := by
  simp only [inGroup?, StyleGroup.find?, Option.map_eq_some_iff] at h
  obtain ⟨style, hs, rfl⟩ := h
  simp only [all, List.mem_append, List.mem_flatMap, List.mem_map]
  exact .inl ⟨g, hg, style, List.mem_of_find?_eq_some hs, rfl⟩

/-- A group that is found is among those that are stored. -/
theorem mem_groups_of_get? {s : StyleSheets} {name : String} {g : StyleGroup}
    (h : s.get? name = some g) : g ∈ s.groups := List.mem_of_find?_eq_some h

/-- What a reference means is one of the styles that can be found. -/
theorem mem_all_of_find? {s : StyleSheets} {declared : List Style} {scope : Option String}
    {r : StyleReference} {f : FoundStyle} (h : s.find? declared scope r = some f) :
    f ∈ s.all declared := by
  match r with
  | .shared group name =>
      simp only [find?, Option.bind_eq_some_iff] at h
      obtain ⟨g, hg, hf⟩ := h
      exact mem_all_of_inGroup? (mem_groups_of_get? hg) hf
  | .plain name =>
      simp only [find?, Option.or_eq_some_iff, Option.bind_eq_some_iff] at h
      rcases h with (⟨g, ⟨_, _, hg⟩, hf⟩ | ⟨_, h⟩) | ⟨_, h⟩
      · exact mem_all_of_inGroup? (mem_groups_of_get? hg) hf
      · simp only [Option.map_eq_some_iff] at h
        obtain ⟨style, hstyle, rfl⟩ := h
        simp only [all, List.mem_append, List.mem_map]
        exact .inr ⟨style, List.mem_of_find?_eq_some hstyle, rfl⟩
      · obtain ⟨g, hg, hf⟩ := List.exists_of_findSome?_eq_some h
        exact mem_all_of_inGroup? hg hf

/-- How many styles do not lie on the way that is being followed. -/
def unvisited (s : StyleSheets) (declared : List Style) (way : List String) : Nat :=
  (s.all declared).countP fun f => f.key ∉ way

/-- Fewer styles lie off a way that goes one style further. -/
theorem unvisited_cons_lt {s : StyleSheets} {declared : List Style} {way : List String}
    {f : FoundStyle} (hf : f ∈ s.all declared) (hw : f.key ∉ way) :
    s.unvisited declared (f.key :: way) < s.unvisited declared way := by
  unfold unvisited
  generalize s.all declared = fs at hf
  induction fs with
  | nil => cases hf
  | cons g gs ih =>
      have mono : (gs.countP fun f' => f'.key ∉ f.key :: way)
          ≤ gs.countP fun f' => f'.key ∉ way :=
        List.countP_mono_left fun x _ hx => by
          simp only [List.mem_cons, not_or, decide_eq_true_eq] at hx ⊢
          exact hx.2
      rcases List.mem_cons.1 hf with rfl | hf
      · rw [List.countP_cons_of_neg (by simp), List.countP_cons_of_pos (by simpa using hw)]
        omega
      · have := ih hf
        by_cases hg : g.key ∈ way
        · rw [List.countP_cons_of_neg (by simp [hg]), List.countP_cons_of_neg (by simp [hg])]
          exact this
        · simp only [List.countP_cons, hg, not_false_eq_true, decide_true, ↓reduceIte]
          split <;> omega

mutual

/-- The styles behind a reference: the parents of the style that it means, each with its own
parents first, and then the style. `way` holds the keys of the styles that led here. -/
def expandFrom (s : StyleSheets) (declared : List Style) (way : List String)
    (scope : Option String) (r : StyleReference) : Except PropertyError (List Style) :=
  match h : s.find? declared scope r with
  | none => .error (.unknownStyle r.text)
  | some f =>
      if hw : f.key ∈ way then .error (.cyclicStyle f.key)
      else
        have := unvisited_cons_lt (mem_all_of_find? h) hw
        match expandAll s declared (f.key :: way) f.group
            (f.style.parents.map StyleReference.ofText) with
        | .error e => .error e
        | .ok parents => .ok (parents ++ [f.style])
termination_by (s.unvisited declared way, 0)

/-- The styles behind references, one after the other. -/
def expandAll (s : StyleSheets) (declared : List Style) (way : List String)
    (scope : Option String) : List StyleReference → Except PropertyError (List Style)
  | [] => .ok []
  | r :: rs =>
      match expandFrom s declared way scope r with
      | .error e => .error e
      | .ok first =>
          match expandAll s declared way scope rs with
          | .error e => .error e
          | .ok others => .ok (first ++ others)
termination_by rs => (s.unvisited declared way, rs.length + 1)

end

/-- The styles behind a reference of an element, in the order in which they apply. -/
def expand (s : StyleSheets) (declared : List Style) (r : StyleReference) :
    Except PropertyError (List Style) :=
  s.expandFrom declared [] none r

end StyleSheets

/-- Something that the cascade leaves out. -/
structure Skipped where
  /-- The reference of the element. -/
  reference : StyleReference
  /-- The style whose entry is left out; none if the reference as a whole is. -/
  style : Option String
  /-- Why. -/
  error : PropertyError
deriving Repr, DecidableEq

/-- The outcome of the cascade. -/
structure Resolved where
  /-- The properties in the order of their first assignment, each name once. -/
  properties : List Property := []
  /-- What is left out, in the order met. -/
  skipped : List Skipped := []
deriving Repr, BEq

namespace Resolved

/-- The outcome after a further assignment. -/
def assign (r : Resolved) (p : Property) : Resolved :=
  { r with properties := p.assign r.properties }

/-- The outcome after something more is left out. -/
def skip (r : Resolved) (s : Skipped) : Resolved := { r with skipped := r.skipped ++ [s] }

/-- The outcome after one entry of a style. -/
def applyEntry (kind : Kind) (reference : StyleReference) (style : String) (r : Resolved)
    (entry : String × String) : Resolved :=
  match Catalogue.read kind entry.1 entry.2 with
  | .ok p => r.assign p
  | .error e => r.skip ⟨reference, some style, e⟩

/-- The outcome after one style. -/
def applyStyle (kind : Kind) (reference : StyleReference) (r : Resolved) (style : Style) :
    Resolved :=
  style.entries.foldl (applyEntry kind reference style.name) r

end Resolved

namespace StyleSheets

/-- The outcome after one reference. -/
def applyReference (s : StyleSheets) (kind : Kind) (declared : List Style) (r : Resolved)
    (reference : StyleReference) : Resolved :=
  match s.expand declared reference with
  | .ok styles => styles.foldl (Resolved.applyStyle kind reference) r
  | .error e => r.skip ⟨reference, none, e⟩

/-- The properties of an element of the given kind: the styles of shared groups, those called by
name alone, and last its own properties. -/
def cascade (s : StyleSheets) (kind : Kind) (references : List StyleReference)
    (own : List Property) (declared : List Style) : Resolved :=
  let ordered := references.filter (·.isShared) ++ references.filter (!·.isShared)
  own.foldl Resolved.assign (ordered.foldl (s.applyReference kind declared) {})

end StyleSheets

end ViewMarkup
