import Mathlib
import ViewMarkup.Proofs.Session.Generations
import ViewMarkup.Proofs.View.Library

/-!
# Dependencies cover all that an application looks up

A session decides by the dependencies of a type whether a root of the type has to be applied again.
It misses nothing: an application of the type looks up no definition that is not among them.

## Main statements

* `DefinitionStore.references_subset_follow` — following references leaves none behind.
* `DefinitionStore.apply_eq_of_dependencies` — a library that agrees with the store on what a type
  depends on is as good as the store for applying the type.
-/

namespace ViewMarkup.DefinitionStore

variable {s : DefinitionStore}

/-- What waits to be followed is followed. -/
lemma mem_follow_of_mem_waiting {name : String} (seen waiting : List String)
    (h : name ∈ waiting) : name ∈ s.follow seen waiting := by
  fun_induction follow s seen waiting with
  | case1 => cases h
  | case2 _ _ _ hs ih =>
    rcases List.mem_cons.1 h with rfl | h
    · exact mem_follow_of_mem_seen _ _ hs
    · exact ih h
  | case3 _ _ _ _ _ _ ih =>
    rcases List.mem_cons.1 h with rfl | h
    · exact mem_follow_of_mem_seen _ _ (by simp)
    · exact ih (List.mem_append_right _ h)
  | case4 _ _ _ _ _ ih =>
    rcases List.mem_cons.1 h with rfl | h
    · exact mem_follow_of_mem_seen _ _ (by simp)
    · exact ih h

/-- **Following references leaves none behind**: if the types that seen definitions refer to have
been seen or wait, then all types that followed definitions refer to have been followed. -/
theorem references_subset_follow (seen waiting : List String)
    (h : ∀ name ∈ seen, ∀ e, s.get? name = some e →
      e.definition.references ⊆ seen ++ waiting) :
    ∀ name ∈ s.follow seen waiting, ∀ e, s.get? name = some e →
      e.definition.references ⊆ s.follow seen waiting := by
  fun_induction follow s seen waiting with
  | case1 seen => simpa using h
  | case2 seen name waiting hs ih =>
    refine ih fun n hn e he r hr => ?_
    have := h n hn e he hr
    grind
  | case3 seen name waiting hs e he ih =>
    refine ih fun n hn e' he' r hr => ?_
    rcases List.mem_append.1 hn with hn | hn
    · have := h n hn e' he' hr
      grind
    · -- The references of the definition that was met wait from now on.
      rw [List.mem_singleton.1 hn, he] at he'
      cases he'
      have : r ∈ e.definition.referencedTypes := List.mem_eraseDups.2 hr
      grind
  | case4 seen name waiting hs he ih =>
    refine ih fun n hn e' he' r hr => ?_
    rcases List.mem_append.1 hn with hn | hn
    · have := h n hn e' he' hr
      grind
    · rw [List.mem_singleton.1 hn, he] at he'
      cases he'

/-- The types that a type depends on, itself among them. -/
lemma keys_dependencies (s : DefinitionStore) (typeName : String) :
    (s.dependencies typeName).keys = s.follow [] [typeName] := by
  rw [dependencies, Table.keys, List.map_map]
  exact List.map_id _

/-- What is noted of a type is its generation, if it has one. -/
lemma get?_dependencies {typeName name : String} (h : name ∈ s.follow [] [typeName]) :
    (s.dependencies typeName).get? name = some (s.generation? name) :=
  Table.get?_mk_map s.generation? h

/-- A definition that is looked up is the one in the entry. -/
lemma get?_definitions (s : DefinitionStore) (name : String) :
    s.definitions.get? name = (s.get? name).map (·.definition) :=
  Table.get?_map _ _ _

variable {H : Type} [Widget H]

/-- **Dependencies cover all that an application looks up.** If a library has the same definition as
the store, or like the store none, for each type that a loaded type depends on, then applying the
type with this library does the same as with the store, whatever it has for other types: to the
tree, to the component, and in its report or its error.

**Proof sketch.** The types that a type depends on are closed under the references of stored
definitions (`references_subset_follow`), and an application looks up no others
(`Applier.apply_congr`). -/
theorem apply_eq_of_dependencies {typeName : String} {e : StoredDefinition}
    (he : s.get? typeName = some e) {library : Table String Definition}
    (hl : ∀ name ∈ (s.dependencies typeName).keys,
      library.get? name = (s.get? name).map (·.definition))
    (capabilities : Capabilities H) (sheets : StyleSheets) (t : ViewTree H) (b : Binding) :
    Applier.apply ⟨capabilities, sheets, library⟩ t b e.definition =
      Applier.apply ⟨capabilities, sheets, s.definitions⟩ t b e.definition := by
  rw [keys_dependencies] at hl
  have closed := references_subset_follow (s := s) [] [typeName] fun _ h => (List.not_mem_nil h).elim
  have knows : Applier.Knows (⟨capabilities, sheets, s.definitions⟩ : Applier H)
      (s.follow [] [typeName]) := by
    intro name hn d hd
    rw [get?_definitions] at hd
    obtain ⟨e', he', rfl⟩ := Option.map_eq_some_iff.1 hd
    exact closed name hn e' he'
  have own : typeName ∈ s.follow [] [typeName] :=
    mem_follow_of_mem_waiting _ _ (List.mem_singleton_self _)
  exact Applier.apply_congr (a := ⟨capabilities, sheets, s.definitions⟩)
    (fun name hn => (hl name hn).trans (get?_definitions s name).symm) knows
    (closed typeName own e he) t b

/-! ### A screen that contains a card, which contains the screen -/

/-- A component with one element, which refers to another component. -/
def wrapping (typeName : String) (reference : TypeReference) : Definition where
  typeName
  isRoot := false
  isAnonymous := false
  styles := []
  properties := []
  children :=
    [{ kind := .component, field := none, layout := {}, properties := [], styles := [],
       children := [], reference := some reference, name := "inner" }]

/-- A screen with a card in place, which refers to a badge. -/
def screen : Definition := wrapping "Screen" (.inline (wrapping "Card" (.named "Badge")))

/-- The screen, a badge that contains the screen, and another component. -/
def screens : DefinitionStore :=
  ((({} : DefinitionStore).insertDocument screen ⟨"screen"⟩).insertDocument
    (wrapping "Badge" (.named "Screen")) ⟨"badge"⟩).insertDocument
    (wrapping "Other" (.named "Screen")) ⟨"other"⟩

/-- The definitions that the screen depends on, and another one for the name of the other
component. -/
def screenLibrary : Table String Definition :=
  ⟨[("Badge", wrapping "Badge" (.named "Screen")), ("Other", wrapping "Other" (.named "Card")),
    ("Card", wrapping "Card" (.named "Badge")), ("Screen", screen)]⟩

/-- The screen applied to a wrapper of its own, by a host that creates no other elements. -/
def applyScreen (library : Table String Definition) :
    Except ApplyError ApplyReport × ViewTree Empty × Binding :=
  Applier.apply ⟨{}, {}, library⟩
    (({} : ViewTree Empty).insert { element := .generic (.wrapper "Screen") }).2
    (.adopting ⟨0⟩ "Screen") screen

/-- The screen is applied with a library that differs from the store. Three definitions are applied,
and the references end where the screen contains itself. -/
theorem apply_screen_eq :
    screens.get? "Screen" = some ⟨screen, ⟨"screen"⟩, 1⟩ ∧
      (∀ name ∈ (screens.dependencies "Screen").keys,
        screenLibrary.get? name = (screens.get? name).map (·.definition)) ∧
      (applyScreen screenLibrary).1.toOption.map (·.definitions) =
        some ["Screen", "Card", "Badge"] ∧
      applyScreen screenLibrary = applyScreen screens.definitions := by
  have loaded : screens.get? "Screen" = some ⟨screen, ⟨"screen"⟩, 1⟩ := by cbv
  have deps : (screens.dependencies "Screen").keys = ["Screen", "Card", "Badge"] := by cbv
  have agree : ∀ name ∈ (screens.dependencies "Screen").keys,
      screenLibrary.get? name = (screens.get? name).map (·.definition) := by
    rw [deps]
    simp only [List.forall_mem_cons, List.not_mem_nil, false_implies, implies_true, and_true]
    exact ⟨by cbv, by cbv, by cbv⟩
  exact ⟨loaded, agree, by cbv, apply_eq_of_dependencies loaded agree {} {} _ _⟩

end ViewMarkup.DefinitionStore
