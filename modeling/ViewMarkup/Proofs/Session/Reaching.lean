import ViewMarkup.Proofs.Document.References
import ViewMarkup.Proofs.Session.Dependencies

/-!
# What a type depends on

Stored definitions refer to one another by the names of their types. They may do so in rings, a
definition may refer to its own type, and to types that are not loaded. The dependencies of a type
are the names that can be reached from it along such references, whatever their shape. The search
for them ends: it notes no name twice, and a name brings others only if it is loaded.

## Main definitions

* `DefinitionStore.RefersTo` — the stored definition of one type refers to another type.
* `DefinitionStore.Reaches` — a type is reached from another one by references.

## Main statements

* `DefinitionStore.mem_follow_iff` — following references meets the types that can be reached.
* `DefinitionStore.dependencies_spec` — the dependencies of a type, and what is noted of each.
-/

namespace ViewMarkup.DefinitionStore

variable {s : DefinitionStore}

/-- The stored definition of one type refers to another type, at any depth. -/
def RefersTo (s : DefinitionStore) (typeName other : String) : Prop :=
  ∃ e, s.get? typeName = some e ∧ e.definition.Mentions other

/-- A type is another one, or is reached from it by references of loaded definitions. -/
def Reaches (s : DefinitionStore) : String → String → Prop := Relation.ReflTransGen s.RefersTo

/-- Following references stays within any set of names that references do not lead out of. -/
lemma forall_mem_follow {P : String → Prop} (closed : ∀ a b, P a → s.RefersTo a b → P b)
    {seen waiting : List String} (hs : ∀ name ∈ seen, P name) (hw : ∀ name ∈ waiting, P name) :
    ∀ name ∈ s.follow seen waiting, P name := by
  fun_induction follow s seen waiting with
  | case1 => exact hs
  | case2 _ _ _ _ ih => exact ih hs (List.forall_mem_cons.1 hw).2
  | case3 seen name waiting _ e he ih =>
    obtain ⟨hname, hw⟩ := List.forall_mem_cons.1 hw
    refine ih (List.forall_mem_append.2 ⟨hs, List.forall_mem_singleton.2 hname⟩)
      (List.forall_mem_append.2 ⟨fun r hr => ?_, hw⟩)
    exact closed name r hname ⟨e, he, Definition.mem_referencedTypes_iff.1 hr⟩
  | case4 seen name waiting _ _ ih =>
    obtain ⟨hname, hw⟩ := List.forall_mem_cons.1 hw
    exact ih (List.forall_mem_append.2 ⟨hs, List.forall_mem_singleton.2 hname⟩) hw

/-- No name is noted twice. -/
lemma nodup_follow {seen : List String} (waiting : List String) (h : seen.Nodup) :
    (s.follow seen waiting).Nodup := by
  have snoc : ∀ {seen : List String} {name : String}, seen.Nodup → name ∉ seen →
      (seen ++ [name]).Nodup := fun h hn =>
    List.nodup_append'.2 ⟨h, List.nodup_singleton _, List.disjoint_singleton.2 hn⟩
  fun_induction follow s seen waiting with
  | case1 => exact h
  | case2 _ _ _ _ ih => exact ih h
  | case3 _ _ _ hs _ _ ih => exact ih (snoc h hs)
  | case4 _ _ _ hs _ ih => exact ih (snoc h hs)

/-- **Following references meets the types that can be reached**, and no others.

**Proof sketch.** What can be reached is not left by following references (`forall_mem_follow`). The
other way, all types that the definitions met refer to are met (`references_subset_follow`), so
every step along a reference leads to a type that is met. -/
theorem mem_follow_iff {typeName name : String} :
    name ∈ s.follow [] [typeName] ↔ s.Reaches typeName name := by
  constructor
  · refine forall_mem_follow (fun _ _ h hr => h.tail hr) (fun _ h => (List.not_mem_nil h).elim) ?_ name
    exact List.forall_mem_singleton.2 .refl
  · intro h
    induction h with
    | refl => exact mem_follow_of_mem_waiting _ _ (List.mem_singleton_self _)
    | tail _ hr ih =>
      obtain ⟨e, he, hm⟩ := hr
      exact references_subset_follow [] [typeName] (fun _ h => (List.not_mem_nil h).elim) _ ih e he
        (Definition.mem_references_iff.2 hm)

/-- **The dependencies of a type**, in every store and for every type: they are the types that can be
reached from it by references of loaded definitions, each of them once. For a type that is loaded the
generation of its entry is noted, and for one that is not it is noted that it has none. -/
theorem dependencies_spec (s : DefinitionStore) (typeName : String) :
    (s.dependencies typeName).keys.Nodup ∧
    (∀ name, name ∈ (s.dependencies typeName).keys ↔ s.Reaches typeName name) ∧
    (∀ name gen, (s.dependencies typeName).get? name = some (some gen) ↔
      s.Reaches typeName name ∧ ∃ e, s.get? name = some e ∧ e.generation = gen) ∧
    (∀ name, (s.dependencies typeName).get? name = some none ↔
      s.Reaches typeName name ∧ s.get? name = none) := by
  have noted : ∀ name g, (s.dependencies typeName).get? name = some g ↔
      s.Reaches typeName name ∧ s.generation? name = g := by
    intro name g
    rw [← mem_follow_iff, ← keys_dependencies]
    constructor
    · intro h
      have hk := Table.mem_keys_iff.2 ⟨g, h⟩
      rw [get?_dependencies (keys_dependencies s typeName ▸ hk)] at h
      exact ⟨hk, Option.some.inj h⟩
    · rintro ⟨hk, rfl⟩
      exact get?_dependencies (keys_dependencies s typeName ▸ hk)
  refine ⟨?_, fun name => ?_, fun name gen => ?_, fun name => ?_⟩
  · rw [keys_dependencies]
    exact nodup_follow _ List.nodup_nil
  · rw [keys_dependencies, mem_follow_iff]
  · rw [noted, generation?, Option.map_eq_some_iff]
  · rw [noted, generation?, Option.map_eq_none_iff]

/-- The screen, the card in it and the badge refer to each other in a ring. A component that refers
to the screen depends on all of them and on itself, and none depends on it. -/
example :
    (screens.dependencies "Other").keys = ["Other", "Screen", "Card", "Badge"] ∧
      (screens.dependencies "Badge").keys = ["Badge", "Screen", "Card"] := ⟨by cbv, by cbv⟩

end ViewMarkup.DefinitionStore
