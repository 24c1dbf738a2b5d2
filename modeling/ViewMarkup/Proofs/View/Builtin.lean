import ViewMarkup.Proofs.Document.Scopes
import ViewMarkup.Proofs.Table
import ViewMarkup.Proofs.View.Placement

/-!
# Elements that record their properties

Without a host of its own, every element is one that records its properties. Such an element can be
made for every kind and for every component in place, and it takes every property of its catalogue.
The cascade gives an element no others.

## Main statements

* `Catalogue.known_cascade` — the properties that the cascade gives an element are in its catalogue.
* `Capabilities.set_builtin`, `Capabilities.setAll_builtin` — setting them records them.
* `Applier.create_builtin` — the visual element that is made for an element.
-/

namespace ViewMarkup

variable {H : Type}

/-! ### The catalogue -/

/-- **The properties that the cascade gives an element** are in the catalogue of its kind. -/
theorem Catalogue.known_cascade {kind : Kind} (s : StyleSheets) (references : List StyleReference)
    {own : List Property} (declared : List Style) (h : ∀ q ∈ own, q.IsOf kind) :
    ∀ q ∈ (s.cascade kind references own declared).properties, q.IsOf kind :=
  s.forall_mem_cascade (fun _ _ _ => isOf_of_read) h references declared

/-! ### What is built in -/

namespace Capabilities

variable {kind : Kind} {p : Property} {ps : List Property}

/-- The setters that are built in, filled in one go. -/
lemma setters_builtin : (builtin : Capabilities H).setters =
    (Kind.all.flatMap fun kind => (Catalogue.properties kind).map fun entry => (kind, entry.1)).foldl
      (fun t key => t.insert key (storing key.2)) {} := by
  simp only [builtin, List.foldl_flatMap, List.foldl_map]

/-- The built-in setter of a property stores it. -/
lemma getSetter_builtin (h : p.IsOf kind) :
    (builtin : Capabilities H).setters.get? (kind, p.name) = some (storing p.name) := by
  have hkind : kind ∈ Kind.all := by cases kind <;> decide
  obtain ⟨entry, he, hn⟩ := List.mem_map.1 (Catalogue.mem_properties h)
  rw [setters_builtin]
  refine Table.get?_foldl_insert id (fun key : Kind × String => storing key.2) _ (.inl ?_)
  rw [List.map_id, List.mem_flatMap]
  exact ⟨kind, hkind, List.mem_map.2 ⟨entry, he, by rw [hn]⟩⟩

/-- Setting a property of the catalogue records it. -/
theorem set_builtin (h : p.IsOf kind) (g : GenericElement) :
    (builtin : Capabilities H).set kind (.generic g) p =
      .applied (.generic { g with properties := p.assign g.properties }) := by
  rw [set, getSetter_builtin h]
  rfl

/-- Setting properties of the catalogue records them one after the other. -/
theorem setAll_builtin (h : ∀ q ∈ ps, q.IsOf kind) (g : GenericElement) :
    (builtin : Capabilities H).setAll kind ps (.generic g) =
      .generic { g with properties := ps.foldl (fun qs q => q.assign qs) g.properties } := by
  induction ps generalizing g with
  | nil => rfl
  | cons p ps ih =>
    rw [List.forall_mem_cons] at h
    rw [setAll, List.foldl_cons, set_builtin h.1]
    exact ih h.2 _

end Capabilities

namespace Applier

/-- The recording element that is made for an element: one of its kind, or a wrapper for a component
in place. -/
def generic (e : Element) : GenericElement :=
  match e.kind, e.reference with
  | .component, some r => .wrapper r.typeName
  | kind, _ => .ofKind kind

/-- The built-in capabilities create each kind of view, but for components. -/
lemma createPrimitive_builtin {kind : Kind} (h : kind ≠ .component) :
    (Capabilities.builtin : Capabilities H).createPrimitive? kind =
      some (.generic (.ofKind kind)) := by
  have hkind : kind ∈ Kind.all.filter (· ≠ .component) :=
    List.mem_filter.2 ⟨by cases kind <;> decide, by simpa using h⟩
  have hfactories : (Capabilities.builtin : Capabilities H).factories = {} := rfl
  have hbuiltins : (Capabilities.builtin : Capabilities H).builtins =
      (Kind.all.filter (· ≠ .component)).foldl
        (fun t kind => t.insert kind (.generic (.ofKind kind))) {} := rfl
  rw [Capabilities.createPrimitive?, Capabilities.create?, hfactories, Table.get?_empty,
    Option.none_or, hbuiltins]
  exact Table.get?_foldl_insert id (fun kind => VisualElement.generic (.ofKind kind)) _
    (.inl (by rw [List.map_id]; exact hkind))

/-- **The visual element that is made** for an element which is no component, or has its component in
place. -/
theorem create_builtin {a : Applier H} (ha : a.capabilities = .builtin) {e : Element}
    (h : e.kind = .component → ∃ d, e.reference = some (.inline d)) :
    a.create e = .ok (.generic (generic e)) := by
  by_cases hk : e.kind = .component
  · obtain ⟨d, hd⟩ := h hk
    unfold create generic
    rw [hk, hd, ha]
    rfl
  · have hg : generic e = .ofKind e.kind := by
      unfold generic
      split
      · next hk' _ => exact (hk hk').elim
      · rfl
    have hc := createPrimitive_builtin (H := H) hk
    unfold create
    split
    · next hk' _ => exact (hk hk').elim
    · rw [ha, hc, hg]

end Applier

end ViewMarkup
