import ViewMarkup.Proofs.View.Showing
import ViewMarkup.Proofs.View.Builtin

/-!
# Properties that are set again

Where elements record their properties, setting all properties of an element once more changes
nothing, and the warnings are the same again: what can be set depends on the kind of the element and
on the names of the properties, never on the values that are there already.

## Main definitions

* `VisualElement.SameSort` — two visual elements differ in recorded properties alone.
* `Applier.noted` — the warnings about the properties of an element.
* `Applier.finish` — what becomes of the visual element that an element begins with.

## Main statements

* `Property.foldl_assign_foldl_assign` — assigning properties once more changes nothing.
* `Applier.noted_congr` — the warnings depend on the sort of the visual element alone.
* `Applier.finish_finish` — a finished visual element is finished.
-/

namespace ViewMarkup

variable {H : Type}

/-! ### Assigning properties -/

namespace Property

variable {p q : Property} {ps qs : List Property}

/-- A property that is assigned twice has the value assigned last. -/
lemma assign_assign_of_eq (h : p.name = q.name) (qs : List Property) :
    p.assign (q.assign qs) = p.assign qs := by
  induction qs with
  | nil => simp [assign, h]
  | cons r rs ih =>
    by_cases hr : r.name = q.name
    · simp [assign, hr, h]
    · have hr' : r.name ≠ p.name := fun hp => hr (hp.trans h)
      simp [assign, hr, hr', ih]

/-- Assignments to different properties may be exchanged if one of them is there already. -/
lemma assign_comm (h : p.name ≠ q.name) (hp : p.name ∈ qs.map (·.name)) :
    p.assign (q.assign qs) = q.assign (p.assign qs) := by
  induction qs with
  | nil => cases hp
  | cons r rs ih =>
    by_cases hr : r.name = p.name
    · simp [assign, hr, h]
    · have hp : p.name ∈ rs.map (·.name) :=
        (List.mem_cons.1 hp).resolve_left fun he => hr he.symm
      by_cases hrq : r.name = q.name
      · simp [assign, hrq, h.symm]
      · simp [assign, hr, hrq, ih hp]

/-- A property that is assigned is there, and so are the others. -/
lemma mem_names_assign {name : String} (h : name = p.name ∨ name ∈ qs.map (·.name)) :
    name ∈ (p.assign qs).map (·.name) := by
  induction qs with
  | nil => simpa [assign] using h
  | cons r rs ih =>
    by_cases hr : r.name = p.name
    · simpa [assign, hr] using h
    · rw [assign, if_neg hr, List.map_cons, List.mem_cons]
      rw [List.map_cons, List.mem_cons] at h
      rcases h with h | h | h
      · exact .inr (ih (.inl h))
      · exact .inl h
      · exact .inr (ih (.inr h))

/-- Properties that are there stay there when others are assigned. -/
lemma mem_names_foldl_assign {name : String} (ps : List Property)
    (h : name ∈ qs.map (·.name)) :
    name ∈ (ps.foldl (fun qs q => q.assign qs) qs).map (·.name) := by
  induction ps generalizing qs with
  | nil => exact h
  | cons r rs ih => exact ih (mem_names_assign (.inr h))

/-- An assignment is lost if the property is assigned again, and else it may as well come last. -/
lemma foldl_assign_assign (ps : List Property) (hp : p.name ∈ qs.map (·.name)) :
    ps.foldl (fun qs q => q.assign qs) (p.assign qs) =
      if p.name ∈ ps.map (·.name) then ps.foldl (fun qs q => q.assign qs) qs
      else p.assign (ps.foldl (fun qs q => q.assign qs) qs) := by
  induction ps generalizing qs with
  | nil => rfl
  | cons r rs ih =>
    rw [List.foldl_cons, List.foldl_cons]
    by_cases hr : r.name = p.name
    · rw [assign_assign_of_eq hr, if_pos (List.mem_map.2 ⟨r, List.mem_cons_self, hr⟩)]
    · have hm : p.name ∈ (r :: rs).map (·.name) ↔ p.name ∈ rs.map (·.name) := by
        rw [List.map_cons, List.mem_cons, or_iff_right (Ne.symm hr)]
      rw [← assign_comm (Ne.symm hr) hp, ih (mem_names_assign (.inr hp))]
      simp only [hm]

/-- **Assigning properties once more changes nothing.**

**Proof sketch.** Induction on the properties. The first one was assigned before all others, so it
is there when it is assigned again. Either it is overwritten again, or it may as well have been the
last one, and then it was assigned twice in a row. -/
theorem foldl_assign_foldl_assign (ps qs : List Property) :
    ps.foldl (fun qs q => q.assign qs) (ps.foldl (fun qs q => q.assign qs) qs) =
      ps.foldl (fun qs q => q.assign qs) qs := by
  induction ps generalizing qs with
  | nil => rfl
  | cons p ps ih =>
    have hp : p.name ∈ (p.assign qs).map (·.name) := mem_names_assign (.inl rfl)
    rw [List.foldl_cons, List.foldl_cons, foldl_assign_assign ps (mem_names_foldl_assign ps hp)]
    split
    · exact ih _
    · next hm =>
      have hlast := foldl_assign_assign ps hp
      rw [if_neg hm, assign_assign_of_eq rfl] at hlast
      rw [ih, ← hlast]

end Property

/-! ### Visual elements -/

/-- Two visual elements differ in recorded properties alone. -/
inductive VisualElement.SameSort : VisualElement H → VisualElement H → Prop where
  /-- Both record their properties. -/
  | generic (g : GenericElement) (ps : List Property) :
      SameSort (.generic g) (.generic { g with properties := ps })
  /-- Both are the same widget of a host. -/
  | host (w : H) : SameSort (.host w) (.host w)

/-- A view is of its own sort. -/
lemma VisualElement.SameSort.refl : ∀ v : VisualElement H, v.SameSort v
  | .generic g => .generic g g.properties
  | .host w => .host w

namespace Capabilities

variable {kind : Kind} {p : Property}

/-- A setter that is built in records the property. -/
lemma eq_storing_of_builtin {name : String} {setter : Setter H}
    (h : (builtin : Capabilities H).setters.get? (kind, name) = some setter) :
    setter = storing name := by
  rw [setters_builtin] at h
  obtain ⟨key, -, hkey, hsetter⟩ | h := Table.exists_of_get?_foldl_insert h
  · rw [← hsetter, hkey]
  · cases h

/-- Whether a property can be set does not depend on what is recorded already. -/
lemma set_builtin_generic (kind : Kind) (p : Property) :
    (∀ g, (builtin : Capabilities H).set kind (.generic g) p =
      .applied (.generic { g with properties := p.assign g.properties })) ∨
    ∀ g, (builtin : Capabilities H).set kind (.generic g) p = .unsupported := by
  unfold set
  cases hs : (builtin : Capabilities H).setters.get? (kind, p.name) with
  | none => exact .inr fun _ => rfl
  | some setter =>
    rw [eq_storing_of_builtin hs]
    exact .inl fun _ => rfl

/-- A widget of a host has no property that is recorded. -/
lemma set_builtin_host (kind : Kind) (p : Property) (w : H) :
    (builtin : Capabilities H).set kind (.host w) p = .unsupported := by
  unfold set
  cases hs : (builtin : Capabilities H).setters.get? (kind, p.name) with
  | none => rfl
  | some setter =>
    rw [eq_storing_of_builtin hs]
    rfl

/-- Of the properties that are set, the same ones are recorded by every element. -/
lemma exists_setAll_builtin (kind : Kind) (ps : List Property) :
    ∃ recorded : List Property, ∀ g, (builtin : Capabilities H).setAll kind ps (.generic g) =
      .generic { g with
        properties := recorded.foldl (fun qs q => q.assign qs) g.properties } := by
  induction ps with
  | nil => exact ⟨[], fun _ => rfl⟩
  | cons p ps ih =>
    obtain ⟨recorded, h⟩ := ih
    rcases set_builtin_generic kind p with hp | hp
    · refine ⟨p :: recorded, fun g => ?_⟩
      rw [setAll, List.foldl_cons, hp, ← setAll, h]
      rfl
    · refine ⟨recorded, fun g => ?_⟩
      rw [setAll, List.foldl_cons, hp, ← setAll, h]

/-- The built-in setters leave views of the host as they are. -/
lemma setAll_builtin_host (kind : Kind) (ps : List Property) (w : H) :
    (builtin : Capabilities H).setAll kind ps (.host w) = .host w := by
  induction ps with
  | nil => rfl
  | cons p ps ih => rw [setAll, List.foldl_cons, set_builtin_host, ← setAll, ih]

/-- Setting properties does not change the sort of an element. -/
lemma sameSort_setAll (kind : Kind) (ps : List Property) :
    ∀ v : VisualElement H, v.SameSort ((builtin : Capabilities H).setAll kind ps v)
  | .generic g => by
    obtain ⟨recorded, h⟩ := exists_setAll_builtin (H := H) kind ps
    rw [h]
    exact .generic g _
  | .host w => by
    rw [setAll_builtin_host]
    exact .host w

end Capabilities

/-- Elements of one sort stay of one sort. -/
lemma VisualElement.SameSort.setAll {v v' : VisualElement H} (h : v.SameSort v') (kind : Kind)
    (ps : List Property) : ((Capabilities.builtin : Capabilities H).setAll kind ps v).SameSort
      ((Capabilities.builtin : Capabilities H).setAll kind ps v') := by
  cases h with
  | generic g qs =>
    obtain ⟨recorded, h⟩ := Capabilities.exists_setAll_builtin (H := H) kind ps
    rw [h, h]
    exact .generic _ _
  | host w => exact .refl _

/-! ### Warnings -/

namespace Applier

variable [Widget H] (a : Applier H)

/-- The warnings about the properties of an element, given the visual element that gets them. -/
def noted (kind : Kind) (typeName element : String) (r : Resolved) (v : VisualElement H) :
    List ApplyWarning :=
  skippedWarnings typeName element r ++
    (r.properties.foldl (a.setOne kind typeName element) (v, [])).2

/-- Giving a living node its properties adds the warnings about them. -/
lemma assign_of_get? {id : NodeId} {n : ViewNode H} {s : Run H} (hn : s.tree.get? id = some n)
    (kind : Kind) (typeName element : String) (r : Resolved) :
    a.assign id kind typeName element r s = .ok ()
      { s with
        tree := s.tree.modify id (a.capabilities.setOn kind r.properties)
        warnings := s.warnings ++ a.noted kind typeName element r n.element } := by
  obtain ⟨warnings, h⟩ := a.assign_eq id kind typeName element r s
  have hw : s.warnings ++ a.noted kind typeName element r n.element = warnings := by
    rw [assign, Live.modify_apply] at h
    simp only [hn, EStateM.Result.ok.injEq, true_and] at h
    rw [noted, ← List.append_assoc]
    exact congrArg Run.warnings h
  rw [h, hw]

variable {a}

/-- **The warnings depend on the sort of the visual element alone.** -/
theorem noted_congr (ha : a.capabilities = .builtin) {v v' : VisualElement H} (h : v.SameSort v')
    (kind : Kind) (typeName element : String) (r : Resolved) :
    a.noted kind typeName element r v' = a.noted kind typeName element r v := by
  have fold : ∀ (ps : List Property) (v v' : VisualElement H) (ws : List ApplyWarning),
      v.SameSort v' → (ps.foldl (a.setOne kind typeName element) (v', ws)).2 =
        (ps.foldl (a.setOne kind typeName element) (v, ws)).2 := by
    intro ps
    induction ps with
    | nil => exact fun _ _ _ _ => rfl
    | cons p ps ih =>
      intro v v' ws h
      rw [List.foldl_cons, List.foldl_cons, setOne, setOne, ha]
      cases h with
      | generic g qs =>
        rcases Capabilities.set_builtin_generic (H := H) kind p with hp | hp
        · rw [hp, hp]
          exact ih _ _ _ (.generic _ _)
        · rw [hp, hp]
          exact ih _ _ _ (.generic g qs)
      | host w => rfl
  rw [noted, noted, fold _ _ _ _ h]

/-! ### Finished visual elements -/

/-- What becomes of the visual element that an element of a scope begins with: it has the properties
of the element, and then those of the root of the definition that is applied inside. -/
def finish (a : Applier H) (active : List String) (d : Definition) (e : Element)
    (v : VisualElement H) : VisualElement H :=
  let v := a.capabilities.setAll e.kind (a.sheets.resolve d e).properties v
  match a.nested? active e with
  | some nested => a.capabilities.setAll .container (a.sheets.resolveRoot nested).properties v
  | none => v

section Finish

variable {H : Type} {a : Applier H} {active : List String} {d nested : Definition} {e : Element}
  {v v' : VisualElement H}

/-- What an element makes of a visual element where nothing is applied inside. -/
lemma dress_congr (hn : a.nested? active e = none)
    (h : a.finish active d e v' = a.finish active d e v) : a.dress d e v' = a.dress d e v := by
  simp only [finish, hn] at h
  exact congrArg (fun element => { a.dress d e v with element }) h

/-- What it makes of one where a definition is applied inside. -/
lemma setOn_dress_congr (hn : a.nested? active e = some nested)
    (h : a.finish active d e v' = a.finish active d e v) :
    a.capabilities.setOn .container (a.sheets.resolveRoot nested).properties (a.dress d e v') =
      a.capabilities.setOn .container (a.sheets.resolveRoot nested).properties (a.dress d e v) := by
  simp only [finish, hn] at h
  exact congrArg (fun element => { a.dress d e v with element }) h

/-- An element begins with one visual element. -/
lemma Starts.unique {σ : Scene H} {e : Element} {v w : VisualElement H} (h : a.Starts σ e v)
    (h' : a.Starts σ e w) : w = v := by
  unfold Starts at h h'
  split at h
  · next old ho =>
    rw [ho] at h'
    exact h'.trans h.symm
  · next ho =>
    rw [ho] at h'
    exact Except.ok.inj (h'.symm.trans h)

/-- A recording element is finished when certain properties are recorded. -/
lemma exists_finish_generic (ha : a.capabilities = .builtin) (active : List String)
    (d : Definition) (e : Element) : ∃ recorded : List Property, ∀ g,
      a.finish active d e (.generic g) = .generic
        { g with properties := recorded.foldl (fun qs q => q.assign qs) g.properties } := by
  obtain ⟨own, hown⟩ :=
    Capabilities.exists_setAll_builtin (H := H) e.kind (a.sheets.resolve d e).properties
  unfold finish
  rw [ha]
  cases a.nested? active e with
  | none => exact ⟨own, hown⟩
  | some nested =>
    obtain ⟨inside, hinside⟩ := Capabilities.exists_setAll_builtin (H := H) .container
      (a.sheets.resolveRoot nested).properties
    refine ⟨own ++ inside, fun g => ?_⟩
    simp only [hown, hinside, List.foldl_append]

/-- Finishing an element leaves views of the host as they are. -/
lemma finish_host (ha : a.capabilities = .builtin) (active : List String) (d : Definition)
    (e : Element) (w : H) : a.finish active d e (.host w) = .host w := by
  unfold finish
  rw [ha]
  cases a.nested? active e <;> simp only [Capabilities.setAll_builtin_host]

/-- A visual element is finished as one of its sort. -/
lemma sameSort_finish (ha : a.capabilities = .builtin) (active : List String) (d : Definition)
    (e : Element) : ∀ v : VisualElement H, v.SameSort (a.finish active d e v)
  | .generic g => by
    obtain ⟨recorded, h⟩ := exists_finish_generic ha active d e
    rw [h]
    exact .generic g _
  | .host w => by
    rw [finish_host ha]
    exact .host w

/-- **A finished visual element is finished**: doing the same once more changes nothing. -/
theorem finish_finish (ha : a.capabilities = .builtin) (active : List String) (d : Definition)
    (e : Element) : ∀ v : VisualElement H,
      a.finish active d e (a.finish active d e v) = a.finish active d e v
  | .generic g => by
    obtain ⟨recorded, h⟩ := exists_finish_generic ha active d e
    rw [h, h, Property.foldl_assign_foldl_assign]
  | .host w => by rw [finish_host ha, finish_host ha]

/-- The properties of the root of a definition may be set once more. -/
lemma setOn_setOn (ha : a.capabilities = .builtin) (kind : Kind) (ps : List Property)
    (n : ViewNode H) : a.capabilities.setOn kind ps (a.capabilities.setOn kind ps n) =
      a.capabilities.setOn kind ps n := by
  unfold Capabilities.setOn
  rw [ha]
  simp only
  cases n.element with
  | generic g =>
    obtain ⟨recorded, h⟩ := Capabilities.exists_setAll_builtin (H := H) kind ps
    rw [h, h, Property.foldl_assign_foldl_assign]
  | host w => simp only [Capabilities.setAll_builtin_host]

end Finish

end Applier

end ViewMarkup
