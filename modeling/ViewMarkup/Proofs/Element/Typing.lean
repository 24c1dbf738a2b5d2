import Mathlib.Data.List.Induction
import Mathlib.Data.List.Nodup
import ViewMarkup.Proofs.Fallible
import ViewMarkup.Style.Cascade

/-!
# Properties of the declared type

The catalogue can be gone through in two ways: a name can be looked up, from the last layer to the
first, and all properties can be listed, with a name in a later layer in the place of the same name
in an earlier one. Both give each name the same type, and a property that is read by a name has that
type.

## Main definitions

* `Property.Conforms` — the catalogue of a kind gives the name of a property the type of its value.

## Main statements

* `ValueType.type_of_read` — what is read by a type is of the type.
* `Catalogue.mem_properties_iff` — the two ways through the catalogue agree.
* `StyleSheets.forall_mem_cascade` — what holds of all that can be read holds of what the cascade
  gives an element, if it holds of the element's own properties.
-/

namespace ViewMarkup

/-! ### Values -/

/-- **What is read by a type is of the type.** -/
theorem ValueType.type_of_read {t : ValueType} {text : String} {v : Value} (h : t.read text = .ok v) :
    v.type = t := by
  unfold ValueType.read at h
  cases t with
  | color | integer | float | double =>
    simp only at h
    split at h
    · cases h
      rfl
    · cases h
  | string =>
    cases h
    rfl
  | font =>
    obtain ⟨f, -, rfl⟩ := Except.map_eq_ok.1 h
    rfl
  | bool =>
    simp only at h
    split at h
    · cases h
      rfl
    · split at h
      · cases h
        rfl
      · cases h
  | choice family =>
    obtain ⟨c, hc, rfl⟩ := Except.map_eq_ok.1 h
    unfold Choice.ofText at hc
    simp only at hc
    split at hc
    · cases hc
      rfl
    · cases hc
  | point | size | rect | edgeInsets =>
    obtain ⟨_, -, h⟩ := Except.bind_eq_ok.1 h
    obtain ⟨_, -, h⟩ := Except.bind_eq_ok.1 h
    cases h
    rfl
  | image =>
    simp only at h
    split at h
    · cases h
    · cases h
      rfl

/-! ### The catalogue -/

/-- The catalogue of a kind gives the name of a property the type of its value. -/
def Property.Conforms (kind : Kind) (p : Property) : Prop :=
  Catalogue.lookup? kind p.name = some p.value.type

namespace Catalogue

variable {kind : Kind} {p : Property}

/-- What is read conforms to the element. -/
lemma conforms_of_read {name text : String} (h : read kind name text = .ok p) :
    p.Conforms kind := by
  unfold read at h
  split at h
  · next t ht =>
    unfold ValueType.readProperty at h
    split at h
    · next v hv =>
      cases h
      rw [Property.Conforms, ht, ValueType.type_of_read hv]
    · cases h
  · cases h

/-- What is placed is listed, as are the entries before. -/
lemma mem_place {entries : List Entry} {entry : Entry} {name : String}
    (h : name ∈ entries.map (·.1) ∨ name = entry.1) : name ∈ (place entries entry).map (·.1) := by
  unfold place
  split
  · next ha =>
    have hkeep : (entries.map fun e => if e.1 = entry.1 then entry else e).map (·.1) =
        entries.map (·.1) := by
      rw [List.map_map]
      refine List.map_congr_left fun e _ => ?_
      simp only [Function.comp_apply]
      split
      · next he => exact he.symm
      · rfl
    rw [hkeep]
    rcases h with h | rfl
    · exact h
    · obtain ⟨e, he, heq⟩ := List.any_eq_true.1 ha
      exact List.mem_map.2 ⟨e, he, by simpa using heq⟩
  · rw [List.map_append, List.mem_append]
    exact h.imp_right fun h => by rw [h]; exact List.mem_singleton_self _

/-- A name with a type is among the properties. -/
lemma mem_properties {name : String} (h : (lookup? kind name).isSome = true) :
    name ∈ (properties kind).map (·.1) := by
  have placed : ∀ (entries acc : List Entry), name ∈ acc.map (·.1) ∨ name ∈ entries.map (·.1) →
      name ∈ (entries.foldl place acc).map (·.1) := by
    intro entries
    induction entries with
    | nil => exact fun acc h => h.resolve_right List.not_mem_nil
    | cons entry entries ih =>
      intro acc h
      rw [List.map_cons, List.mem_cons, ← or_assoc] at h
      exact ih _ (h.imp_left mem_place)
  obtain ⟨t, ht⟩ := Option.isSome_iff_exists.1 h
  obtain ⟨layer, hl, hlookup⟩ := List.exists_of_findSome?_eq_some ht
  obtain ⟨before, after, hlayer, -⟩ := List.lookup_eq_some_iff.1 hlookup
  refine placed _ _ (.inr (List.mem_map.2 ⟨(name, t), ?_, rfl⟩))
  exact List.mem_flatten.2 ⟨layer, List.mem_reverse.1 hl, hlayer ▸ by simp⟩

/-- An entry that is put among others hides those of its name. -/
lemma mem_of_mem_place {entries : List Entry} {entry x : Entry} (h : x ∈ place entries entry) :
    x = entry ∨ x ∈ entries ∧ x.1 ≠ entry.1 := by
  unfold place at h
  split at h
  · obtain ⟨e, he, rfl⟩ := List.mem_map.1 h
    split
    · exact .inl rfl
    · next hne => exact .inr ⟨he, hne⟩
  · next hno =>
    rcases List.mem_append.1 h with h | h
    · exact .inr ⟨h, fun heq => hno (List.any_eq_true.2 ⟨x, h, by simpa using heq⟩)⟩
    · exact .inl (List.mem_singleton.1 h)

/-- Of the entries that are put in one after the other the last of each name stays. -/
lemma lookup_of_mem_foldl_place (entries : List Entry) :
    ∀ x ∈ entries.foldl place [], entries.reverse.lookup x.1 = some x.2 := by
  induction entries using List.reverseRecOn with
  | nil => exact fun _ h => (List.not_mem_nil h).elim
  | append_singleton entries entry ih =>
    intro x hx
    rw [List.foldl_concat] at hx
    rw [List.reverse_concat, List.lookup_cons]
    rcases mem_of_mem_place hx with rfl | ⟨hx, hne⟩
    · rw [beq_self_eq_true]
    · rw [beq_eq_false_iff_ne.2 hne]
      exact ih x hx

/-- All layers, each once. -/
def allLayers : List (List Entry) :=
  [view, control, text, label, textField, button, imageView, scrollView, textView, listView,
    stackView, activityIndicator, switch, slider, stepper, segmentedControl, pageControl, searchBar]

/-- The layers of a kind are among all layers. -/
lemma layers_subset (kind : Kind) : layers kind ⊆ allLayers := by
  cases kind <;> simp [layers, allLayers]

/-- Each name is once in a layer. -/
lemma nodup_of_mem_layers {layer : List Entry} (h : layer ∈ layers kind) :
    (layer.map (·.1)).Nodup := by
  have each : ∀ layer ∈ allLayers, (layer.map (·.1)).Nodup := by decide +kernel
  exact each layer (layers_subset kind h)

/-- The names are made of letters. -/
lemma isAlpha_of_mem_layers {layer : List Entry} (h : layer ∈ layers kind) :
    ∀ entry ∈ layer, entry.1.toList.all Char.isAlpha = true := by
  have each : ∀ layer ∈ allLayers, ∀ entry ∈ layer, entry.1.toList.all Char.isAlpha = true := by
    decide +kernel
  exact each layer (layers_subset kind h)

/-- Among entries of different names, an entry is found if it is there. -/
lemma lookup_eq_some_iff {es : List Entry} (hn : (es.map (·.1)).Nodup) {name : String}
    {t : ValueType} : es.lookup name = some t ↔ (name, t) ∈ es := by
  induction es with
  | nil => simp
  | cons e es ih =>
    obtain ⟨name', t'⟩ := e
    rw [List.map_cons, List.nodup_cons] at hn
    rw [List.lookup_cons, List.mem_cons, Prod.mk.injEq]
    by_cases he : name = name'
    · subst he
      have absent : (name, t) ∉ es := fun h => hn.1 (List.mem_map.2 ⟨_, h, rfl⟩)
      simp [absent, eq_comm]
    · simp only [beq_eq_false_iff_ne.2 he, he, false_and, false_or]
      exact ih hn.2

/-- What is found among entries of different names does not depend on their order. -/
lemma lookup_reverse {es : List Entry} (hn : (es.map (·.1)).Nodup) (name : String) :
    es.reverse.lookup name = es.lookup name := by
  have hn' : (es.reverse.map (·.1)).Nodup := by rwa [List.map_reverse, List.nodup_reverse]
  refine Option.ext fun t => ?_
  rw [lookup_eq_some_iff hn, lookup_eq_some_iff hn', List.mem_reverse]

/-- The last of all entries of a name is the one that is found. -/
lemma lookup?_eq (kind : Kind) (name : String) :
    lookup? kind name = (layers kind).flatten.reverse.lookup name := by
  have found : ∀ ls : List (List Entry), (∀ layer ∈ ls, (layer.map (·.1)).Nodup) →
      ls.reverse.findSome? (·.lookup name) = ls.flatten.reverse.lookup name := by
    intro ls
    induction ls with
    | nil => exact fun _ => rfl
    | cons l ls ih =>
      intro h
      rw [List.forall_mem_cons] at h
      rw [List.reverse_cons, List.findSome?_append, ih h.2, List.flatten_cons, List.reverse_append,
        List.lookup_append, lookup_reverse h.1, List.findSome?_singleton]
  exact found _ fun _ => nodup_of_mem_layers

/-- An entry that is listed is the one that is found. -/
lemma lookup?_of_mem_properties {entry : Entry} (h : entry ∈ properties kind) :
    lookup? kind entry.1 = some entry.2 := by
  rw [lookup?_eq]
  exact lookup_of_mem_foldl_place _ entry h

/-- **The two ways through the catalogue agree**: the type that a name is listed with is the one that
is found under the name. -/
theorem mem_properties_iff {name : String} {t : ValueType} :
    (name, t) ∈ properties kind ↔ lookup? kind name = some t := by
  refine ⟨fun h => lookup?_of_mem_properties h, fun h => ?_⟩
  obtain ⟨⟨name', t'⟩, hm, rfl⟩ :=
    List.mem_map.1 (mem_properties (Option.isSome_iff_exists.2 ⟨t, h⟩))
  have := lookup?_of_mem_properties hm
  rw [h] at this
  cases this
  exact hm

end Catalogue

/-! ### The cascade -/

variable {P : Property → Prop}

/-- Assigning a property keeps what holds of all of them. -/
lemma Property.forall_mem_assign {p : Property} {ps : List Property} (hp : P p)
    (h : ∀ q ∈ ps, P q) : ∀ q ∈ p.assign ps, P q := by
  induction ps with
  | nil => exact List.forall_mem_singleton.2 hp
  | cons q qs ih =>
    rw [List.forall_mem_cons] at h
    rw [assign]
    split
    · exact List.forall_mem_cons.2 ⟨hp, h.2⟩
    · exact List.forall_mem_cons.2 ⟨h.1, ih h.2⟩

namespace StyleSheets

/-- **What the cascade gives an element** is read by the element's kind or one of its own
properties, whatever styles it comes from. -/
theorem forall_mem_cascade {kind : Kind}
    (hread : ∀ name text p, Catalogue.read kind name text = .ok p → P p)
    {own : List Property} (hown : ∀ p ∈ own, P p) (s : StyleSheets)
    (references : List StyleReference) (declared : List Style) :
    ∀ p ∈ (s.cascade kind references own declared).properties, P p := by
  let Holds (r : Resolved) : Prop := ∀ p ∈ r.properties, P p
  have entry : ∀ reference style r e, Holds r → Holds (r.applyEntry kind reference style e) := by
    intro reference style r e hr
    unfold Resolved.applyEntry
    split
    · next p hp => exact Property.forall_mem_assign (hread _ _ p hp) hr
    · exact hr
  have reference : ∀ r ref, Holds r → Holds (s.applyReference kind declared r ref) := by
    intro r ref hr
    unfold StyleSheets.applyReference
    split
    · next styles _ =>
      refine List.foldlRecOn styles _ hr fun r hr style _ => ?_
      exact List.foldlRecOn style.entries _ hr fun r hr e _ => entry _ _ r e hr
    · exact hr
  refine List.foldlRecOn (motive := Holds) own _ ?_ fun r hr p hp =>
    Property.forall_mem_assign (hown p hp) hr
  refine List.foldlRecOn (motive := Holds) _ _ ?_ fun r hr ref _ => reference r ref hr
  exact fun _ h => (List.not_mem_nil h).elim

end StyleSheets

end ViewMarkup
