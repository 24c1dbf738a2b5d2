import Mathlib.Tactic.Lemma
import ViewMarkup.View.Apply

/-!
# What an application looks up

An application asks its library for nothing but the types that are referred to: by the definition
that is applied, by the definitions in place inside it, and by the definitions that the library
gives for these types in turn. Two libraries that agree on such names cannot be told apart.

## Main definitions

* `TypeReference.IsWithin` — all that a reference leads to has given names.
* `Applier.Knows` — names that no definition of the library leads away from.

## Main statements

* `Applier.applyScope_congr`, `Applier.apply_congr` — applications with libraries that agree.
-/

namespace ViewMarkup

/-- All types that a reference names, or that its definition in place refers to at any depth, are
among given names. -/
def TypeReference.IsWithin (names : List String) : TypeReference → Prop
  | .named name => name ∈ names
  | .inline d => d.references ⊆ names

/-- The references of an element are within names if its own one is, and those inside it. -/
lemma Element.references_subset {e : Element} {names : List String} (h : e.references ⊆ names) :
    (∀ r, e.reference = some r → r.IsWithin names) ∧ referencesAll e.children ⊆ names := by
  obtain ⟨kind, field, layout, properties, styles, children, reference, name⟩ := e
  rw [references.eq_def, List.append_subset] at h
  refine ⟨fun r hr => ?_, h.2⟩
  cases hr
  cases r with
  | named name => exact h.1 List.mem_cons_self
  | inline d => exact (List.cons_subset.1 h.1).2

/-- The references of a definition are those of its elements. -/
lemma Definition.references_eq (d : Definition) :
    d.references = Element.referencesAll d.children := by
  cases d
  rw [references]

namespace Applier

variable {H : Type} [Widget H] {a : Applier H} {library : Table String Definition}
  {names : List String}

/-- Names that no definition of a library leads away from: whatever the library has under one of
them refers to no others. -/
def Knows (a : Applier H) (names : List String) : Prop :=
  ∀ name ∈ names, ∀ d, a.library.get? name = some d → d.references ⊆ names

omit [Widget H] in
/-- The element that is created depends on the library only for a reference without a definition in
place. -/
lemma create_congr (hl : ∀ name ∈ names, library.get? name = a.library.get? name) {e : Element}
    (he : ∀ r, e.reference = some r → r.IsWithin names) :
    ({ a with library } : Applier H).create e = a.create e := by
  unfold create
  split
  · next r _ hr =>
    have same : (r.definition?.isSome || library.contains r.typeName) =
        (r.definition?.isSome || a.library.contains r.typeName) := by
      cases r with
      | named name =>
        have : library.get? name = a.library.get? name := hl name (he _ hr)
        simp only [Table.contains, TypeReference.typeName, this]
      | inline d => rfl
    simp only [same]
  · rfl

/-- An element is placed in the same way by libraries that agree on the types that it names. -/
lemma placeOne_congr (hl : ∀ name ∈ names, library.get? name = a.library.get? name)
    {e : Element} (he : ∀ r, e.reference = some r → r.IsWithin names) (root : ScopeRoot)
    (d : Definition) (parent : NodeId) (parentKind : Kind) :
    ({ a with library } : Applier H).placeOne root d parent parentKind e =
      a.placeOne root d parent parentKind e := by
  have new : ({ a with library } : Applier H).insertNew e = a.insertNew e := by
    unfold insertNew
    rw [create_congr hl he]
  have node : ({ a with library } : Applier H).nodeFor root e = a.nodeFor root e := by
    unfold nodeFor
    rw [new]
  unfold placeOne
  rw [node]
  rfl

/-- A reference by name asks the library once. -/
lemma applyReference_named (active : List String) (typeName element : String) (id : NodeId)
    (name : String) :
    a.applyReference active typeName element id (some (.named name)) =
      match a.library.get? name with
      | none => pure ()
      | some nested =>
          if nested.typeName ∈ active then warn (selfContained typeName element nested.typeName)
          else
            inNewScope (do
              let _ ← a.applyScope (nested.typeName :: active) ⟨id, nested.typeName, true⟩ nested) := by
  rw [applyReference]
  split
  · next hn => rw [hn]
  · next nested hn =>
    rw [hn]
    rfl

/-- **Libraries that agree cannot be told apart.** If two libraries agree on names, and what they
have under these refers to no others, then a definition that refers to such names only is applied in
the same way with either.

**Proof sketch.** Induction over the application, with one case for each of its functions. The
library is asked when an element is created and when a reference by name is followed. -/
theorem applyScope_congr (hl : ∀ name ∈ names, library.get? name = a.library.get? name)
    (hk : a.Knows names) (active : List String) (root : ScopeRoot) (d : Definition)
    (hd : d.references ⊆ names) :
    ({ a with library } : Applier H).applyScope active root d = a.applyScope active root d := by
  refine (applyScope.mutual_induct a
    (fun active root d => d.references ⊆ names →
      ({ a with library } : Applier H).applyScope active root d = a.applyScope active root d)
    (fun active root d parent parentKind es => Element.referencesAll es ⊆ names →
      ({ a with library } : Applier H).placeAll active root d parent parentKind es =
        a.placeAll active root d parent parentKind es)
    (fun active root d parent parentKind e => e.references ⊆ names →
      ({ a with library } : Applier H).place active root d parent parentKind e =
        a.place active root d parent parentKind e)
    (fun active typeName element id r => (∀ r', r = some r' → r'.IsWithin names) →
      ({ a with library } : Applier H).applyReference active typeName element id r =
        a.applyReference active typeName element id r)
    ?scope ?nil ?cons ?one ?none ?inlineActive ?inline ?unknown ?namedActive ?named).1
    active root d hd
  case scope =>
    intro active root d ih hd
    rw [applyScope, applyScope, ih (d.references_eq ▸ hd)]
    rfl
  case nil =>
    intro active root d parent parentKind _
    rw [placeAll, placeAll]
  case cons =>
    intro active root d parent parentKind e es ih ih' hes
    rw [Element.referencesAll, List.append_subset] at hes
    rw [placeAll, placeAll, ih hes.1, ih' hes.2]
  case one =>
    intro active root d parent parentKind e ihr ihc he
    obtain ⟨hr, hc⟩ := Element.references_subset he
    rw [place, place, placeOne_congr hl hr]
    simp only [fun id => ihr id hr, fun id => ihc id hc]
  case none =>
    intro active typeName element id _
    rw [applyReference, applyReference]
  case inlineActive =>
    intro active typeName element id nested hn _
    rw [applyReference, applyReference, if_pos hn, if_pos hn]
  case inline =>
    intro active typeName element id nested hn ih hr
    rw [applyReference, applyReference, if_neg hn, if_neg hn, ih (hr _ rfl)]
  case unknown =>
    intro active typeName element id name hname hr
    rw [applyReference_named, applyReference_named]
    simp only [hl name (hr _ rfl), hname]
  case namedActive =>
    intro active typeName element id name nested hname hn hr
    rw [applyReference_named, applyReference_named]
    simp only [hl name (hr _ rfl), hname, if_pos hn]
  case named =>
    intro active typeName element id name nested hname hn ih hr
    rw [applyReference_named, applyReference_named]
    simp only [hl name (hr _ rfl), hname, if_neg hn, ih (hk name (hr _ rfl) nested hname)]

/-- So is the whole application to a component. -/
theorem apply_congr (hl : ∀ name ∈ names, library.get? name = a.library.get? name)
    (hk : a.Knows names) {d : Definition} (hd : d.references ⊆ names) (t : ViewTree H)
    (b : Binding) : ({ a with library } : Applier H).apply t b d = a.apply t b d := by
  unfold apply
  rw [applyScope_congr hl hk _ _ d hd]

end Applier

end ViewMarkup
