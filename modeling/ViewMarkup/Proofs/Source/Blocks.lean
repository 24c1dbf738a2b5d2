import ViewMarkup.Proofs.Document.Shape
import ViewMarkup.Proofs.Source.Drafting

/-!
# The blocks of a document

The source of a document has one block for each definition with a declared type, in document order, and
none for an anonymous one. A block is headed by the type as it is declared, so two blocks define the
routine of one type just when two tags of the document declare it. Nothing keeps a document from doing
that: a name is taken in a scope, but a type is not.

## Main definitions

* `Xml.Node.declaredTypes` — the types that the tags of a document declare.
* `Identifier.nameOf?` — the name that a text means as an identifier.
* `SourceToken.heads` — the types at the heads of blocks.

## Main statements

* `Definition.declared_eq` — the definitions with a declared type, and the tags that declare it.
* `Routine.blocks_of_ofDocument` — the blocks of a document.
-/

namespace ViewMarkup

open Xml (Node)

/-- The types that the tags of a document declare for elements inside them, in document order. -/
def Xml.Node.declaredTypes (root : Node) : List String :=
  (root.withoutStyles :: holders root.withoutStyles.children).filterMap (·.get? "type")

/-- The name that a text means as an identifier. The mark that admits keywords is not part of it. -/
def Identifier.nameOf? (text : String) : Option String := (ofText? text).map (·.name)

/-- The types at the heads of blocks, as they are written. -/
def SourceToken.heads : List SourceToken → List String
  | .atom "impl" :: .atom type :: rest => type :: heads rest
  | _ :: rest => heads rest
  | [] => []

/-- The definitions with a declared type come from the tags that declare one. -/
theorem Definition.declared_eq {styles : List Style} {ns : List Node} {ds : List Definition}
    (h : List.Forall₂ (StemsFrom styles) ns ds) :
    ns.filterMap (·.get? "type") = (ds.filter fun d => !d.isAnonymous).map (·.typeName) := by
  induction h with
  | nil => rfl
  | @cons n d ns ds hd _ ih =>
    cases hn : n.get? "type" with
    | none =>
      have ha : d.isAnonymous = true := hd.isAnonymous_iff.2 hn
      rw [List.filterMap_cons, hn, List.filter_cons_of_neg (by simp [ha])]
      exact ih
    | some t =>
      have ha : d.isAnonymous = false := by
        rw [← Bool.not_eq_true, hd.isAnonymous_iff, hn]
        exact Option.some_ne_none t
      rw [List.filterMap_cons, hn, List.filter_cons_of_pos (by simp [ha]), List.map_cons, ← ih,
        hd.typeName_eq t hn]

namespace Routine

/-- A block has one type at its head. -/
lemma heads_tokens (rs : List Routine) :
    SourceToken.heads (rs.flatMap tokens) = rs.map (·.typeName.text) := by
  induction rs with
  | nil => rfl
  | cons r rs ih => exact congrArg (r.typeName.text :: ·) ih

/-- A block is headed by the type of its definition. -/
lemma ofText?_of_ofDefinition {sheets : StyleSheets} {d : Definition}
    {r : Routine × List BuildReport} (h : ofDefinition sheets d = .ok r) :
    Identifier.ofText? d.typeName = some r.1.typeName := by
  obtain ⟨type, htype, h⟩ := Except.bind_eq_ok.1 h
  obtain ⟨D, -, h⟩ := Except.bind_eq_ok.1 h
  obtain ⟨constraints, -, h⟩ := Except.bind_eq_ok.1 h
  cases h
  unfold Identifier.ofText at htype
  split at htype
  · next hi =>
    cases htype
    exact hi
  · cases htype

/-- **The blocks of a document.** The source has one block for every definition with a declared type, in
document order, headed by that type, and no others. So the types at the heads are those that the tags of
the document declare, and no type has two blocks just if no two tags declare the same one. -/
theorem blocks_of_ofDocument {text : String} {d : Definition} {sheets : StyleSheets}
    {rs : List (Routine × List BuildReport)} (hd : Definition.ofText text = .ok d)
    (h : ofDocument sheets d = .ok rs) :
    SourceToken.heads (rs.flatMap (·.1.tokens)) = rs.map (·.1.typeName.text) ∧
      List.Forall₂ (fun d' r => ofDefinition sheets d' = .ok r ∧
        Identifier.ofText? d'.typeName = some r.1.typeName)
        (d.definitions.filter fun d' => !d'.isAnonymous) rs ∧
      ∃ root, Node.read text = .ok root ∧
        root.declaredTypes.map Identifier.nameOf? = rs.map (fun r => some r.1.typeName.name) ∧
        ((rs.map (·.1.typeName.name)).Nodup ↔
          root.declaredTypes.Pairwise fun t t' => Identifier.nameOf? t ≠ Identifier.nameOf? t') := by
  obtain ⟨root, styles, hroot, -, -, hdefinitions⟩ := Definition.ofText_shape hd
  have blocks := Except.mapM_eq_ok.1 h
  have declared : root.declaredTypes = _ := Definition.declared_eq hdefinitions
  have names : root.declaredTypes.map Identifier.nameOf? =
      rs.map (fun r => some r.1.typeName.name) := by
    rw [declared, List.map_map, ← List.forall₂_eq_eq_eq, List.forall₂_map_left_iff,
      List.forall₂_map_right_iff]
    refine blocks.imp fun d' r hr => ?_
    rw [Function.comp_apply, Identifier.nameOf?, ofText?_of_ofDefinition hr, Option.map_some]
  refine ⟨?_, blocks.imp fun d' r hr => ⟨hr, ofText?_of_ofDefinition hr⟩, root, hroot, names, ?_⟩
  · have := heads_tokens (rs.map (·.1))
    rwa [List.flatMap_map, List.map_map] at this
  · rw [← List.pairwise_map, names, List.Nodup, List.pairwise_map, List.pairwise_map]
    simp only [ne_eq, Option.some.injEq]

/-- A document with two definitions in place of one type. -/
def twoBodies : String :=
  "<Component type=\"A\"><Component type=\"B\"><Label/></Component>"
    ++ "<Component type=\"B\"><Label/></Component></Component>"

/-- The source of the document has two blocks of that type. -/
theorem blocks_twoBodies :
    ∃ root d rs, Node.read twoBodies = .ok root ∧ Definition.ofText twoBodies = .ok d ∧
      ofDocument {} d = .ok rs ∧
      SourceToken.heads (rs.flatMap (·.1.tokens)) = ["A", "B", "B"] ∧
      root.declaredTypes = ["A", "B", "B"] ∧ ¬ (rs.map (·.1.typeName.name)).Nodup := by
  have hroot : Node.read twoBodies = .ok ⟨"Component", [("type", "A")],
      [⟨"Component", [("type", "B")], [⟨"Label", [], []⟩]⟩,
        ⟨"Component", [("type", "B")], [⟨"Label", [], []⟩]⟩]⟩ := by
    unfold twoBodies
    rw [← String.ofList_append, Xml.Node.read_ofList]
    cbv
  have hwritten : (Definition.ofText twoBodies).toOption.bind (fun d =>
      (ofDocument {} d).toOption.map (·.map (·.1.typeName))) =
      some [⟨false, "A"⟩, ⟨false, "B"⟩, ⟨false, "B"⟩] := by
    rw [Definition.ofText, hroot]
    decide +kernel
  obtain ⟨d, hd, hwritten⟩ := Option.bind_eq_some_iff.1 hwritten
  obtain ⟨rs, hrs, htypes⟩ := Option.map_eq_some_iff.1 hwritten
  have hd := Except.toOption_eq_some.1 hd
  have hrs := Except.toOption_eq_some.1 hrs
  obtain ⟨heads, -, root, hread, -, hnodup⟩ := blocks_of_ofDocument hd hrs
  cases hroot.symm.trans hread
  have declared : Node.declaredTypes ⟨"Component", [("type", "A")],
      [⟨"Component", [("type", "B")], [⟨"Label", [], []⟩]⟩,
        ⟨"Component", [("type", "B")], [⟨"Label", [], []⟩]⟩]⟩ = ["A", "B", "B"] := by decide +kernel
  refine ⟨_, d, rs, hroot, hd, hrs, ?_, declared, ?_⟩
  · have := congrArg (List.map Identifier.text) htypes
    rw [List.map_map] at this
    exact heads.trans this
  · rw [hnodup, declared]
    simp

end Routine

end ViewMarkup
