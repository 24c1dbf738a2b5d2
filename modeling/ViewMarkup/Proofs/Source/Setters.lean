import ViewMarkup.Proofs.Source.Faithfulness
import ViewMarkup.Proofs.View.Recording

/-!
# The methods that set properties

A routine sets a property by a method that is named after it. The name of the method is an
identifier for every property of the catalogue, since the names in the catalogue are made of letters
and no keyword begins as the method does. What routines set, and what applications set, is what the
cascade gives the elements of a document, and that is in the catalogue.

## Main definitions

* `Property.HasSetter` — it is an identifier.

## Main statements

* `Property.Conforms.hasSetter` — the methods for the properties of the catalogue.
* `Routine.hasSetter_of_ofDefinition` — the methods that a routine calls.
* `Definition.conforms_of_ofText` — the properties of a document, from its text to what is applied
  and what is written.
-/

namespace ViewMarkup

open Element Applier

/-! ### Names of methods -/

/-- The name of the method that sets a property is an identifier, without any mark. -/
def Property.HasSetter (p : Property) : Prop :=
  Identifier.ofText? p.setter = some ⟨false, p.setter⟩

/-- No keyword begins with the word for setting. -/
lemma Identifier.not_mem_keywords {cs : List Char} :
    String.ofList ('s' :: 'e' :: 't' :: '_' :: cs) ∉ keywords := by
  have none_begins : ∀ word ∈ keywords, begins "set_" word.toList = false := by decide
  intro h
  have := none_begins _ h
  rw [String.toList_ofList] at this
  cases this

/-- A name that begins with the word for setting is an identifier. -/
lemma Identifier.ofText?_set {cs : List Char} (h : ∀ c ∈ cs, Text.isNamePart c = true) :
    ofText? (String.ofList ('s' :: 'e' :: 't' :: '_' :: cs)) =
      some ⟨false, String.ofList ('s' :: 'e' :: 't' :: '_' :: cs)⟩ := by
  have parts : ∀ c ∈ 'e' :: 't' :: '_' :: cs, Text.isNamePart c = true :=
    List.forall_mem_cons.2 ⟨rfl, List.forall_mem_cons.2 ⟨rfl, List.forall_mem_cons.2 ⟨rfl, h⟩⟩⟩
  have begin : afterBlanks ('s' :: 'e' :: 't' :: '_' :: cs) = 's' :: 'e' :: 't' :: '_' :: cs := by
    rw [afterBlanks]
    rfl
  have start : isStart 's' = true := rfl
  have name : readName? ('s' :: 'e' :: 't' :: '_' :: cs) =
      some (String.ofList ('s' :: 'e' :: 't' :: '_' :: cs), []) := by
    rw [readName?, if_pos start, List.takeWhile_eq_self_iff.2 parts,
      List.dropWhile_eq_nil_iff.2 parts]
  have plain : Text.after? rawMark.toList ('s' :: 'e' :: 't' :: '_' :: cs) = none := rfl
  have read : read? ('s' :: 'e' :: 't' :: '_' :: cs) =
      some (⟨false, String.ofList ('s' :: 'e' :: 't' :: '_' :: cs)⟩, []) := by
    rw [read?, plain]
    simp only [name, if_neg not_mem_keywords]
  have gone : afterBlanks [] = [] := by rw [afterBlanks]
  unfold ofText?
  rw [String.toList_ofList]
  split
  · next hmark => exact absurd (List.head_eq_of_cons_eq hmark) (by decide)
  · simp only [begin, read, gone, List.isEmpty_nil, if_true]

/-- A letter may stand in a name. -/
lemma Text.isNamePart_of_isAlpha {c : Char} (h : c.isAlpha = true) : isNamePart c = true := by
  have ascii : c.toNat < 0x80 := by
    simp only [Char.isAlpha, Char.isUpper, Char.isLower, Bool.or_eq_true, Bool.and_eq_true,
      decide_eq_true_eq, ge_iff_le, UInt32.le_iff_toNat_le] at h
    change c.val.toNat < 0x80
    have upper : 'Z'.val.toNat = 90 := rfl
    have lower : 'z'.val.toNat = 122 := rfl
    omega
  rw [isNamePart, if_pos ascii, Char.isAlphanum, h]
  rfl

/-- The words of a name made of letters are set apart by characters that may stand in names. -/
lemma SourceToken.isNamePart_go {cs : List Char} (h : ∀ c ∈ cs, c.isAlpha = true) :
    ∀ isFirst, ∀ c ∈ snakeCase.go isFirst cs, Text.isNamePart c = true := by
  induction cs with
  | nil => exact fun _ _ hc => (List.not_mem_nil hc).elim
  | cons c cs ih =>
    rw [List.forall_mem_cons] at h
    have lower : Text.isNamePart c.toLower = true :=
      Text.isNamePart_of_isAlpha (by rw [Char.isAlpha_toLower_eq_isAlpha, h.1])
    intro isFirst
    rw [snakeCase.go, List.forall_mem_append]
    refine ⟨?_, ih h.2 false⟩
    split
    · split
      · exact List.forall_mem_singleton.2 lower
      · exact List.forall_mem_cons.2 ⟨rfl, List.forall_mem_singleton.2 lower⟩
    · exact List.forall_mem_singleton.2 (Text.isNamePart_of_isAlpha h.1)

/-- **The methods for the properties of the catalogue** have names that are identifiers. -/
theorem Property.Conforms.hasSetter {kind : Kind} {p : Property} (h : p.Conforms kind) :
    p.HasSetter := by
  obtain ⟨layer, hl, hlookup⟩ := List.exists_of_findSome?_eq_some h
  obtain ⟨before, after, hlayer, -⟩ := List.lookup_eq_some_iff.1 hlookup
  have letters := Catalogue.isAlpha_of_mem_layers (List.mem_reverse.1 hl)
    (p.name, p.value.type) (hlayer ▸ by simp)
  have parts := SourceToken.isNamePart_go (List.all_eq_true.1 letters) true
  have spelled : p.setter = String.ofList
      ('s' :: 'e' :: 't' :: '_' :: SourceToken.snakeCase.go true p.name.toList) := by
    have word : "set_".toList = ['s', 'e', 't', '_'] := rfl
    rw [setter, SourceToken.snakeCase, ← String.toList_inj, String.toList_append, word]
    simp only [String.toList_ofList, List.cons_append, List.nil_append]
  rw [HasSetter, spelled]
  exact Identifier.ofText?_set parts

/-! ### What a routine sets -/

/-- The elements of a draft come from the document, if the elements that are placed do. -/
lemma Drafts.isDeclared {at_ : Place} {es : List Element} {n n' : Nat} {ws : List Drafted}
    (h : Drafts at_ es n n' ws) (hes : AreParsed es) :
    ∀ w ∈ ws, w.placed.element.IsDeclared := by
  induction h with
  | nil => exact fun _ h => (List.not_mem_nil h).elim
  | @cons at_ at' e es es' n n₁ n₂ n' w inside after hw hi hin _ ih ih' =>
    have hinside : ∀ w ∈ inside, w.placed.element.IsDeclared := by
      cases hi with
      | nothing =>
        cases hin
        exact fun _ h => (List.not_mem_nil h).elim
      | children => exact ih hes.children
      | component _ hr => exact ih (.of_isParsed (hes.inline hr))
    refine List.forall_mem_cons.2 ⟨?_, List.forall_mem_append.2 ⟨hinside, ih' hes.tail⟩⟩
    rw [hw.placed_eq]
    exact hes.isDeclared

/-- The properties that the cascade gives an element of a draft. -/
lemma Drafted.conforms_properties {w : Drafted} (h : w.placed.element.IsDeclared)
    (sheets : StyleSheets) : ∀ p ∈ w.properties sheets, p.Conforms w.placed.element.kind :=
  sheets.forall_mem_cascade (fun _ _ _ => Catalogue.conforms_of_read) h.conforms _ _

/-- What is said of the rows of a list sets no property. -/
lemma Draft.assign_not_mem_cell {e : Element} {name : Identifier} {rows : List Statement}
    (h : cell e name = .ok rows) (holder : Holder) (p : Property) : .assign holder p ∉ rows := by
  unfold cell at h
  split at h
  · split at h
    · cases h
      simp
    · obtain ⟨type, -, rfl⟩ := Except.map_eq_ok.1 h
      simp
  · cases h
    exact List.not_mem_nil

/-- An element of a draft has the properties set that the cascade gives it, and no others. -/
lemma Drafted.IsOf.mem_properties {at_ : Place} {e : Element} {w : Drafted} (hw : w.IsOf at_ e)
    {sheets : StyleSheets} {holder : Holder} {p : Property}
    (h : .assign holder p ∈ w.statements sheets) : p ∈ w.properties sheets := by
  simp only [Drafted.statements, List.mem_cons, List.mem_append, List.mem_map, reduceCtorEq,
    false_or, List.not_mem_nil, or_false] at h
  rcases h with ⟨q, hq, heq⟩ | h
  · cases heq
    exact hq
  · exact (Draft.assign_not_mem_cell hw.rows_eq holder p h).elim

namespace Routine

variable {sheets : StyleSheets} {d : Definition}

/-- **The methods that a routine calls** to set properties have names that are identifiers. -/
theorem hasSetter_of_ofDefinition (hd : d.IsParsed) {r : Routine} {reports : List BuildReport}
    (h : ofDefinition sheets d = .ok (r, reports)) {holder : Holder} {p : Property}
    (hp : .assign holder p ∈ r.statements) : p.HasSetter := by
  obtain ⟨D, ws, css, hr⟩ := consists_of_ofDefinition h
  obtain ⟨n', hws⟩ := hr.drafts
  simp only [hr.statements_eq, List.mem_append, List.mem_map, reduceCtorEq, and_false,
    exists_false, or_false] at hp
  rcases hp with ⟨q, hq, heq⟩ | hp
  · cases heq
    exact (hd.conforms_resolveRoot sheets p hq).hasSetter
  · obtain ⟨w, hw, hp⟩ := List.mem_flatMap.1 hp
    obtain ⟨at_, e, hof⟩ := hws.exists_isOf w hw
    have declared := hws.isDeclared (.of_isParsed hd) w hw
    exact (w.conforms_properties declared sheets p (hof.mem_properties hp)).hasSetter

/-- The routines of a document are those of the definitions in it. -/
lemma exists_ofDefinition_of_mem {rs : List (Routine × List BuildReport)}
    (h : ofDocument sheets d = .ok rs) :
    ∀ r ∈ rs, ∃ d' ∈ d.definitions, ofDefinition sheets d' = .ok r := by
  intro r hr
  obtain ⟨d', hd', h⟩ := Except.exists_of_forall₂ (Except.mapM_eq_ok.1 h).flip hr
  exact ⟨d', (List.mem_filter.1 hd').1, h⟩

end Routine

/-! ### From a document to what is applied and what is written -/

namespace Definition

/-- **The properties of a document.** Let a text be read as a definition. Whatever shared styles
there are, each property that the cascade gives an element, or the root, of the definition or of one
in place inside it has a name that the catalogue declares for the kind and a value of the declared
type, and the name of the method that sets it is an identifier. If the definition is applied with
what is built in, to a component whose node and whose fields record their properties, no warning is
about a property. In the routines that are written for it, the methods that set properties have
names that are identifiers.

**Proof sketch.** Every element of a document is what the attributes of a tag declare, and neither
the tag nor a style gives an element a property that was not read by the element's kind
(`StyleSheets.forall_mem_cascade`). Applications and drafts go through elements of the document
only (`Applier.Invariant.applyScope`, `Drafts.isDeclared`). -/
theorem conforms_of_ofText {H : Type} [Widget H] {text : String} {root : Definition}
    (h : ofText text = .ok root) (sheets : StyleSheets) :
    (∀ d ∈ root.definitions,
      (∀ e ∈ d.elements, ∀ p ∈ (sheets.resolve d e).properties,
        (p.name, p.value.type) ∈ Catalogue.properties e.kind ∧ p.Conforms e.kind ∧ p.HasSetter) ∧
      ∀ p ∈ (sheets.resolveRoot d).properties,
        (p.name, p.value.type) ∈ Catalogue.properties .container ∧ p.Conforms .container ∧
          p.HasSetter) ∧
    (∀ a : Applier H, a.capabilities = .builtin → a.KnowsParsed →
      ∀ (t : ViewTree H) (b : Binding), t.Records b.node →
        (∀ f id, b.fields.get? f = some id → t.Records id) →
        ∀ report t' b', a.apply t b root = (.ok report, t', b') →
          ∀ w ∈ report.warnings, w.property = none) ∧
    ∀ rs, Routine.ofDocument sheets root = .ok rs → ∀ r ∈ rs, ∀ holder p,
      .assign holder p ∈ r.1.statements → p.HasSetter := by
  have parsed : ∀ d ∈ root.definitions, d.IsParsed := fun d hd => ⟨text, root, h, hd⟩
  refine ⟨fun d hd => ⟨fun e he p hp => ?_, fun p hp => ?_⟩, ?_, ?_⟩
  · have conforms := (parsed d hd).conforms_resolve sheets he p hp
    exact ⟨Catalogue.mem_properties_iff.2 conforms, conforms, conforms.hasSetter⟩
  · have conforms := (parsed d hd).conforms_resolveRoot sheets p hp
    exact ⟨Catalogue.mem_properties_iff.2 conforms, conforms, conforms.hasSetter⟩
  · intro a ha hknown t b hroot hfields report t' b' happly
    exact Applier.property_eq_none_of_apply ha hknown (isParsed_of_ofText h).1 hroot hfields happly
  · intro rs hrs r hr holder p hp
    obtain ⟨d, hd, hone⟩ := Routine.exists_ofDefinition_of_mem hrs r hr
    exact Routine.hasSetter_of_ofDefinition (parsed d hd) hone hp

/-- A widget of a host that has no properties. -/
inductive Badge where
  | badge

instance : Widget Badge := ⟨fun _ => "Badge"⟩

/-- A shared style that is written for a button. -/
def buttonStyle : StyleSheets :=
  ⟨[{ name := "G",
      styles := [{ name := "s", kind := .button, entries := [("text", "Hi"), ("title", "Go")] }] }]⟩

/-- A host with what is built in, and with the shared style. -/
def styledHost : Applier Badge where
  capabilities := .builtin
  sheets := buttonStyle

/-- A hidden label with the style of a button. -/
def caption : Element where
  kind := .label
  field := some "l"
  layout := {}
  properties := [⟨"hidden", .bool true⟩]
  styles := [.shared "G" "s"]
  children := []
  reference := none
  name := "l"

/-- A component with the label. -/
def captioned : Definition where
  typeName := "A"
  isRoot := false
  isAnonymous := false
  styles := []
  properties := []
  children := [caption]

/-- The text of the component. -/
def captionedText : String :=
  "<Component type=\"A\"><Label field=\"l\" style=\"G:s\" hidden=\"yes\"/></Component>"

/-- The document of a captioned button is read. -/
lemma ofText_captionedText : ofText captionedText = .ok captioned := by
  have read : Xml.Node.read captionedText = .ok ⟨"Component", [("type", "A")],
      [⟨"Label", [("field", "l"), ("style", "G:s"), ("hidden", "yes")], []⟩]⟩ := by
    rw [captionedText, Xml.Node.read_ofList]
    cbv
  rw [ofText, read]
  rfl

/-- The definitions that the styled host knows were parsed. -/
lemma knowsParsed_styledHost : styledHost.KnowsParsed := fun _ _ h => nomatch h

/-- The label has the text of the style, but not the title. -/
lemma resolve_caption : (buttonStyle.resolve captioned caption).properties =
    [⟨"text", .string "Hi"⟩, ⟨"hidden", .bool true⟩] := by cbv

/-- The component is applied to a node that records without a warning about a property, and a
routine is written for it. -/
theorem conforms_captioned :
    let t := (({} : ViewTree Badge).insert { element := .generic (.wrapper "A") }).2
    ofText captionedText = .ok captioned ∧
      (∀ p ∈ ([⟨"text", .string "Hi"⟩, ⟨"hidden", .bool true⟩] : List Property),
        (p.name, p.value.type) ∈ Catalogue.properties .label ∧ p.Conforms .label ∧ p.HasSetter) ∧
      ∃ rs, Routine.ofDocument buttonStyle captioned = .ok rs ∧
        (∀ r ∈ rs, ∀ holder p, .assign holder p ∈ r.1.statements → p.HasSetter) ∧
        ∃ report t' b',
          styledHost.apply t (.adopting ⟨0⟩ "A") captioned = (.ok report, t', b') ∧
            ∀ w ∈ report.warnings, w.property = none := by
  intro t
  obtain ⟨conforms, applied, written⟩ :=
    conforms_of_ofText (H := Badge) ofText_captionedText buttonStyle
  refine ⟨ofText_captionedText, ?_, ?_⟩
  · have here := (conforms captioned (mem_definitions_iff.2 (.inl rfl))).1 caption
      (by simp [captioned, elements, walkAll, walk, caption])
    rwa [resolve_caption] at here
  have writes : (Routine.ofDocument buttonStyle captioned).toOption.isSome = true := by cbv
  cases hrs : Routine.ofDocument buttonStyle captioned with
  | error error =>
    rw [hrs] at writes
    cases writes
  | ok rs =>
    refine ⟨rs, rfl, written rs hrs, ?_⟩
    obtain ⟨hparsed, hanonymous⟩ := isParsed_of_ofText ofText_captionedText
    have hp : AreInPlace captioned.typeName captioned.children := hparsed.areInPlace (by decide)
    obtain ⟨r, reports, rfl, hr⟩ := Routine.ofDocument_eq_ok hp hanonymous hrs
    obtain ⟨D, ws, css, hr⟩ := Routine.consists_of_ofDefinition hr
    have F : t.Forest := ViewTree.Forest.empty.insert _
    obtain ⟨report, t', b', happly⟩ := Applier.exists_apply_eq_ok (a := styledHost)
      (b := .adopting ⟨0⟩ "A") rfl knowsParsed_styledHost hparsed hp (.start F rfl) rfl hr
    have records : t.Records ⟨0⟩ := by
      intro n hn
      cases hn
      exact ⟨_, rfl⟩
    have unheld : ∀ f id, (Binding.adopting ⟨0⟩ "A").fields.get? f = some id → t.Records id := by
      intro f id h
      cases h
    exact ⟨report, t', b', happly, applied styledHost rfl knowsParsed_styledHost t _ records unheld
      report t' b' happly⟩

/-- The component, and a widget that it holds as the field of the label. -/
def badgeTree : ViewTree Badge :=
  ((({} : ViewTree Badge).insert { element := .generic (.wrapper "A") }).2.insert
    { element := .host .badge }).2

/-- The component holds the widget. -/
def badgeBinding : Binding := { Binding.strict ⟨0⟩ "A" with fields := ⟨[("l", ⟨1⟩)]⟩ }

/-- **A widget that a component holds** takes no property that is built in, though the component
itself records its own: there are warnings about the properties of the label. -/
theorem warns_badge :
    ofText captionedText = .ok captioned ∧ styledHost.capabilities = .builtin ∧
      styledHost.KnowsParsed ∧ badgeTree.Records badgeBinding.node ∧
      ∃ report t' b', styledHost.apply badgeTree badgeBinding captioned = (.ok report, t', b') ∧
        ⟨"A", "l", some "hidden", "unsupported on Badge"⟩ ∈ report.warnings := by
  have records : badgeTree.Records badgeBinding.node := by
    intro n hn
    cases hn
    exact ⟨_, rfl⟩
  have hidden : ⟨"hidden", .bool true⟩ ∈ (buttonStyle.resolve captioned caption).properties := by
    rw [resolve_caption]
    exact List.mem_cons_of_mem _ List.mem_cons_self
  have placed : Live.Meets { tree := badgeTree, fields := badgeBinding.fields, definitions := ["A"] }
      (styledHost.placeOne ⟨⟨0⟩, "A", false⟩ captioned ⟨0⟩ .container caption)
      (fun _ s => s.placed = [⟨caption, ⟨1⟩, ⟨0⟩⟩] ∧
        ⟨"A", "l", some "hidden", "unsupported on Badge"⟩ ∈ s.warnings)
      fun _ => False := by
    have node : styledHost.nodeFor ⟨⟨0⟩, "A", false⟩ caption
        { tree := badgeTree, fields := badgeBinding.fields, definitions := ["A"] } =
        .ok ⟨1⟩ { tree := badgeTree, fields := badgeBinding.fields, definitions := ["A"] } := rfl
    have held : (badgeTree.modify ⟨1⟩ (prepare caption)).get? ⟨1⟩ =
        some (prepare caption { element := .host .badge }) := rfl
    unfold placeOne
    refine Live.Meets.bind ?_
    rw [Live.Meets, node]
    refine Live.Meets.bind ?_
    rw [Live.meets_modify]
    refine Live.Meets.bind ((assign_meets_host (a := styledHost) rfl held rfl _ _ _).imp ?_
      fun _ h => h)
    rintro _ s ⟨hplaced, hwarned⟩
    refine Live.Meets.bind ?_
    rw [Live.meets_modify]
    refine ⟨?_, hwarned _ hidden⟩
    rw [hplaced]
    rfl
  have run : Live.Meets { tree := badgeTree, fields := badgeBinding.fields }
      (styledHost.applyScope ["A"] ⟨⟨0⟩, "A", false⟩ captioned)
      (fun _ s => ⟨"A", "l", some "hidden", "unsupported on Badge"⟩ ∈ s.warnings)
      fun _ => False := by
    have begun : styledHost.beginScope ⟨⟨0⟩, "A", false⟩ captioned
        { tree := badgeTree, fields := badgeBinding.fields } =
        .ok () { tree := badgeTree, fields := badgeBinding.fields, definitions := ["A"] } := rfl
    have children : captioned.children = [caption] := rfl
    rw [applyScope]
    refine Live.Meets.bind ?_
    rw [Live.Meets, begun]
    simp only
    rw [children, placeAll, place, placeAll]
    refine Live.Meets.bind (Live.Meets.bind (Live.Meets.bind (placed.imp ?_ fun _ h => h)))
    rintro id s ⟨hplaced, hwarned⟩
    change Live.Meets s (constrain "A") _ _
    have tied : allConstraints "A" s.placed = .ok [(⟨1⟩, [])] := by
      rw [hplaced]
      rfl
    unfold Live.Meets constrain
    simp only [tied]
    exact hwarned
  refine ⟨ofText_captionedText, rfl, knowsParsed_styledHost, records, ?_⟩
  rcases apply_of_meets (b := badgeBinding) (d := captioned) run with
    ⟨report, b', s, hok, hwarnings, hwarned⟩ | ⟨_, _, _, -, hfalse⟩
  · exact ⟨report, s.tree, b', hok, hwarnings ▸ hwarned⟩
  · exact hfalse.elim

end Definition

end ViewMarkup
