import ViewMarkup.Proofs.Source.Agreement

/-!
# Routines are faithful to applications

A definition with all components in place can be turned into a routine, and it can be applied to a
fresh component on a host that knows nothing but the elements that are built in. If the routine can
be written, the application succeeds; and then what the routine builds agrees with what the
application shows, provided that the local names of the routine are different names. If the
application succeeds, nothing is in the way of the routine but a name that is no identifier or a
number that has no literal.

Local names are given out as texts that differ, and texts that differ may be the same name: with a
comment behind it or with the mark that admits keywords, a name is still the same.

## Main definitions

* `Routine.localNames` — the names that the statements of a routine give out.
* `Routine.Consists` — what a routine consists of.

## Main statements

* `Routine.faithful` — a routine and an application.
-/

namespace ViewMarkup

open Element

variable {H : Type}

/-- The name that a statement gives out. -/
def Statement.created? : Statement → Option String
  | .create name _ => some name.name
  | _ => none

namespace Routine

/-- The names that the statements of a routine give out. -/
def localNames (r : Routine) : List String := r.statements.filterMap Statement.created?

/-- **What a routine consists of**: the properties of the component's root, the statements of the
drafted elements, and those of their constraints. -/
structure Consists (sheets : StyleSheets) (d : Definition) (r : Routine) (D : Draft)
    (ws : List Drafted) (css : List (List BuiltConstraint)) : Prop where
  /-- The elements are drafted. -/
  drafts : ∃ n', Drafts ⟨.component, false, 0, none, d.styles⟩ d.children 1 n' ws
  /-- They are placed. -/
  placed_eq : D.placed = ws.map (·.placed)
  /-- Their constraints can be written. -/
  constraints_eq : D.constraints d.typeName = .ok (css.flatten.map .constrain)
  /-- They are written element by element. -/
  built : List.Forall₂ (fun cs p =>
    List.Forall₂ (BuiltConstraint.IsOf D d.typeName p) cs p.element.layout.constraints) css D.placed
  /-- There are no other statements. -/
  statements_eq : r.statements = (sheets.resolveRoot d).properties.map (.assign .component) ++
    (ws.flatMap (·.statements sheets) ++ css.flatten.map .constrain)

variable {sheets : StyleSheets} {d : Definition}

/-- The elements of a draft. -/
lemma draft_spec {D : Draft} (h : draft sheets d = .ok D) : ∃ ws,
    (∃ n', Drafts ⟨.component, false, 0, none, d.styles⟩ d.children 1 n' ws) ∧
      D.placed = ws.map (·.placed) ∧
      D.statements = (sheets.resolveRoot d).properties.map (.assign .component) ++
        ws.flatMap (·.statements sheets) := by
  obtain ⟨root, hroot, h⟩ := Except.bind_eq_ok.1 h
  obtain ⟨ws, hws, hext⟩ := Drafts.of_placeAll _ _ _ D h
  refine ⟨ws, ⟨_, hws⟩, hext.placed_eq, ?_⟩
  rw [hext.statements_eq, Draft.assignments_eq hroot]

/-- What a routine is drafted as, and what it consists of. -/
lemma exists_draft_of_ofDefinition {r : Routine} {reports : List BuildReport}
    (h : ofDefinition sheets d = .ok (r, reports)) :
    ∃ D ws css, draft sheets d = .ok D ∧ r.Consists sheets d D ws css := by
  obtain ⟨type, -, h⟩ := Except.bind_eq_ok.1 h
  obtain ⟨D, hD, h⟩ := Except.bind_eq_ok.1 h
  obtain ⟨constraints, hc, h⟩ := Except.bind_eq_ok.1 h
  obtain ⟨ws, hws, hplaced, hstatements⟩ := draft_spec hD
  obtain ⟨css, rfl, hcss⟩ := Draft.constraints_spec hc
  cases h
  refine ⟨D, ws, css, hD, hws, hplaced, hc, hcss, ?_⟩
  rw [hstatements, List.append_assoc]

/-- A routine that was made consists of its parts. -/
lemma consists_of_ofDefinition {r : Routine} {reports : List BuildReport}
    (h : ofDefinition sheets d = .ok (r, reports)) : ∃ D ws css, r.Consists sheets d D ws css := by
  obtain ⟨D, ws, css, -, hr⟩ := exists_draft_of_ofDefinition h
  exact ⟨D, ws, css, hr⟩

/-- With all components in place, a document has the routine of its definition and no others. -/
lemma ofDocument_eq_ok {rs : List (Routine × List BuildReport)}
    (hp : AreInPlace d.typeName d.children) (hd : d.isAnonymous = false)
    (h : ofDocument sheets d = .ok rs) :
    ∃ r reports, rs = [(r, reports)] ∧ ofDefinition sheets d = .ok (r, reports) := by
  rw [ofDocument, Definition.filter_isAnonymous hp hd, Except.mapM_eq_ok,
    List.forall₂_cons_left_iff] at h
  obtain ⟨⟨r, reports⟩, rest, hone, hrest, rfl⟩ := h
  cases hrest
  exact ⟨r, reports, rfl, hone⟩

/-- Assigning properties creates nothing. -/
lemma filterMap_created?_assign (holder : Holder) (ps : List Property) :
    (ps.map (Statement.assign holder)).filterMap Statement.created? = [] :=
  List.filterMap_eq_nil_iff.2 fun s hs => by
    obtain ⟨p, -, rfl⟩ := List.mem_map.1 hs
    rfl

/-- Nor do the rows of a list. -/
lemma filterMap_created?_rows {e : Element} {name : Identifier} {rows : List Statement}
    (h : Draft.cell e name = .ok rows) : rows.filterMap Statement.created? = [] := by
  unfold Draft.cell at h
  split at h
  · split at h
    · cases h
      rfl
    · obtain ⟨type, -, hs⟩ := Except.map_eq_ok.1 h
      rw [← hs]
      rfl
  · cases h
    rfl

/-- An element gives out its own name. -/
lemma filterMap_created?_statements {at_ : Place} {e : Element} {w : Drafted} (hw : w.IsOf at_ e) :
    (w.statements sheets).filterMap Statement.created? = [w.name] := by
  rw [Drafted.statements, List.filterMap_cons_some (f := Statement.created?) (b := w.name) rfl,
    List.filterMap_append, filterMap_created?_assign, List.filterMap_append,
    filterMap_created?_rows hw.rows_eq]
  rfl

/-- The local names are those of the drafted elements. -/
lemma Consists.localNames_eq {r : Routine} {D : Draft} {ws : List Drafted}
    {css : List (List BuiltConstraint)} (h : r.Consists sheets d D ws css) :
    r.localNames = ws.map (·.name) := by
  have hconstraints : (css.flatten.map Statement.constrain).filterMap Statement.created? = [] :=
    List.filterMap_eq_nil_iff.2 fun s hs => by
      obtain ⟨c, -, rfl⟩ := List.mem_map.1 hs
      rfl
  have helements : ∀ ws : List Drafted, (∀ w ∈ ws, ∃ at_ e, Drafted.IsOf at_ e w) →
      (ws.flatMap (·.statements sheets)).filterMap Statement.created? = ws.map (·.name) := by
    intro ws hws
    induction ws with
    | nil => rfl
    | cons w ws ih =>
      rw [List.forall_mem_cons] at hws
      obtain ⟨⟨at_, e, hw⟩, hws⟩ := hws
      rw [List.flatMap_cons, List.filterMap_append, ih hws, List.map_cons,
        filterMap_created?_statements hw, List.singleton_append]
  obtain ⟨n', hdrafts⟩ := h.drafts
  rw [localNames, h.statements_eq, List.filterMap_append, List.filterMap_append,
    filterMap_created?_assign, hconstraints, helements ws hdrafts.exists_isOf, List.nil_append,
    List.append_nil]

end Routine

/-! ### An application to a fresh component -/

namespace Applier

variable [Widget H] {a : Applier H} {t t' : ViewTree H} {b : Binding} {d : Definition}

/-- The drafted elements have twins in what an application shows. -/
lemma Reflects.exists_twins {report : ApplyReport} {views : List PlacedView} {deep : List NodeId}
    (R : a.Reflects d b t t' report views deep) (ha : a.capabilities = .builtin)
    (hb : b.fields = {}) (hp : AreInPlace d.typeName d.children) {n' : Nat} {ws : List Drafted}
    (hws : Drafts ⟨.component, false, 0, none, d.styles⟩ d.children 1 n' ws) :
    ∃ ts : List Twin, ts.map (·.toDrafted) = ws ∧
      (ts.map (·.node)).Perm (views.map (·.node) ++ deep) ∧
      Twins a.sheets t' (Tied d.typeName views) ⟨.component, false, 0, none, d.styles⟩ b.node
        (t'.children b.node) views ts :=
  hws.exists_twins ha R.shows (fun f => by rw [hb]; rfl) rfl hp
    (List.forall_mem_singleton.2 (Nat.le_refl _)) Nat.zero_lt_one

/-- If a draft can be written with its constraints, the definition can be applied. -/
lemma exists_apply_eq_ok (ha : a.capabilities = .builtin) (hknown : a.KnowsParsed)
    (hd : d.IsParsed) (hp : AreInPlace d.typeName d.children) (h : Holds b.node t b.fields)
    (hadopts : b.adopts = true) {r : Routine} {D : Draft} {ws : List Drafted}
    {css : List (List BuiltConstraint)} (hr : r.Consists a.sheets d D ws css) :
    ∃ report t' b', a.apply t b d = (.ok report, t', b') := by
  obtain ⟨n', hws⟩ := hr.drafts
  rcases hs : a.apply t b d with ⟨error | report, t', b'⟩
  · have hobstructed := obstructed_of_apply hknown hd h hs
    rw [hadopts] at hobstructed
    exact (Draft.not_obstructed ha hp hws hr.placed_eq hr.constraints_eq
      (Definition.mem_definitions_iff.2 (.inl rfl)) hobstructed).elim
  · exact ⟨report, t', b', rfl⟩

/-- If the definition is applied, its constraints can be written but for names and numbers. -/
lemma Reflects.failsUnwritten_constraints {report : ApplyReport} {views : List PlacedView}
    {deep : List NodeId} (R : a.Reflects d b t t' report views deep) (ha : a.capabilities = .builtin)
    (hb : b.fields = {}) (hp : AreInPlace d.typeName d.children) {D : Draft}
    (hD : Routine.draft a.sheets d = .ok D) : FailsUnwritten (D.constraints d.typeName) := by
  obtain ⟨ws, ⟨n', hws⟩, hplaced, -⟩ := Routine.draft_spec hD
  obtain ⟨ts, rfl, -, T⟩ := R.exists_twins ha hb hp hws
  intro error herror
  obtain ⟨⟨p, c⟩, hm, hc⟩ := Except.mapM_eq_error herror
  obtain ⟨p, hm, hpc⟩ := List.mem_flatMap.1 hm
  obtain ⟨c, hc', heq⟩ := List.mem_map.1 hpc
  cases heq
  refine Draft.failsUnwritten_constrain d.typeName ?_ error hc
  rw [Draft.targets_iff hplaced]
  rw [hplaced, List.map_map] at hm
  obtain ⟨w, hw, rfl⟩ := List.mem_map.1 hm
  obtain ⟨cs, typeName, -, hcs⟩ := T.exists_liveConstraints hw
  have := isFound_of_liveConstraints hcs c hc'
  rw [Twin.inScope_toDrafted, List.map_map]
  rwa [List.map_map] at this

/-- What a routine builds agrees with what an application shows, if its local names are different. -/
lemma Reflects.exists_agrees {report : ApplyReport} {views : List PlacedView} {deep : List NodeId}
    (R : a.Reflects d b t t' report views deep) (ha : a.capabilities = .builtin)
    (hb : b.fields = {}) (hd : d.IsParsed) (hp : AreInPlace d.typeName d.children)
    (F : t'.Forest) {slot : Slot H} {g : GenericElement} (hslot : t.slot? b.node = some slot)
    (hg : slot.node.element = .generic g) (hproperties : g.properties = [])
    (hc : slot.node.constraints = []) {r : Routine} {D : Draft} {ws : List Drafted}
    {css : List (List BuiltConstraint)} (hr : r.Consists a.sheets d D ws css)
    (hnames : r.localNames.Nodup) :
    ∃ m nodes, Assembly.start.run r.statements = some m ∧ m.Agrees t' b.node nodes := by
  obtain ⟨n', hws⟩ := hr.drafts
  obtain ⟨ts, rfl, perm, T⟩ := R.exists_twins ha hb hp hws
  have hn : (b.node :: ts.map (·.node)).Nodup := by
    refine List.nodup_cons.2 ⟨fun hm => ?_, perm.nodup_iff.2 R.nodup⟩
    exact F.acyclic _ ((R.isBelow_iff _).2 (perm.mem_iff.1 hm))
  rw [hr.localNames_eq, List.map_map] at hnames
  have hroot := R.slot?_node
  rw [hslot, Option.map_some] at hroot
  have helement : (a.capabilities.setOn .container (a.sheets.resolveRoot d).properties
      slot.node).element = .generic { g with
        properties := Property.assignAll (a.sheets.resolveRoot d).properties [] } := by
    rw [Capabilities.setOn, hg, ha, StyleSheets.resolveRoot,
      Capabilities.setAll_builtin (Catalogue.known_cascade _ _ _ hd.isScope.known), hproperties]
    rfl
  obtain ⟨m, hrun, hagrees⟩ := T.exists_agrees rfl hn hnames
    (fun w hw => hws.exists_isOf w.toDrafted (List.mem_map_of_mem hw))
    (fun x => perm.mem_iff.trans (R.isBelow_iff x).symm)
    (by rw [hr.placed_eq, List.map_map]; rfl) hr.built hroot helement hc rfl
  exact ⟨m, _, by rw [hr.statements_eq, hrun], hagrees⟩

end Applier

namespace Routine

/-- **A routine is faithful to an application.** Let a document declare a definition with all
components in place. If its routine can be written, the definition can be applied to a fresh node of
any tree, on a host that has what is built in; and if the local names of the routine are different,
what it builds agrees with what is below the node then. If the definition can be applied, the routine
can be written but for names that are no identifiers and numbers that have no literals.

**Proof sketch.** A draft and an application go through the same elements, and constraints are the
only other obstacle; these can be written just when they can be tied (`Draft.targets_iff`). So every
drafted element has a twin among the nodes (`Drafts.exists_twins`), and the statements act on the
views as the application does on the twins (`Twins.exists_agrees`). -/
theorem faithful [Widget H] {a : Applier H} (ha : a.capabilities = .builtin)
    (hknown : a.KnowsParsed) {text : String} {d : Definition} (hd : Definition.ofText text = .ok d)
    (hplace : d.IsInPlace) {t : ViewTree H} (F : t.Forest) {g : GenericElement}
    (hg : g.properties = []) {root : NodeId} {tree : ViewTree H}
    (hs : t.insert { element := .generic g } = (root, tree)) (typeName : String) :
    (∀ rs, ofDocument a.sheets d = .ok rs → ∃ r reports report t' b',
      rs = [(r, reports)] ∧ a.apply tree (.adopting root typeName) d = (.ok report, t', b') ∧
        (r.localNames.Nodup → ∃ m nodes,
          Assembly.start.run r.statements = some m ∧ m.Agrees t' root nodes)) ∧
      ∀ report t' b', a.apply tree (.adopting root typeName) d = (.ok report, t', b') →
        FailsUnwritten (ofDocument a.sheets d) := by
  obtain ⟨hparsed, hanonymous⟩ := Definition.isParsed_of_ofText hd
  have hp := hparsed.areInPlace hplace
  have hslot : tree.slot? root = some { node := { element := .generic g } } := by
    have := ViewTree.slot?_insert t { element := .generic g } root
    rwa [hs, if_pos rfl] at this
  have F' : tree.Forest := by
    have := F.insert { element := .generic g }
    rwa [hs] at this
  let b : Binding := .adopting root typeName
  have hholds : Holds b.node tree b.fields := .start F' (ViewTree.contains_iff.2 ⟨_, hslot⟩)
  refine ⟨fun rs hrs => ?_, fun report t' b' happly error herror => ?_⟩
  · obtain ⟨r, reports, rfl, hr⟩ := ofDocument_eq_ok hp hanonymous hrs
    obtain ⟨D, ws, css, hr⟩ := consists_of_ofDefinition hr
    obtain ⟨report, t', b', happly⟩ :=
      Applier.exists_apply_eq_ok (b := b) ha hknown hparsed hp hholds rfl hr
    refine ⟨r, reports, report, t', b', rfl, happly, fun hnames => ?_⟩
    obtain ⟨views, deep, R⟩ := Applier.reflects_apply hknown hparsed hholds happly
    have F'' := (Applier.holds_apply hknown hparsed hholds).2.forest
    rw [happly] at F''
    exact R.exists_agrees ha rfl hparsed hp F'' hslot rfl hg rfl hr hnames
  · obtain ⟨views, deep, R⟩ := Applier.reflects_apply (b := b) hknown hparsed hholds happly
    rw [ofDocument, Definition.filter_isAnonymous hp hanonymous] at herror
    obtain ⟨d', hd', hone⟩ := Except.mapM_eq_error herror
    obtain rfl := List.mem_singleton.1 hd'
    refine FailsUnwritten.bind (failsUnwritten_ofText _) (fun _ _ => ?_) error hone
    refine FailsUnwritten.bind ?_ fun D hD => ?_
    · exact (Draft.failsUnwritten_assignments _ _).bind fun _ _ => Draft.failsUnwritten_placeAll _ _ _
    · exact (R.failsUnwritten_constraints ha rfl hp hD).bind fun _ _ => .ok _

/-- A host that has what is built in and no widgets. -/
def plainHost : Applier Empty where
  capabilities := .builtin
  sheets := {}

/-- The host without definitions knows only parsed ones. -/
lemma knowsParsed_plainHost : plainHost.KnowsParsed := fun _ _ hn => by cases hn

/-- A component with a label lined up in a stack, and with an anonymous component. Inside that one is a
label with a constraint that moves it away from the top. -/
def furnished : String :=
  "<Component type=\"A\" hidden=\"yes\"><StackView layout:id=\"row\" axis=\"vertical\"><Label layout:id=\"k\" text=\"Hi\"/></StackView><Component layout:id=\"b\"><Label layout:id=\"l\" layout:top=\"== super offset(8) @low\"/></Component></Component>"

/-- The routine of the component and what is shown of it agree: the component has its property, and
below it are the stack with the label that it lines up, and the anonymous component with the other label
and its constraint. -/
theorem faithful_furnished : ∃ d r reports report t' b' m nodes,
    Definition.ofText furnished = .ok d ∧ ofDocument {} d = .ok [(r, reports)] ∧
      plainHost.apply (({} : ViewTree Empty).insert { element := .generic (.wrapper "A") }).2
        (.adopting ⟨0⟩ "A") d = (.ok report, t', b') ∧
      Assembly.start.run r.statements = some m ∧ m.Agrees t' ⟨0⟩ nodes ∧
      m.views.map (·.children) = [[(1, false), (3, false)], [(2, true)], [], [(4, false)], []] ∧
      m.views.map (·.properties.map (·.name)) = [["hidden"], ["axis"], ["text"], [], []] ∧
      m.views.map (·.constraints.map fun c => (c.anchor, c.constant == 8.0)) =
        [[], [], [], [], [(.top, true)]] := by
  have written : (Definition.ofText furnished).toOption.bind (fun d => (ofDocument {} d).toOption.map
      fun rs => (decide d.IsInPlace, rs.map (·.1.localNames))) =
      some (true, [["row", "k", "b", "b_l"]]) := by
    unfold furnished
    rw [Definition.ofText_ofList]
    decide +kernel
  obtain ⟨d, hd, written⟩ := Option.bind_eq_some_iff.1 written
  obtain ⟨rs, hrs, written⟩ := Option.map_eq_some_iff.1 written
  obtain ⟨hplace, hlocals⟩ := Prod.mk.inj written
  obtain ⟨ok, -⟩ := faithful (a := plainHost) (g := .wrapper "A") rfl knowsParsed_plainHost
    (Except.toOption_eq_some.1 hd) (of_decide_eq_true hplace) ViewTree.Forest.empty rfl rfl "A"
  obtain ⟨r, reports, report, t', b', rfl, happly, hagrees⟩ := ok rs (Except.toOption_eq_some.1 hrs)
  have names : r.localNames = ["row", "k", "b", "b_l"] := List.singleton_inj.1 hlocals
  obtain ⟨m, nodes, hrun, h⟩ := hagrees (by rw [names]; decide)
  -- what a run makes of the text is what it makes of this routine
  have builds : ∀ {α : Type} (f : Assembly → α) {x : α},
      ((Definition.ofText furnished).toOption.bind fun d => (ofDocument {} d).toOption.map
        (·.map fun q => (Assembly.start.run q.1.statements).map f)) = some [some x] → f m = x := by
    intro α f x hx
    rw [hd, Option.bind_some, hrs, Option.map_some, List.map_singleton, hrun] at hx
    simpa using hx
  refine ⟨d, r, reports, report, t', b', m, nodes, Except.toOption_eq_some.1 hd,
    Except.toOption_eq_some.1 hrs, happly, hrun, h, builds (fun m => m.views.map (·.children)) ?_,
    builds (fun m => m.views.map (·.properties.map (·.name))) ?_,
    builds (fun m => m.views.map (·.constraints.map fun c => (c.anchor, c.constant == 8.0))) ?_⟩
  all_goals
    unfold furnished
    rw [Definition.ofText_ofList]
    decide +kernel

end Routine

end ViewMarkup
