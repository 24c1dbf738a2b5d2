import Mathlib.Data.List.Induction
import Mathlib.Data.List.Nodup
import ViewMarkup.Style.Cascade

/-!
# What the cascade comes to

The cascade meets the entries of styles one after the other: for each reference, the shared ones first,
those of all styles behind it, and at the end the element's own properties. An entry that the kind can
read becomes a property, and every other one is skipped; a reference that cannot be followed to the
end is skipped as a whole, and nothing behind it is met. What results are the names in the order in
which they were first accepted, each with what was accepted last.

## Main definitions

* `StyleSheets.Lists` — the styles behind references, each after those that it extends.
* `Met`, `StyleSheets.met` — what the cascade meets, in order.
* `Met.outcome` — the property that something met becomes, or why it is skipped.

## Main statements

* `StyleSheets.expand_eq_ok_iff` — following a reference lists the styles behind it.
* `StyleSheets.cascade_eq` — the cascade takes what it meets one by one.
* `StyleSheets.cascade_spec` — what the cascade comes to.
-/

namespace ViewMarkup

/-! ### The styles behind references -/

namespace StyleSheets

/-- **The styles behind references**, from a style in a scope to which a way of keys has led: behind each
reference are the styles behind the parents of the one that it means, in the order written, and then
that style, whose key is not on the way. -/
inductive Lists (s : StyleSheets) (declared : List Style) :
    List String → Option String → List StyleReference → List Style → Prop where
  /-- No references. -/
  | nil {way : List String} {scope : Option String} : Lists s declared way scope [] []
  /-- A reference and those after it. -/
  | cons {way : List String} {scope : Option String} {r : StyleReference} {rs : List StyleReference}
      {f : FoundStyle} {parents others : List Style} :
      s.find? declared scope r = some f → f.key ∉ way →
      Lists s declared (f.key :: way) f.group (f.style.parents.map .ofText) parents →
      Lists s declared way scope rs others →
      Lists s declared way scope (r :: rs) (parents ++ f.style :: others)

variable {s : StyleSheets} {declared : List Style}

/-- What a single reference lists: the parents of its style, and the style. -/
lemma lists_singleton_iff {way : List String} {scope : Option String} {r : StyleReference}
    {styles : List Style} : s.Lists declared way scope [r] styles ↔
      ∃ f parents, s.find? declared scope r = some f ∧ f.key ∉ way ∧
        s.Lists declared (f.key :: way) f.group (f.style.parents.map .ofText) parents ∧
        styles = parents ++ [f.style] := by
  constructor
  · intro h
    cases h with
    | cons hf hw hp ho =>
      cases ho
      exact ⟨_, _, hf, hw, hp, rfl⟩
  · rintro ⟨f, parents, hf, hw, hp, rfl⟩
    exact .cons hf hw hp .nil

/-- What several references list: what the first one lists, and what the others do. -/
lemma lists_cons_iff {way : List String} {scope : Option String} {r : StyleReference}
    {rs : List StyleReference} {styles : List Style} : s.Lists declared way scope (r :: rs) styles ↔
      ∃ first others, s.Lists declared way scope [r] first ∧ s.Lists declared way scope rs others ∧
        styles = first ++ others := by
  constructor
  · intro h
    cases h with
    | cons hf hw hp ho => exact ⟨_, _, .cons hf hw hp .nil, ho, by rw [List.append_assoc]; rfl⟩
  · rintro ⟨first, others, h, ho, rfl⟩
    obtain ⟨f, parents, hf, hw, hp, rfl⟩ := lists_singleton_iff.1 h
    rw [List.append_assoc, List.singleton_append]
    exact .cons hf hw hp ho

/-- A reference expands to the parents of its style, and the style. -/
lemma expandFrom_eq_ok_iff {way : List String} {scope : Option String} {r : StyleReference}
    {styles : List Style} : s.expandFrom declared way scope r = .ok styles ↔
      ∃ f parents, s.find? declared scope r = some f ∧ f.key ∉ way ∧
        s.expandAll declared (f.key :: way) f.group (f.style.parents.map .ofText) = .ok parents ∧
        styles = parents ++ [f.style] := by
  rw [expandFrom]
  split
  · next hf => simp [hf]
  · next f hf =>
    have found : ∀ g, s.find? declared scope r = some g ↔ f = g := fun g => by
      rw [hf, Option.some.injEq]
    simp only [found, exists_and_left, exists_eq_left']
    split
    · next hw => simp [hw]
    · next hw =>
      cases s.expandAll declared (f.key :: way) f.group (f.style.parents.map .ofText) with
      | error e => simp
      | ok parents => simp [hw, eq_comm]

/-- Several references expand to what the first one does, and what the others do. -/
lemma expandAll_cons_eq_ok_iff {way : List String} {scope : Option String} {r : StyleReference}
    {rs : List StyleReference} {styles : List Style} :
    s.expandAll declared way scope (r :: rs) = .ok styles ↔
      ∃ first others, s.expandFrom declared way scope r = .ok first ∧
        s.expandAll declared way scope rs = .ok others ∧ styles = first ++ others := by
  rw [expandAll]
  split
  · next he => simp [he]
  · next first he =>
    split
    · next he' => simp [he']
    · next others he' => simp [he, he', eq_comm]

/-- Following references lists the styles behind them.

**Proof sketch.** Induction on the number of styles that are not on the way, which gets less with every
step to the parents of a style, and then on the references. -/
lemma expandAll_eq_ok_iff (way : List String) (scope : Option String) (rs : List StyleReference)
    (styles : List Style) :
    s.expandAll declared way scope rs = .ok styles ↔ s.Lists declared way scope rs styles := by
  induction hn : s.unvisited declared way using Nat.strongRecOn
    generalizing way scope rs styles with
  | ind n ih =>
    induction rs generalizing styles with
    | nil =>
      rw [expandAll]
      constructor
      · rintro ⟨⟩
        exact .nil
      · rintro ⟨⟩
        rfl
    | cons r rs ih' =>
      rw [expandAll_cons_eq_ok_iff, lists_cons_iff]
      refine exists_congr fun first => exists_congr fun others => and_congr ?_ (and_congr_left' (ih' _))
      rw [expandFrom_eq_ok_iff, lists_singleton_iff]
      refine exists_congr fun f => exists_congr fun parents => and_congr_right fun hf =>
        and_congr_right fun hw => and_congr_left' ?_
      exact ih _ (hn ▸ unvisited_cons_lt (mem_all_of_find? hf) hw) _ _ _ _ rfl

/-- **Following a reference lists the styles behind it**, and it fails if they cannot be listed. -/
theorem expand_eq_ok_iff (r : StyleReference) (styles : List Style) :
    s.expand declared r = .ok styles ↔ s.Lists declared [] none [r] styles := by
  rw [expand, expandFrom_eq_ok_iff, lists_singleton_iff]
  simp only [expandAll_eq_ok_iff]

end StyleSheets

/-! ### What the cascade meets -/

/-- Something that the cascade meets. -/
inductive Met where
  /-- An entry of a style behind a reference. -/
  | entry (reference : StyleReference) (style name text : String)
  /-- A reference that cannot be followed to the end. -/
  | failed (reference : StyleReference) (error : PropertyError)
  /-- A property of the element's own. -/
  | own (property : Property)

/-- **What becomes of something that is met** by an element of the given kind: a property, or an entry
among what is skipped. An entry of a style has to be in the catalogue of the kind, with a text that is
a value of its type. -/
def Met.outcome (kind : Kind) : Met → Except Skipped Property
  | entry reference style name text =>
      match Catalogue.lookup? kind name with
      | none => .error ⟨reference, some style, .unknownProperty name kind⟩
      | some type =>
          match type.read text with
          | .ok value => .ok ⟨name, value⟩
          | .error fault => .error ⟨reference, some style, .invalidValue name fault⟩
  | failed reference error => .error ⟨reference, none, error⟩
  | own property => .ok property

/-- The properties among outcomes, in order. -/
def Met.accepted (kind : Kind) (met : List Met) : List Property :=
  met.filterMap fun m => (m.outcome kind).toOption

/-- What is skipped among outcomes, in order. -/
def Met.refused (kind : Kind) (met : List Met) : List Skipped :=
  met.filterMap fun m =>
    match m.outcome kind with
    | .ok _ => none
    | .error skipped => some skipped

namespace StyleSheets

/-- What the cascade meets behind a reference: the entries of all styles behind it, or none of them if
it cannot be followed to the end. -/
def behind (s : StyleSheets) (declared : List Style) (r : StyleReference) : List Met :=
  match s.expand declared r with
  | .ok styles => styles.flatMap fun style => style.entries.map fun e => .entry r style.name e.1 e.2
  | .error e => [.failed r e]

/-- **What the cascade meets**, in order: what is behind the references to shared groups, what is
behind those by name alone, and the element's own properties. -/
def met (s : StyleSheets) (declared : List Style) (references : List StyleReference)
    (own : List Property) : List Met :=
  (references.filter (·.isShared)).flatMap (s.behind declared) ++
    (references.filter (!·.isShared)).flatMap (s.behind declared) ++ own.map .own

end StyleSheets

/-! ### The cascade step by step -/

namespace Resolved

/-- The outcome of the cascade after something more is met. -/
def meet (kind : Kind) (r : Resolved) (m : Met) : Resolved :=
  match m.outcome kind with
  | .ok p => r.assign p
  | .error s => r.skip s

/-- An entry of a style is met like a property that is declared. -/
lemma applyEntry_eq (kind : Kind) (reference : StyleReference) (style : String) (r : Resolved)
    (entry : String × String) :
    applyEntry kind reference style r entry = r.meet kind (.entry reference style entry.1 entry.2) := by
  unfold applyEntry meet Met.outcome Catalogue.read
  cases ht : Catalogue.lookup? kind entry.1 with
  | none => simp only [ht]
  | some type =>
    simp only [ht, ValueType.readProperty]
    cases type.read entry.2 <;> rfl

/-- The outcome after all that is met: what is accepted is assigned, and all else is skipped. -/
lemma foldl_meet (kind : Kind) (met : List Met) (r : Resolved) :
    met.foldl (meet kind) r =
      ⟨(Met.accepted kind met).foldl (fun ps p => p.assign ps) r.properties,
        r.skipped ++ Met.refused kind met⟩ := by
  induction met generalizing r with
  | nil => simp [Met.accepted, Met.refused]
  | cons m met ih =>
    rw [List.foldl_cons, ih]
    unfold meet Met.accepted Met.refused
    cases h : m.outcome kind with
    | ok p => simp [h, assign, Except.toOption]
    | error s => simp [h, skip, Except.toOption]

end Resolved

namespace StyleSheets

variable (s : StyleSheets) (kind : Kind) (declared : List Style)

/-- A reference is met as what stands behind it. -/
lemma applyReference_eq (r : Resolved) (reference : StyleReference) :
    s.applyReference kind declared r reference =
      (s.behind declared reference).foldl (Resolved.meet kind) r := by
  unfold applyReference behind
  cases s.expand declared reference with
  | error e => rfl
  | ok styles =>
    have step : Resolved.applyStyle kind reference = fun r style =>
        (style.entries.map fun e => Met.entry reference style.name e.1 e.2).foldl
          (Resolved.meet kind) r := by
      funext r style
      rw [List.foldl_map, Resolved.applyStyle]
      congr 1
      funext r entry
      exact Resolved.applyEntry_eq kind reference style.name r entry
    rw [List.foldl_flatMap, ← step]

/-- **The cascade takes what it meets one by one.** -/
theorem cascade_eq (references : List StyleReference) (own : List Property) :
    s.cascade kind references own declared =
      (s.met declared references own).foldl (Resolved.meet kind) {} := by
  have step : s.applyReference kind declared =
      fun r reference => (s.behind declared reference).foldl (Resolved.meet kind) r := by
    funext r reference
    exact s.applyReference_eq kind declared r reference
  rw [met, List.foldl_append, List.foldl_map, ← List.flatMap_append, List.foldl_flatMap, ← step]
  rfl

end StyleSheets

/-! ### Assignments in order -/

namespace Property

/-- A property that is assigned keeps its place, or comes last. -/
lemma names_assign (p : Property) (ps : List Property) :
    (p.assign ps).map (·.name) =
      if p.name ∈ ps.map (·.name) then ps.map (·.name) else ps.map (·.name) ++ [p.name] := by
  induction ps with
  | nil => rfl
  | cons q qs ih =>
    rw [assign]
    by_cases h : q.name = p.name
    · simp [h]
    · rw [if_neg h, List.map_cons, ih]
      split <;> simp_all [Ne.symm h]

/-- Names stay distinct when a property is assigned. -/
lemma nodup_names_assign {ps : List Property} (h : (ps.map (·.name)).Nodup) (p : Property) :
    ((p.assign ps).map (·.name)).Nodup := by
  rw [names_assign]
  split
  · exact h
  · next hp => exact h.append (List.nodup_singleton _) (List.disjoint_singleton.2 hp)

/-- Among properties with different names, one is replaced by another of its name. -/
lemma mem_assign {p q : Property} {ps : List Property} (h : (ps.map (·.name)).Nodup)
    (hq : q ∈ p.assign ps) : q = p ∨ q ∈ ps ∧ p.name ≠ q.name := by
  induction ps with
  | nil => exact .inl (List.mem_singleton.1 hq)
  | cons r rs ih =>
    rw [List.map_cons, List.nodup_cons] at h
    rw [assign] at hq
    split at hq
    · next hr =>
      refine (List.mem_cons.1 hq).imp_right fun hm => ⟨List.mem_cons_of_mem _ hm, fun he => h.1 ?_⟩
      exact hr.trans he ▸ List.mem_map_of_mem hm
    · next hr =>
      rcases List.mem_cons.1 hq with rfl | hm
      · exact .inr ⟨List.mem_cons_self, Ne.symm hr⟩
      · exact (ih h.2 hm).imp_right fun hm => ⟨List.mem_cons_of_mem _ hm.1, hm.2⟩

/-- The property that is assigned last. -/
lemma foldl_assign_concat (ps qs : List Property) (p : Property) :
    (ps ++ [p]).foldl (fun qs p => p.assign qs) qs =
      p.assign (ps.foldl (fun qs p => p.assign qs) qs) := by
  rw [List.foldl_append]
  rfl

/-- After assignments no name is there twice. -/
lemma nodup_names_foldl_assign (ps : List Property) :
    ((ps.foldl (fun qs p => p.assign qs) []).map (·.name)).Nodup := by
  induction ps using List.reverseRecOn with
  | nil => exact .nil
  | append_singleton ps p ih =>
    rw [foldl_assign_concat]
    exact nodup_names_assign ih p

/-- The names are in the order in which they were assigned first. -/
lemma names_foldl_assign (ps : List Property) :
    (ps.foldl (fun qs p => p.assign qs) []).map (·.name) = (ps.map (·.name)).eraseDups := by
  induction ps using List.reverseRecOn with
  | nil => rfl
  | append_singleton ps p ih =>
    rw [foldl_assign_concat, names_assign, ih, List.map_append, List.eraseDups_append]
    simp only [List.mem_eraseDups]
    by_cases h : p.name ∈ ps.map (·.name) <;> simp [List.cons_removeAll, List.eraseDups_cons, h]

/-- Each property is the last of its name that was assigned. -/
lemma last_of_mem_foldl_assign (ps : List Property) {p : Property}
    (h : p ∈ ps.foldl (fun qs p => p.assign qs) []) :
    ∃ before after, ps = before ++ p :: after ∧ ∀ q ∈ after, q.name ≠ p.name := by
  induction ps using List.reverseRecOn with
  | nil => exact (List.not_mem_nil h).elim
  | append_singleton ps q ih =>
    rw [foldl_assign_concat] at h
    rcases mem_assign (nodup_names_foldl_assign ps) h with rfl | ⟨hp, hne⟩
    · exact ⟨ps, [], rfl, fun _ h => (List.not_mem_nil h).elim⟩
    · obtain ⟨before, after, rfl, hafter⟩ := ih hp
      refine ⟨before, after ++ [q], by rw [List.append_assoc, List.cons_append], ?_⟩
      exact List.forall_mem_append.2 ⟨hafter, List.forall_mem_singleton.2 hne⟩

/-- The value of a name is the last one that was assigned. -/
lemma find?_foldl_assign (name : String) (ps : List Property) :
    find? name (ps.foldl (fun qs p => p.assign qs) []) = find? name ps.reverse := by
  induction ps using List.reverseRecOn with
  | nil => rfl
  | append_singleton ps p ih =>
    rw [foldl_assign_concat, find?_assign, ih, List.reverse_concat]
    by_cases h : p.name = name <;> simp [find?, h]

end Property

/-! ### The whole cascade -/

/-- **What the cascade comes to.** Behind a reference are the styles that it lists, each after those that
it extends, or none if they cannot be listed. Of all that is met, what is accepted makes up the
properties: no name is there twice, the names are in the order in which they were first accepted, and
each has the value that was accepted last. What is skipped is all else that is met, once each, in order.

**Proof sketch.** The cascade takes what it meets one by one, and the two lists that it makes do not
depend on one another. What is known of assignments in order is shown by induction from the last one. -/
theorem StyleSheets.cascade_spec (s : StyleSheets) (kind : Kind) (references : List StyleReference)
    (own : List Property) (declared : List Style) :
    (∀ r styles, s.expand declared r = .ok styles ↔ s.Lists declared [] none [r] styles) ∧
    ((s.cascade kind references own declared).properties.map (·.name)).Nodup ∧
    (s.cascade kind references own declared).properties.map (·.name) =
      ((Met.accepted kind (s.met declared references own)).map (·.name)).eraseDups ∧
    (∀ p ∈ (s.cascade kind references own declared).properties, ∃ before after,
      Met.accepted kind (s.met declared references own) = before ++ p :: after ∧
        ∀ q ∈ after, q.name ≠ p.name) ∧
    (∀ name, Property.find? name (s.cascade kind references own declared).properties =
      Property.find? name (Met.accepted kind (s.met declared references own)).reverse) ∧
    (s.cascade kind references own declared).skipped =
      Met.refused kind (s.met declared references own) := by
  have cascade : s.cascade kind references own declared =
      ⟨(Met.accepted kind (s.met declared references own)).foldl (fun ps p => p.assign ps) [],
        Met.refused kind (s.met declared references own)⟩ := by
    rw [cascade_eq, Resolved.foldl_meet, List.nil_append]
  rw [cascade]
  exact ⟨fun r styles => expand_eq_ok_iff r styles, Property.nodup_names_foldl_assign _,
    Property.names_foldl_assign _, fun p hp => Property.last_of_mem_foldl_assign _ hp,
    fun name => Property.find?_foldl_assign name _, rfl⟩

end ViewMarkup
