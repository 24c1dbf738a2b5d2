import ViewMarkup.Proofs.Fallible
import ViewMarkup.Proofs.Session.Providing

/-!
# What a search brings in

A search goes through the documents below a directory one after the other, stores the definitions of
each and lists the types that were not known before. A document is passed over if its outermost type
is compiled in, but of the types nested in a document none is looked at: if one of them is compiled
in, it is stored and listed like the others.

## Main definitions

* `Session.Finds` — the documents that a search loads.
* `DefinitionStore.Learned` — a list of the types that a store has beyond another one.

## Main statements

* `DefinitionStore.Learned.learn`, `Session.learned_discoverDocument` — one definition and one
  document more.
* `Session.discover_spec` — the types that a search stores and lists, and when types that are
  compiled in are among them.
-/

namespace ViewMarkup

/-! ### Types that were not known before -/

namespace DefinitionStore

variable {s₀ s : DefinitionStore} {found : List String}

/-- A type is stored if it was just stored or had been before. -/
lemma contains_insert (s : DefinitionStore) (d : Definition) (path : Path) (name : String) :
    (s.insert d path).contains name = true ↔ name = d.typeName ∨ s.contains name = true := by
  rw [contains, contains, Table.contains, Table.contains, insert, Table.get?_insert]
  by_cases h : d.typeName = name
  · simp [h]
  · simp [h, Ne.symm h]

/-- **The types that a store has beyond another one**, each listed once. -/
structure Learned (s₀ s : DefinitionStore) (found : List String) : Prop where
  /-- What was known is still known. -/
  mono : ∀ name, s₀.contains name = true → s.contains name = true
  /-- What is listed was not known and is now. -/
  mem_iff : ∀ name, name ∈ found ↔ s.contains name = true ∧ s₀.contains name = false
  /-- Nothing is listed twice. -/
  nodup : found.Nodup

namespace Learned

/-- Nothing is learned. -/
lemma refl (s : DefinitionStore) : s.Learned s [] where
  mono _ h := h
  mem_iff name := by cases s.contains name <;> simp
  nodup := List.nodup_nil

/-- One more definition is stored. Its type is listed if neither the first store knew it nor a
definition since. -/
theorem learn (h : s₀.Learned s found) (path : Path) (d : Definition) :
    s₀.Learned (Session.learn path (s, found) d).1 (Session.learn path (s, found) d).2 where
  mono name hn := (contains_insert s d path name).2 (.inr (h.mono name hn))
  mem_iff name := by
    rw [Session.learn, contains_insert]
    by_cases hs : s.contains d.typeName = true
    · rw [if_pos hs, h.mem_iff]
      refine and_congr_left fun _ => ⟨.inr, ?_⟩
      rintro (rfl | hn)
      · exact hs
      · exact hn
    · rw [if_neg hs, List.mem_append, List.mem_singleton, h.mem_iff]
      constructor
      · rintro (hn | rfl)
        · exact ⟨.inr hn.1, hn.2⟩
        · exact ⟨.inl rfl, Bool.eq_false_iff.2 fun h₀ => hs (h.mono _ h₀)⟩
      · rintro ⟨rfl | hn, h₀⟩
        · exact .inr rfl
        · exact .inl ⟨hn, h₀⟩
  nodup := by
    rw [Session.learn]
    split
    · exact h.nodup
    · next hs =>
      rw [← List.concat_eq_append]
      exact h.nodup.concat fun hm => hs ((h.mem_iff _).1 hm).1

/-- Several definitions are stored one after the other. -/
lemma foldl_learn (h : s₀.Learned s found) (path : Path) (ds : List Definition) :
    s₀.Learned (ds.foldl (Session.learn path) (s, found)).1
      (ds.foldl (Session.learn path) (s, found)).2 := by
  induction ds generalizing s found with
  | nil => exact h
  | cons d ds ih => exact ih (h.learn path d)

end Learned

/-- Types are stored if they were just stored or had been before. -/
lemma contains_foldl_insert (path : Path) (ds : List Definition) (s : DefinitionStore)
    (name : String) :
    (ds.foldl (fun s d => s.insert d path) s).contains name = true ↔
      name ∈ ds.map (·.typeName) ∨ s.contains name = true := by
  induction ds generalizing s with
  | nil => simp
  | cons d ds ih =>
    rw [List.foldl_cons, ih, contains_insert, List.map_cons, List.mem_cons]
    tauto

end DefinitionStore

namespace Session

variable {H : Type} {s s' : Session H} {w : World}

/-! ### One document after the other -/

/-- **A search loads a document**: it is below the directory and named as documents are, it can be
read and defines something, and its outermost type is not compiled in. -/
def Finds (s : Session H) (w : World) (dir path : Path) (d : Definition) : Prop :=
  ∃ files, w.files.filesBelow dir = .ok files ∧ path ∈ files ∧ s.settings.isDocument path = true ∧
    w.readDefinition path = .ok d ∧ d.typeName ∉ s.settings.compiled

/-- A search loads the documents that it finds. -/
lemma mem_loads_discover {dir : Path} {e : Path × Definition} :
    e ∈ s.loads (.discover w dir) ↔ s.Finds w dir e.1 e.2 := by
  obtain ⟨p, d⟩ := e
  rw [loads, Finds]
  cases w.files.filesBelow dir with
  | error fault => simp
  | ok files =>
    simp only [List.mem_filterMap, List.mem_mergeSort, List.mem_filter, found?,
      Option.map_eq_some_iff, Option.filter_eq_some_iff, Except.toOption_eq_some, Prod.mk.injEq,
      decide_eq_true_eq, Except.ok.injEq, exists_eq_left']
    constructor
    · rintro ⟨_, ⟨hp, hdoc⟩, _, ⟨hread, hc⟩, rfl, rfl⟩
      exact ⟨hp, hdoc, hread, hc⟩
    · rintro ⟨hp, hdoc, hread, hc⟩
      exact ⟨_, ⟨hp, hdoc⟩, _, ⟨hread, hc⟩, rfl, rfl⟩

/-- A document that is found is stored with all its types, or passed over. -/
theorem learned_discoverDocument {s₀ : DefinitionStore} {found : List String}
    (h : s₀.Learned s.definitions found) (path : Path) :
    s₀.Learned (discoverDocument w s found path).1.definitions (discoverDocument w s found path).2 ∧
      (discoverDocument w s found path).1.settings = s.settings ∧
      ∀ name, (discoverDocument w s found path).1.definitions.contains name = true ↔
        s.definitions.contains name = true ∨
          ∃ d, w.readDefinition path = .ok d ∧ d.typeName ∉ s.settings.compiled ∧
            name ∈ d.typeNames := by
  unfold discoverDocument
  cases w.readDefinition path with
  | error e => exact ⟨h, rfl, fun name => by simp [report, markBroken]⟩
  | ok d =>
    by_cases hc : d.typeName ∈ s.settings.compiled
    · simp only [if_pos hc]
      refine ⟨h, trivial, fun name => ⟨.inl, ?_⟩⟩
      rintro (hn | ⟨d', hd, hc', -⟩)
      · exact hn
      · cases hd
        exact (hc' hc).elim
    · simp only [if_neg hc]
      refine ⟨h.foldl_learn path d.definitions, rfl, fun name => ?_⟩
      change (d.definitions.foldl (learn path) (s.definitions, found)).1.contains name = true ↔ _
      rw [DefinitionStore.learn_foldl_fst, DefinitionStore.contains_foldl_insert, or_comm,
        ← Definition.typeNames]
      refine or_congr_right ⟨fun hm => ⟨d, rfl, hc, hm⟩, ?_⟩
      rintro ⟨d', hd, -, hm⟩
      cases hd
      exact hm

/-- All documents that are found are stored one after the other. -/
lemma learned_foldl_discoverDocument {s₀ : DefinitionStore} {found : List String}
    (h : s₀.Learned s.definitions found) (paths : List Path) :
    let after := paths.foldl (fun acc path => discoverDocument w acc.1 acc.2 path) (s, found)
    s₀.Learned after.1.definitions after.2 ∧
      ∀ name, after.1.definitions.contains name = true ↔ s.definitions.contains name = true ∨
        ∃ path ∈ paths, ∃ d, w.readDefinition path = .ok d ∧
          d.typeName ∉ s.settings.compiled ∧ name ∈ d.typeNames := by
  induction paths generalizing s found with
  | nil => exact ⟨h, fun name => by simp⟩
  | cons path paths ih =>
    obtain ⟨hl, hset, hone⟩ := learned_discoverDocument (w := w) h path
    obtain ⟨hl', hrest⟩ := ih hl
    refine ⟨hl', fun name => ?_⟩
    have := hrest name
    rw [hset, hone name] at this
    rw [List.foldl_cons]
    refine this.trans ?_
    rw [or_assoc, List.exists_mem_cons_iff]

/-- A search of a directory that can be read stores all documents that it finds. -/
lemma learned_discover {dir : Path} {files : List Path} (h : w.files.filesBelow dir = .ok files) :
    ∃ found s', s.discover w dir = (.ok (found.mergeSort fun a b => decide (a ≤ b)), s') ∧
      s.definitions.Learned s'.definitions found ∧
      ∀ name, s'.definitions.contains name = true ↔ s.definitions.contains name = true ∨
        ∃ path d, s.Finds w dir path d ∧ name ∈ d.typeNames := by
  obtain ⟨hl, hstored⟩ := learned_foldl_discoverDocument (w := w) (.refl s.definitions)
    ((files.filter s.settings.isDocument).mergeSort Path.notAfter)
  refine ⟨_, _, by rw [discover, h], hl, fun name => (hstored name).trans (or_congr_right ?_)⟩
  simp only [List.mem_mergeSort, List.mem_filter]
  constructor
  · rintro ⟨path, ⟨hp, hdoc⟩, d, hread, hc, hm⟩
    exact ⟨path, d, ⟨files, h, hp, hdoc, hread, hc⟩, hm⟩
  · rintro ⟨path, d, ⟨files', h', hp, hdoc, hread, hc⟩, hm⟩
    cases h.symm.trans h'
    exact ⟨path, ⟨hp, hdoc⟩, d, hread, hc, hm⟩

/-- A list in order that has nothing twice goes up strictly. -/
lemma pairwise_lt_mergeSort {names : List String} (h : names.Nodup) :
    (names.mergeSort fun a b => decide (a ≤ b)).Pairwise (· < ·) := by
  have sorted : (names.mergeSort fun a b => decide (a ≤ b)).Pairwise fun a b => decide (a ≤ b) = true :=
    List.pairwise_mergeSort (fun a b c => by simpa using le_trans)
      (fun a b => by simpa using le_total a b) names
  have distinct : (names.mergeSort fun a b => decide (a ≤ b)).Nodup :=
    (List.mergeSort_perm _ _).nodup_iff.2 h
  exact (sorted.and distinct).imp fun hab => lt_of_le_of_ne (by simpa using hab.1) hab.2

/-- **The types that a search stores and lists.** If the directory can be read, the list goes up
strictly, and what it has are the types that are loaded now and were not before: those that the
documents which the search loads define at any depth and that were not known. No type that is
compiled in is new if and only if no such document defines one, at any depth, that was not known.
If the directory cannot be read, the definitions are as they were.

**Proof sketch.** The list is kept in step with the store from one definition to the next
(`DefinitionStore.Learned.learn`), so that it has what the store has gained, once. What the store
gains from a document are all its types, as the outermost one alone decides whether it is passed
over (`learned_discoverDocument`). -/
theorem discover_spec (s : Session H) (w : World) (dir : Path) :
    match s.discover w dir with
    | (.ok found, s') =>
        found.Pairwise (· < ·) ∧
        (∀ name, name ∈ found ↔
          s'.definitions.contains name = true ∧ s.definitions.contains name = false) ∧
        (∀ name, name ∈ found ↔ s.definitions.contains name = false ∧
          ∃ path d, s.Finds w dir path d ∧ name ∈ d.typeNames) ∧
        ((∀ name ∈ s.settings.compiled, s'.definitions.contains name = true →
            s.definitions.contains name = true) ↔
          ∀ path d, s.Finds w dir path d → ∀ name ∈ d.typeNames, name ∈ s.settings.compiled →
            s.definitions.contains name = true)
    | (.error _, s') => s'.definitions = s.definitions := by
  cases h : w.files.filesBelow dir with
  | error fault =>
    rw [discover, h]
    rfl
  | ok files =>
    obtain ⟨found, s', hs, hl, hstored⟩ := learned_discover (s := s) h
    rw [hs]
    have listed : ∀ name, name ∈ found.mergeSort (fun a b => decide (a ≤ b)) ↔
        s'.definitions.contains name = true ∧ s.definitions.contains name = false := fun name => by
      rw [List.mem_mergeSort, hl.mem_iff]
    refine ⟨pairwise_lt_mergeSort hl.nodup, listed, fun name => ?_, ?_⟩
    · rw [listed, hstored, and_comm, and_congr_right_iff]
      intro hn
      rw [hn]
      simp
    · constructor
      · exact fun hnew path d hd name hm hc =>
          hnew name hc ((hstored name).2 (.inr ⟨path, d, hd, hm⟩))
      · intro hfinds name hc hn
        rcases (hstored name).1 hn with hn | ⟨path, d, hd, hm⟩
        · exact hn
        · exact hfinds path d hd name hm hc

/-- A component with a label. -/
def badge : Definition :=
  ⟨"Badge", false, false, [], [], [⟨.label, none, {}, [], [], [], none, "temp_label_1"⟩]⟩

/-- A component with the other one in place inside it. -/
def cardWithBadge : Definition :=
  ⟨"Card", false, false, [], [],
    [⟨.component, none, {}, [], [], [], some (.inline badge), "temp_component_1"⟩]⟩

/-- The document of the component in a directory. -/
def cardDirectory : World where
  files := { entries := ⟨[(["ui"], .directory), (["ui", "card.ui.xml"], .file
    "<Component type=\"Card\"><Component type=\"Badge\"><Label/></Component></Component>".toUTF8 0)]⟩ }
  runsWatchers := false

/-- A new session of a host that has the nested component compiled in. -/
def badgeCompiled : Session Empty := { settings := { compiled := ["Badge"] }, capabilities := {} }

set_option maxRecDepth 4096 in
/-- The search finds the card with its badge. -/
lemma finds_cardWithBadge :
    badgeCompiled.Finds cardDirectory ⟨"ui"⟩ ⟨"ui/card.ui.xml"⟩ cardWithBadge := by
  refine ⟨[⟨"ui/card.ui.xml"⟩], by cbv, List.mem_singleton_self _, by decide,
    World.readDefinition_eq_ok
      (Directory.read_eq_ok (l := .inside ["ui", "card.ui.xml"]) rfl rfl) ?_, by decide⟩
  rw [Definition.ofText_ofList]
  cbv

/-- **A type that is compiled in is stored all the same** if it is nested in a document whose outermost
type is not. -/
theorem contains_compiledBadge : "Badge" ∈ badgeCompiled.settings.compiled ∧
    badgeCompiled.definitions.contains "Badge" = false ∧
    (badgeCompiled.discover cardDirectory ⟨"ui"⟩).2.definitions.contains "Badge" = true := by
  have nested : "Badge" ∈ cardWithBadge.typeNames := by decide
  have hfiles : cardDirectory.files.filesBelow ⟨"ui"⟩ = .ok [⟨"ui/card.ui.xml"⟩] := by cbv
  obtain ⟨found, s', hs, -, hstored⟩ := learned_discover (s := badgeCompiled) hfiles
  rw [hs]
  exact ⟨by decide, rfl, (hstored "Badge").2 (.inr ⟨_, _, finds_cardWithBadge, nested⟩)⟩

end Session

end ViewMarkup
