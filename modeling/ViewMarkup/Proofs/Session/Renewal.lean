import ViewMarkup.Proofs.Session.Dependencies
import ViewMarkup.Proofs.Session.Refusals
import ViewMarkup.Proofs.Session.Sheets

/-!
# Changes of shared styles

When a document of shared styles has changed, every definition counts as changed: each is given a
generation that none had before. No component document is read for that. So whatever generations a
root has noted, if its own definition was among them then the root is applied again, and it is
applied with the new styles.

## Main definitions

* `Root.HasFound` — the last attempt to apply a root found the definition of its type.
* `Session.Retains` — what the roots of a session have to do with those of an earlier one.

## Main statements

* `DefinitionStore.exists_get?_renewAll` — every entry is renewed.
* `Session.Arises.exists_noted` — a root has noted what its type depended on, or nothing.
* `Session.styles_applied_again` — what a change of shared styles does.
-/

namespace ViewMarkup

variable {H : Type}

/-! ### Renewing generations -/

namespace DefinitionStore

variable {s : DefinitionStore}

/-- An entry that is renewed gets a later generation, and one that is not keeps its own. -/
lemma exists_get?_foldl_renew (names : List String) (s : DefinitionStore) {name : String}
    {e : StoredDefinition} (h : s.get? name = some e) :
    ∃ gen, (names.foldl renew s).get? name = some { e with generation := gen } ∧
      (gen = e.generation ∧ name ∉ names ∨ s.lastGeneration < gen) := by
  induction names generalizing s e with
  | nil => exact ⟨e.generation, h, .inl ⟨rfl, List.not_mem_nil⟩⟩
  | cons n ns ih =>
    rw [List.foldl_cons]
    by_cases hn : n = name
    · have hr : (s.renew n).get? name = some { e with generation := s.lastGeneration + 1 } := by
        rw [get?_renew, if_pos hn, h, Option.map_some]
      -- The type may be renewed once more by the rest, to a later generation still.
      obtain ⟨gen, hg, ⟨rfl, -⟩ | hlt⟩ := ih _ hr
      · exact ⟨_, hg, .inr (Nat.lt_succ_self _)⟩
      · exact ⟨gen, hg, .inr (Nat.lt_of_succ_lt hlt)⟩
    · have hr : (s.renew n).get? name = some e := by rw [get?_renew, if_neg hn, h]
      obtain ⟨gen, hg, ⟨rfl, hm⟩ | hlt⟩ := ih _ hr
      · exact ⟨_, hg, .inl ⟨rfl, List.not_mem_cons_of_ne_of_not_mem (Ne.symm hn) hm⟩⟩
      · exact ⟨gen, hg, .inr (Nat.lt_of_succ_lt hlt)⟩

/-- **Every entry is renewed**: it keeps its definition and its path, and has a generation above all
that were given before. -/
theorem exists_get?_renewAll {name : String} {e : StoredDefinition} (h : s.get? name = some e) :
    ∃ gen, s.lastGeneration < gen ∧ s.renewAll.get? name = some { e with generation := gen } := by
  obtain ⟨gen, hg, ⟨-, hm⟩ | hlt⟩ := exists_get?_foldl_renew s.typeNames s h
  · have listed : name ∈ s.typeNames := List.mem_mergeSort.2 (Table.mem_keys_iff.2 ⟨e, h⟩)
    exact (hm listed).elim
  · exact ⟨gen, hlt, hg⟩

/-- No type is loaded by renewing others. -/
lemma get?_renewAll_eq_none {name : String} (h : s.get? name = none) :
    s.renewAll.get? name = none := by
  unfold renewAll
  generalize s.typeNames = names
  induction names generalizing s with
  | nil => exact h
  | cons n ns ih =>
    refine ih ?_
    rw [get?_renew, h, Option.map_none, ite_self]

/-- No old generation is left. -/
lemma generation?_renewAll_ne {gen : Nat} (h : gen ≤ s.lastGeneration) (name : String) :
    s.renewAll.generation? name ≠ some gen := by
  intro hg
  rw [generation?] at hg
  cases he : s.get? name with
  | none =>
    rw [get?_renewAll_eq_none he] at hg
    cases hg
  | some e =>
    obtain ⟨later, hlt, hrenewed⟩ := exists_get?_renewAll he
    rw [hrenewed] at hg
    cases hg
    exact Nat.not_lt_of_le h hlt

/-- No generation is noted that has not been given. -/
lemma Sound.le_of_mem_dependencies (hs : s.Sound) {typeName name : String} {gen : Nat}
    (h : (name, some gen) ∈ (s.dependencies typeName).entries) : gen ≤ s.lastGeneration := by
  obtain ⟨n, -, hn⟩ := List.mem_map.1 h
  obtain ⟨rfl, hg⟩ := Prod.mk.inj hn
  obtain ⟨e, he, rfl⟩ := Option.map_eq_some_iff.1 hg
  exact hs.generation_le n e he

end DefinitionStore

/-- The last attempt to apply a root found the definition of its type, in some generation. -/
def Root.HasFound (r : Root) : Prop :=
  ∃ gen, r.attempted.get? r.binding.typeName = some (some gen)

namespace Session

variable {s s' s'' : Session H} {ids ids' : List RootId}

/-! ### Roots that were attempted -/

/-- The roots of a session, but for those that were attempted in the meantime, are as they were in an
earlier one, or have never been attempted. -/
def Retains (s : Session H) (ids : List RootId) (s' : Session H) : Prop :=
  ∀ id ∉ ids, ∀ r, s'.roots.get? id = some r → r.attempted = {} ∨ s.roots.get? id = some r

namespace Retains

/-- Where the roots stay, all are retained. -/
lemma of_roots_eq (h : s'.roots = s.roots) : s.Retains [] s' := fun _ _ _ hr => .inr (h ▸ hr)

/-- Some roots are attempted and then others. -/
lemma append (h : s.Retains ids s') (h' : s'.Retains ids' s'') : s.Retains (ids ++ ids') s'' := by
  intro id hid r hr
  rw [List.mem_append, not_or] at hid
  exact (h' id hid.2 r hr).elim .inl (h id hid.1 r)

/-- Where roots were never attempted, it is now those that have not been attempted in the meantime. -/
lemma untried (h : s.Retains ids s') {tried : List RootId}
    (ht : ∀ id ∉ tried, ∀ r, s.roots.get? id = some r → r.attempted = {}) :
    ∀ id ∉ tried ++ ids, ∀ r, s'.roots.get? id = some r → r.attempted = {} := by
  intro id hid r hr
  rw [List.mem_append, not_or] at hid
  exact (h id hid.2 r hr).elim (fun h => h) (ht id hid.1 r)

/-- A root that leaves takes nothing from the others. -/
lemma unregister (s : Session H) (id : RootId) : s.Retains [] (s.unregister id).2 := by
  intro id' _ r hr
  rw [get?_unregister] at hr
  split at hr
  · cases hr
  · exact .inr hr

/-- Neither do all that leave. -/
lemma prune (s : Session H) : s.Retains [] s.prune := by
  intro id _ r hr
  rw [Session.prune, get?_foldl_unregister] at hr
  split at hr
  · cases hr
  · exact .inr hr

/-- A new root has not been attempted. -/
lemma register (s : Session H) (w : World) (b : Binding) (path? : Option Path) :
    s.Retains [] (s.register w b path?).2 := by
  unfold Session.register
  split
  · exact of_roots_eq rfl
  · next path _ =>
    have watched : (s.watchDocument w path).2.roots = s.roots := by rw [watchDocument_only]
    split
    · next hs =>
      rw [hs] at watched
      exact of_roots_eq watched
    · next s₁ hs =>
      rw [hs] at watched
      intro id _ r hr
      change (s₁.roots.insert b path).2.get? id = some r at hr
      rw [Roots.get?_insert, show s₁.roots = s.roots from watched] at hr
      split at hr
      · cases hr
        exact .inl rfl
      · exact .inr hr

/-- A search attempts no root. -/
lemma discover (s : Session H) (w : World) (dir : Path) : s.Retains [] (s.discover w dir).2 :=
  of_roots_eq (by rw [discover_only])

/-- Attempts concern the roots that they are of. -/
lemma of_attempts (h : s.Attempts ids s') : s.Retains ids s' := fun id hid _ hr =>
  .inr (h.get?_eq id hid ▸ hr)

variable [Widget H] {tried : List RootId}

/-- Handling a change concerns the roots that it attempts. -/
lemma handle (hn : Noted s tried) (w : World) (path : Path) :
    s.Retains (s.handle w path).1.attempted (s.handle w path).2 := by
  have pruned := prune s
  cases hl : s.prune.load? w path with
  | none =>
    rw [handle_of_load?_eq_none hl]
    exact pruned
  | some result =>
    cases result with
    | error e =>
      rw [handle_of_load?_eq_error hl]
      exact pruned.append (of_roots_eq rfl)
    | ok loaded =>
      obtain ⟨-, hr, hperm, ha⟩ := hn.handle_of_load? hl
      intro id hid r hg
      rw [hperm.mem_iff] at hid
      exact (pruned.append (of_roots_eq hr)).append (of_attempts ha) id hid r hg

/-- So does watching shared styles. -/
lemma watchStyles (hn : Noted s tried) (w : World) (path : Path) :
    s.Retains (s.attemptedByWatching w path) (s.watchStyles w path).2 := by
  unfold Session.watchStyles attemptedByWatching
  split
  · exact of_roots_eq rfl
  · cases s.startWatcher w path with
    | error e => exact of_roots_eq rfl
    | ok watcher =>
      have hn' : Noted { s with
          styleDocuments := s.styleDocuments.insert path.key { path, watcher } } tried :=
        hn.congr rfl rfl
      exact handle hn' w path

/-- Making a component concerns the new root only. -/
lemma instantiate (s : Session H) (w : World) (typeName : String) :
    s.Retains (s.instantiate w typeName).1.toOption.toList (s.instantiate w typeName).2 := by
  have hcases := s.instantiates w typeName
  generalize s.instantiate w typeName = outcome at hcases ⊢
  have joined : ∀ {node tree result s₁},
      Session.register { s with tree } w (.adopting node typeName) none = (result, s₁) →
      s.Retains [] s₁ := by
    intro node tree result s₁ hregister
    have hreg := register { s with tree } w (.adopting node typeName) none
    rwa [hregister] at hreg
  cases hcases with
  | unknown _ => exact of_roots_eq rfl
  | unregistered _ hregister =>
    have retains := joined hregister
    exact retains
  | @failed _ _ id _ _ s₁ _ hregister hroot =>
    -- The root that failed is not registered any more.
    intro id' _ r' hr'
    change ((s₁.applyRoot id).2.unregister id).2.roots.get? id' = some r' at hr'
    rw [get?_unregister] at hr'
    split at hr'
    · cases hr'
    · next hne =>
      exact append (joined hregister) (of_attempts (Attempts.applyRoot hroot)) id'
        (fun hm => hne (List.mem_singleton.1 hm).symm) r' hr'
  | made _ hregister hroot =>
    exact append (joined hregister) (of_attempts (Attempts.applyRoot hroot))

/-- Every request concerns the roots that it attempts. -/
lemma serve (hn : Noted s tried) (request : SessionRequest H) :
    s.Retains (s.serve request).1 (s.serve request).2 := by
  cases request with
  | register w b path? => exact register s w b path?
  | unregister id => exact unregister s id
  | watchStyles w path => exact watchStyles hn w path
  | discover w dir => exact discover s w dir
  | instantiate w typeName => exact instantiate s w typeName
  | edit tree => exact of_roots_eq rfl
  | provide capabilities => exact of_roots_eq rfl
  | handle w path => exact handle hn w path

end Retains

variable [Widget H]

/-- **A root has noted what its type depended on**, or it was never attempted and has noted
nothing. -/
theorem Arises.exists_noted (h : s.Arises) : ∃ tried, Noted s tried ∧
    ∀ id ∉ tried, ∀ r, s.roots.get? id = some r → r.attempted = {} := by
  induction h with
  | new settings capabilities => exact ⟨[], .new settings capabilities, fun _ _ _ hr => by cases hr⟩
  | serve request _ ih =>
    obtain ⟨tried, hn, ht⟩ := ih
    exact ⟨_, hn.serve request, (Retains.serve hn request).untried ht⟩
  | @prune s _ ih =>
    obtain ⟨tried, hn, ht⟩ := ih
    exact ⟨tried, hn.prune, List.append_nil tried ▸ (Retains.prune s).untried ht⟩
  | poll files _ ih =>
    obtain ⟨tried, hn, ht⟩ := ih
    exact ⟨tried, hn.congr rfl rfl, ht⟩
  | requeue queue _ ih =>
    obtain ⟨tried, hn, ht⟩ := ih
    exact ⟨tried, hn.congr rfl rfl, ht⟩

/-- A generation that a session knows of: an entry has it, or a root has noted it. -/
def Knew (s : Session H) (gen : Nat) : Prop :=
  (∃ name e, s.definitions.get? name = some e ∧ e.generation = gen) ∨
    ∃ id r name, s.roots.get? id = some r ∧ (name, some gen) ∈ r.attempted.entries

/-- **No generation is known that has not been given.** -/
theorem AtChange.le_of_knew (h : s.AtChange) {gen : Nat} (hk : s.Knew gen) :
    gen ≤ s.definitions.lastGeneration := by
  have noted : ∀ s : Session H, s.Arises → ∀ id r name, s.roots.get? id = some r →
      (name, some gen) ∈ r.attempted.entries → gen ≤ s.definitions.lastGeneration := by
    intro s h id r name hr hg
    obtain ⟨tried, hn, ht⟩ := h.exists_noted
    by_cases hid : id ∈ tried
    · obtain ⟨old, hs, hp, ha⟩ := hn.noted id hid r hr
      rw [ha] at hg
      exact Nat.le_trans (hs.le_of_mem_dependencies hg) hp.lastGeneration_le
    · rw [ht id hid r hr] at hg
      cases hg
  obtain ⟨name, e, he, rfl⟩ | ⟨id, r, name, hr, hg⟩ := hk
  · exact h.noted.sound.generation_le name e he
  · cases h with
    | arises h => exact noted s h id r name hr hg
    | @watching s path watcher h => exact noted s h id r name hr hg

/-! ### After a change of shared styles -/

omit [Widget H] in
/-- Leaving roots give no generation. -/
lemma lastGeneration_prune (s : Session H) :
    s.prune.definitions.lastGeneration = s.definitions.lastGeneration := by
  have one : ∀ (s : Session H) (id : RootId),
      (s.unregister id).2.definitions.lastGeneration = s.definitions.lastGeneration := by
    intro s id
    rcases s.unregister_cases id with ⟨-, hs⟩ | ⟨r, -, ⟨-, hs⟩ | ⟨watch, -, hs⟩⟩
    · rw [hs]
    · rw [hs]
    · rcases hs with ⟨-, hs⟩ | ⟨-, hs⟩
      · rw [hs]
        change (if _ then _ else _ : DefinitionStore).lastGeneration = _
        split <;> rfl
      · rw [hs]
  unfold Session.prune
  induction s.goneRoots generalizing s with
  | nil => rfl
  | cons id ids ih => exact (ih _).trans (one s id)

/-- A root that has found its definition is stale then, whether its type is still loaded or not. -/
lemma AtChange.isStale_storeStyles (h : s.AtChange) {id : RootId} {r : Root}
    (hr : s.roots.get? id = some r) (hf : r.HasFound) (previous : Option String) (g : StyleGroup)
    (p : Path) : (s.prune.storeStyles previous g p).isStale p r = true := by
  obtain ⟨gen, hgen⟩ := hf
  have noted := Table.mem_entries_of_get? hgen
  have given : gen ≤ s.prune.definitions.lastGeneration := by
    rw [lastGeneration_prune]
    exact h.le_of_knew (.inr ⟨id, r, _, hr, noted⟩)
  refine isStale_iff.2 (.inr ⟨_, noted, ?_⟩)
  exact DefinitionStore.generation?_renewAll_ne given r.binding.typeName

/-- **A change of shared styles** has every root applied again that is still there and whose
definition was found when it was last attempted, whatever else it has noted; no root is attempted
twice. No document is read but the changed one. Every entry that the leaving roots have left keeps its
definition and its path, in a generation above all that were given before. The new group is installed
before any root is attempted, and attempts leave it installed.

**Proof sketch.** A root has noted generations that were given before the change
(`AtChange.le_of_knew`), and afterwards no entry has such a generation. So a root that has noted one
for its own type is stale, whether the type is still loaded or not. -/
theorem styles_applied_again (h : s.AtChange) {w : World} {p : Path} {g : StyleGroup}
    (hs : s.styleDocuments.contains p.key = true) (hg : w.readStyles p = .ok g) :
    (∀ id r, s.root? id = some r → r.HasFound →
      id ∈ (s.handle w p).1.reapplied ++ (s.handle w p).1.failed) ∧
    ((s.handle w p).1.reapplied ++ (s.handle w p).1.failed).Nodup ∧
    (∀ w' : World, w'.files.read p = w.files.read p → s.handle w' p = s.handle w p) ∧
    (∀ gen, s.Knew gen → gen ≤ s.definitions.lastGeneration) ∧
    (∀ name e, s.prune.definitions.get? name = some e →
      ∃ gen, s.definitions.lastGeneration < gen ∧
        (s.handle w p).2.definitions.get? name = some { e with generation := gen }) ∧
    ∃ loaded, s.prune.load? w p = some (.ok loaded) ∧
      s.handle w p = (loaded.markSound p).reapply p ∧
      ∀ es, ((loaded.markSound p).attemptAll es).2.applier.sheets.get? g.name = some g := by
  have hl := load?_styles hs hg
  obtain ⟨hn, hroots, hperm, ha⟩ := h.noted.handle_of_load? hl
  refine ⟨fun id r hr hf => ?_, hperm.nodup_iff.2 (hn.nodup_staleIds p), fun w' hw => ?_,
    fun _ => h.le_of_knew, fun name e he => ?_, _, hl, handle_of_load?_eq_ok hl, fun es => ?_⟩
  · have registered : s.roots.get? id = some r := (Option.filter_eq_some_iff.1 hr).1
    refine hperm.mem_iff.2 (hn.mem_staleIds_iff.2 ⟨r, ?_, h.isStale_storeStyles registered hf _ g p⟩)
    rw [hroots, h.noted.get?_prune, hr]
  · have hg' : w'.readStyles p = .ok g := by rw [← hg, World.readStyles, hw, World.readStyles]
    rw [handle_of_load?_eq_ok (load?_styles hs hg'), handle_of_load?_eq_ok hl]
  · rw [← lastGeneration_prune, ha.definitions_eq]
    exact DefinitionStore.exists_get?_renewAll he
  · rw [applier, (attemptAll_tries _ es).2.only]
    exact (StyleSheets.get?_insert _ _ _).trans (if_pos rfl)

/-- A session with a root that was applied, when it begins to watch a document of shared styles. -/
def styledRoot : Session Empty :=
  { loadedRoot with
    styleDocuments := loadedRoot.styleDocuments.insert (Path.mk "b").key ⟨⟨"b"⟩, none, none⟩ }

/-- When the shared styles are loaded, the root is attempted once more, though its own document holds
something else by now. -/
theorem applied_again_styledRoot :
    let outcome := (styledRoot.handle (twinSheets "H") ⟨"b"⟩).1
    styledRoot.styleDocuments.contains (Path.mk "b").key = true ∧
      (twinSheets "H").readStyles ⟨"b"⟩ = .ok ⟨"G", []⟩ ∧
      (∃ r, styledRoot.root? ⟨0⟩ = some r ∧ r.HasFound) ∧
      ⟨0⟩ ∈ outcome.reapplied ++ outcome.failed ∧ (outcome.reapplied ++ outcome.failed).Nodup := by
  have fresh : Arises ({ settings := {}, capabilities := {} } : Session Empty) := .new {} {}
  have bound : boundRoot.Arises :=
    (fresh.serve (.edit _)).serve (.register emptyDocument (.adopting ⟨0⟩ "A") (some ⟨"a"⟩))
  have loaded : loadedRoot.Arises := (bound.requeue []).serve (.handle emptyDocument ⟨"a"⟩)
  have styled : styledRoot.AtChange := .watching ⟨"b"⟩ none loaded
  have watched : styledRoot.styleDocuments.contains (Path.mk "b").key = true := by
    change ((loadedRoot.styleDocuments.insert _ _).get? _).isSome = true
    rw [Table.get?_insert, if_pos rfl, Option.isSome_some]
  have read := readStyles_twinSheets_b "H"
  obtain ⟨again, once, -⟩ := styles_applied_again styled watched read
  have noted : (loadedRoot.root? ⟨0⟩).map (fun r => r.attempted.get? r.binding.typeName) =
      some (some (some 1)) := by
    rw [loadedRoot, handle_of_load?_eq_ok
      (load?_document (by cbv) (by cbv) readDefinition_emptyDocument)]
    cbv
  obtain ⟨r, hr, hfound⟩ := Option.map_eq_some_iff.1 noted
  exact ⟨watched, read, ⟨r, hr, 1, hfound⟩, again ⟨0⟩ r hr ⟨1, hfound⟩, once⟩

end Session

end ViewMarkup
