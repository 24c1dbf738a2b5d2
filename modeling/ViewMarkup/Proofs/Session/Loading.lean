import ViewMarkup.Proofs.Session.Reports

/-!
# What is loaded for a document

When a change has been handled, what the session has loaded for the changed document is what the
document says. Handling a change of another document leaves what was loaded from a document as it is,
unless the two hold groups or definitions of one name.

## Main definitions

* `DefinitionStore.held?` — the definition of a type, if it was read from a given path.
* `DefinitionStore.Holds`, `Session.HasLoaded` — what is loaded is what a document says.
* `Session.Leaves` — what leaving roots do to a session.
* `Session.Changes` — what the handling of a change does to a session.
* `Session.Spares` — the handling of a change does not concern what is loaded from another document.

## Main statements

* `DefinitionStore.holds_insertDocument` — a stored document is all that is held for its path.
* `Session.Changes.hasLoaded` — after a change has been handled, its document is loaded as it is.
* `Session.HasLoaded.of_spares` — handling a change that spares another document.
-/

namespace ViewMarkup

variable {H : Type}

namespace DefinitionStore

/-- The definition of a type, if it was read from a given path. -/
def held? (s : DefinitionStore) (path : Path) (name : String) : Option Definition :=
  ((s.get? name).filter fun e => e.path.key = path.key).map (·.definition)

/-- What the store holds for a path are the definitions of a document, the last one of each type. -/
def Holds (s : DefinitionStore) (d : Definition) (path : Path) : Prop :=
  ∀ name, s.held? path name = (d.definitions.filter fun d => d.typeName = name).getLast?

/-- The spelling of a path does not matter. -/
lemma held?_eq_of_key {s : DefinitionStore} {path other : Path} (h : path.key = other.key)
    {name : String} : s.held? path name = s.held? other name := by
  rw [held?, h, held?]

/-- Nothing is held for a path that was removed. -/
lemma held?_removePath_self (s : DefinitionStore) (path : Path) (name : String) :
    (s.removePath path).held? path name = none := by
  rw [held?, Option.map_eq_none_iff, Option.filter_eq_none_iff]
  intro e he
  have hm := (List.mem_filter.1 (Table.mem_entries_of_get? he)).2
  simpa using hm

/-- Of the definitions that are stored for a path, the last one of a type is held. -/
lemma held?_foldl_insert (path : Path) (ds : List Definition) (s : DefinitionStore)
    (name : String) :
    (ds.foldl (fun s d => s.insert d path) s).held? path name =
      ((ds.filter fun d => d.typeName = name).getLast?).or (s.held? path name) := by
  induction ds generalizing s with
  | nil => rfl
  | cons d ds ih =>
    rw [List.foldl_cons, ih, held?, get?_insert]
    by_cases hd : d.typeName = name
    · rw [if_pos hd, List.filter_cons_of_pos (by simpa using hd), List.getLast?_cons]
      cases (ds.filter fun d => d.typeName = name).getLast? <;> simp
    · rw [if_neg hd, List.filter_cons_of_neg (by simpa using hd)]
      rfl

/-- **A stored document is all that is held for its path.** -/
theorem holds_insertDocument (s : DefinitionStore) (d : Definition) (path : Path) :
    (s.insertDocument d path).Holds d path := by
  intro name
  rw [insertDocument, held?_foldl_insert, held?_removePath_self, Option.or_none]

/-! ### What is held for other paths -/

section Other

variable {s : DefinitionStore} {path other : Path}

/-- Removing what was read from another path takes nothing from a path. -/
lemma held?_removePath (hs : s.Sound) (hne : path.key ≠ other.key) (name : String) :
    (s.removePath other).held? path name = s.held? path name := by
  rw [held?, Precedes.get?_removePath hs, held?]
  cases s.get? name with
  | none => rfl
  | some e => by_cases he : e.path.key = path.key <;> simp [Option.filter_some, he, hne]

/-- Storing definitions for another path takes nothing from a path that holds none of their types. -/
lemma held?_foldl_insert_of_ne (hne : path.key ≠ other.key) {ds : List Definition}
    (hds : ∀ d ∈ ds, s.held? path d.typeName = none) (name : String) :
    (ds.foldl (fun s d => s.insert d other) s).held? path name = s.held? path name := by
  induction ds generalizing s with
  | nil => rfl
  | cons d ds ih =>
    rw [List.forall_mem_cons] at hds
    have one : ∀ name, (s.insert d other).held? path name = s.held? path name := fun name => by
      rw [held?, get?_insert]
      split
      · next hd => rw [← hd, hds.1, Option.filter_some, if_neg (by simpa using Ne.symm hne)]; rfl
      · rfl
    rw [List.foldl_cons, ih (fun d' hd' => (one _).trans (hds.2 d' hd')), one]

/-- Storing a document takes nothing from another path that holds none of its types. -/
lemma held?_insertDocument (hs : s.Sound) (hne : path.key ≠ other.key) {d : Definition}
    (hd : ∀ nested ∈ d.definitions, s.held? path nested.typeName = none) (name : String) :
    (s.insertDocument d other).held? path name = s.held? path name := by
  have hremove := held?_removePath hs hne
  rw [insertDocument, held?_foldl_insert_of_ne hne fun nested hn => (hremove _).trans (hd nested hn),
    hremove]

/-- New generations change nothing about the entries but their generations. -/
lemma map_get?_renewAll {α : Type} (s : DefinitionStore) (name : String)
    (f : StoredDefinition → α) (hf : ∀ e generation, f { e with generation } = f e) :
    (s.renewAll.get? name).map f = (s.get? name).map f := by
  unfold renewAll
  generalize s.typeNames = names
  induction names generalizing s with
  | nil => rfl
  | cons n ns ih =>
    rw [List.foldl_cons, ih, get?_renew]
    split
    · rw [Option.map_map]
      exact Option.map_congr fun e _ => hf e _
    · rfl

/-- New generations change nothing about what is held. -/
lemma held?_renewAll (s : DefinitionStore) (path : Path) (name : String) :
    s.renewAll.held? path name = s.held? path name := by
  have same := s.map_get?_renewAll name (fun e => (decide (e.path.key = path.key), e.definition))
    fun _ _ => rfl
  unfold held?
  revert same
  generalize s.renewAll.get? name = renewed
  generalize s.get? name = before
  intro same
  cases renewed with
  | none => rw [Option.map_eq_none_iff.1 same.symm]
  | some e' =>
    obtain ⟨e, rfl, he⟩ := Option.map_eq_some_iff.1 same.symm
    have hkey : (e.path.key = path.key) = (e'.path.key = path.key) :=
      propext (decide_eq_decide.1 (congrArg Prod.fst he))
    have hdefinition : e.definition = e'.definition := congrArg Prod.snd he
    simp only [Option.filter_some, hkey]
    split <;> simp [hdefinition]

end Other

end DefinitionStore

namespace Session

/-- What a session has loaded for a path is what is found there: the group of a document of shared
styles, or else the definitions of a document; or the document is marked as broken, if it is not read
or refused. -/
def HasLoaded (s : Session H) (w : World) (p : Path) : Prop :=
  match s.styleDocuments.get? p.key with
  | some watch =>
      match w.readStyles p with
      | .ok g => watch.group = some g.name ∧ s.sheets.get? g.name = some g ∧ p.key ∉ s.broken
      | .error _ => p.key ∈ s.broken
  | none =>
      match w.readDefinition p with
      | .ok d => s.definitions.Holds d p ∧ p.key ∉ s.broken
      | .error _ => p.key ∈ s.broken

/-! ### Leaving -/

/-- What leaving roots do to a session: documents are no longer watched, and only those are no
longer broken. -/
structure Leaves (s s' : Session H) : Prop where
  /-- No change is reported or handled. -/
  queue_eq : s'.queue = s.queue
  /-- The documents of shared styles stay. -/
  styleDocuments_eq : s'.styleDocuments = s.styleDocuments
  /-- So do the shared styles. -/
  sheets_eq : s'.sheets = s.sheets
  /-- A document that is still watched keeps its watcher. -/
  documents : ∀ key watch', s'.documents.get? key = some watch' →
    ∃ watch, s.documents.get? key = some watch ∧ watch.watcher = watch'.watcher
  /-- A document that does not go stays broken or sound. -/
  broken : ∀ key, (s.documents.contains key = true → s'.documents.contains key = true) →
    (key ∈ s'.broken ↔ key ∈ s.broken)
  /-- The definitions stay sound. -/
  sound : s.definitions.Sound → s'.definitions.Sound
  /-- What is held for a document that does not go stays. -/
  held : s.definitions.Sound → ∀ path : Path,
    (s.documents.contains path.key = true → s'.documents.contains path.key = true) →
    ∀ name, s'.definitions.held? path name = s.definitions.held? path name

namespace Leaves

variable {s s' s'' : Session H}

/-- Nothing leaves. -/
lemma refl (s : Session H) : s.Leaves s :=
  ⟨rfl, rfl, rfl, fun _ watch h => ⟨watch, h, rfl⟩, fun _ _ => .rfl, id, fun _ _ _ _ => rfl⟩

/-- What is still watched was watched before. -/
lemma contains (h : s.Leaves s') {key : PathKey} (hc : s'.documents.contains key = true) :
    s.documents.contains key = true := by
  obtain ⟨watch', hw'⟩ := Option.isSome_iff_exists.1 hc
  obtain ⟨watch, hw, -⟩ := h.documents key watch' hw'
  exact Option.isSome_iff_exists.2 ⟨watch, hw⟩

/-- Some roots leave and then others. -/
lemma trans (h : s.Leaves s') (h' : s'.Leaves s'') : s.Leaves s'' where
  queue_eq := h'.queue_eq.trans h.queue_eq
  styleDocuments_eq := h'.styleDocuments_eq.trans h.styleDocuments_eq
  sheets_eq := h'.sheets_eq.trans h.sheets_eq
  documents key watch'' hw'' := by
    obtain ⟨watch', hw', he'⟩ := h'.documents key watch'' hw''
    obtain ⟨watch, hw, he⟩ := h.documents key watch' hw'
    exact ⟨watch, hw, he.trans he'⟩
  broken key hk := (h'.broken key fun hc => hk (h.contains hc)).trans
    (h.broken key fun hc => h'.contains (hk hc))
  sound hs := h'.sound (h.sound hs)
  held hs path hk name := (h'.held (h.sound hs) path (fun hc => hk (h.contains hc)) name).trans
    (h.held hs path (fun hc => h'.contains (hk hc)) name)

/-- A single root leaves. -/
lemma unregister (s : Session H) (id : RootId) : s.Leaves (s.unregister id).2 := by
  unfold Session.unregister
  split
  · exact refl s
  · next r _ =>
    simp only
    split
    · exact ⟨rfl, rfl, rfl, fun _ watch h => ⟨watch, h, rfl⟩, fun _ _ => .rfl, fun hs => hs,
        fun _ _ _ _ => rfl⟩
    · next watch hwatch =>
      -- The document that goes is not the one that is asked about.
      have gone : ∀ key, (s.documents.contains key = true →
          (s.documents.erase r.path.key).contains key = true) → key ≠ r.path.key := by
        rintro _ hk rfl
        have hc := hk (Option.isSome_iff_exists.2 ⟨watch, hwatch⟩)
        rw [Table.contains, Table.get?_erase, if_pos rfl] at hc
        cases hc
      split
      · refine ⟨rfl, rfl, rfl, fun key watch' h => ?_, fun key hk => ?_, fun hs => ?_,
          fun hs path hk name => ?_⟩
        · change (s.documents.erase r.path.key).get? key = some watch' at h
          rw [Table.get?_erase] at h
          split at h
          · cases h
          · exact ⟨watch', h, rfl⟩
        · change key ∈ s.broken.filter (· ≠ r.path.key) ↔ _
          rw [List.mem_filter]
          simp [gone key hk]
        · change (if _ then s.definitions else _ : DefinitionStore).Sound
          split
          · exact hs
          · exact (DefinitionStore.Precedes.removePath hs _).sound
        · change (if _ then s.definitions else _ : DefinitionStore).held? path name = _
          split
          · rfl
          · exact DefinitionStore.held?_removePath hs (gone path.key hk) name
      · refine ⟨rfl, rfl, rfl, fun key watch' h => ?_, fun _ _ => .rfl, fun hs => hs,
          fun _ _ _ _ => rfl⟩
        change (s.documents.modify r.path.key _).get? key = some watch' at h
        rw [Table.get?_modify] at h
        split at h
        · obtain ⟨watch₀, hw₀, rfl⟩ := Option.map_eq_some_iff.1 h
          exact ⟨watch₀, hw₀, rfl⟩
        · exact ⟨watch', h, rfl⟩

/-- All roots whose nodes are gone leave. -/
lemma prune (s : Session H) : s.Leaves s.prune := by
  unfold Session.prune
  induction s.goneRoots generalizing s with
  | nil => exact refl s
  | cons id ids ih => exact (unregister s id).trans (ih _)

end Leaves

/-! ### Handling a change -/

/-- Only the group that the document held before is dropped. -/
lemma get?_dropRenamed {sheets : StyleSheets} {previous : Option String} {name kept : String}
    (h : previous ≠ some kept) : (dropRenamed sheets previous name).get? kept = sheets.get? kept := by
  unfold dropRenamed
  split
  · split
    · rfl
    · rw [StyleSheets.get?_erase, if_neg fun he => h (congrArg some he)]
  · rfl

/-- The session with the group of a document of shared styles stored. -/
def storeStyles (s : Session H) (previous : Option String) (g : StyleGroup) (q : Path) : Session H :=
  { s with
    sheets := (dropRenamed s.sheets previous g.name).insert g
    styleDocuments := s.styleDocuments.modify q.key fun watch => { watch with group := some g.name }
    definitions := s.definitions.renewAll }

/-- A document of shared styles that can be read is loaded. -/
lemma load?_styles {s : Session H} {w : World} {p : Path} {g : StyleGroup}
    (hs : s.styleDocuments.contains p.key = true) (hg : w.readStyles p = .ok g) :
    s.prune.load? w p = some (.ok
      (s.prune.storeStyles ((s.prune.styleDocuments.get? p.key).bind (·.group)) g p)) := by
  have hs' : s.prune.styleDocuments.contains p.key = true := by
    rw [(Leaves.prune s).styleDocuments_eq, hs]
  rw [load?, if_pos hs', loadStyles, hg]
  rfl

/-- What the handling of a change does to a session, up to its tree, its roots and its errors. -/
inductive Changes (s : Session H) (w : World) (q : Path) : Session H → Prop where
  /-- The session has nothing to do with the document. -/
  | ignored (hs : s.styleDocuments.contains q.key = false)
      (hd : s.prune.documents.contains q.key = false) : Changes s w q s.prune
  /-- The document does not load. -/
  | refused {e : SessionError} (h : if s.styleDocuments.contains q.key then
      w.readStyles q = .error e else w.readDefinition q = .error e) :
      Changes s w q ((s.prune.report q e).markBroken q)
  /-- The group of a document of shared styles is stored. -/
  | styles {s' : Session H} {watch : StyleWatch} {g : StyleGroup}
      (hwatch : s.styleDocuments.get? q.key = some watch) (h : w.readStyles q = .ok g)
      (ho : OnlyRoots ((s.prune.storeStyles watch.group g q).markSound q) s') : Changes s w q s'
  /-- The definitions of a document are stored. -/
  | definitions {s' : Session H} {d : Definition} (hs : s.styleDocuments.contains q.key = false)
      (h : w.readDefinition q = .ok d)
      (ho : OnlyRoots (markSound
        { s.prune with definitions := s.prune.definitions.insertDocument d q } q) s') :
      Changes s w q s'

variable {s s' : Session H} {w : World} {p q : Path}

/-- Handling a change is one of the things that can happen. -/
lemma handle_changes [Widget H] (s : Session H) (w : World) (q : Path) :
    s.Changes w q (s.handle w q).2 := by
  have L := Leaves.prune s
  have loads : ∀ loaded, s.prune.load? w q = some (.ok loaded) →
      OnlyRoots (loaded.markSound q) (s.handle w q).2 := by
    intro loaded hl
    rw [handle_of_load?_eq_ok hl]
    exact reapply_onlyRoots _ q
  by_cases hs : s.styleDocuments.contains q.key = true
  · have hload : s.prune.load? w q = some (s.prune.loadStyles w q) := by
      rw [load?, L.styleDocuments_eq, if_pos hs]
    cases hr : w.readStyles q with
    | error e =>
      rw [handle_of_load?_eq_error (by rw [hload, loadStyles, hr])]
      exact .refused (by rw [if_pos hs, hr])
    | ok g =>
      obtain ⟨watch, hwatch⟩ := Option.isSome_iff_exists.1 hs
      refine .styles hwatch hr (loads _ ?_)
      rw [hload, loadStyles, hr]
      simp only [storeStyles, L.styleDocuments_eq, hwatch, Option.bind_some]
  · rw [Bool.not_eq_true] at hs
    by_cases hd : s.prune.documents.contains q.key = true
    · have hload : s.prune.load? w q = some (s.prune.loadDocument w q) := by
        rw [load?, L.styleDocuments_eq, hs, if_neg Bool.false_ne_true, if_pos hd]
      cases hr : w.readDefinition q with
      | error e =>
        rw [handle_of_load?_eq_error (by rw [hload, loadDocument, hr])]
        exact .refused (by rw [hs, if_neg Bool.false_ne_true, hr])
      | ok d => exact .definitions hs hr (loads _ (by rw [hload, loadDocument, hr]))
    · rw [Bool.not_eq_true] at hd
      have hload : s.prune.load? w q = none := by
        rw [load?, L.styleDocuments_eq, hs, hd]
        rfl
      rw [handle_of_load?_eq_none hload]
      exact .ignored hs hd

namespace Changes

/-- No change is reported or taken. -/
lemma queue_eq (h : s.Changes w q s') : s'.queue = s.queue := by
  rw [← (Leaves.prune s).queue_eq]
  cases h with
  | ignored => rfl
  | refused => rfl
  | styles _ _ ho => rw [ho]; rfl
  | definitions _ _ ho => rw [ho]; rfl

/-- The watched documents are those that the leaving roots left. -/
lemma documents_eq (h : s.Changes w q s') : s'.documents = s.prune.documents := by
  cases h with
  | ignored => rfl
  | refused => rfl
  | styles _ _ ho => rw [ho]; rfl
  | definitions _ _ ho => rw [ho]; rfl

/-- The documents of shared styles stay as they are, but for the name of the group in the changed
one. -/
lemma get?_styleDocuments (h : s.Changes w q s') (key : PathKey) :
    s'.styleDocuments.get? key = s.styleDocuments.get? key ∨
      key = q.key ∧ ∃ g, w.readStyles q = .ok g ∧ s'.styleDocuments.get? key =
        (s.styleDocuments.get? key).map fun watch => { watch with group := some g.name } := by
  rw [← (Leaves.prune s).styleDocuments_eq]
  cases h with
  | ignored => exact .inl rfl
  | refused => exact .inl rfl
  | @styles _ watch g _ hr ho =>
    rw [ho]
    change (s.prune.styleDocuments.modify q.key _).get? key = _ ∨
      _ ∧ ∃ _, _ ∧ (s.prune.styleDocuments.modify q.key _).get? key = _
    by_cases hk : q.key = key
    · exact .inr ⟨hk.symm, g, hr, by rw [Table.get?_modify, if_pos hk]⟩
    · exact .inl (by rw [Table.get?_modify, if_neg hk])
  | definitions _ _ ho => rw [ho]; exact .inl rfl

/-- **After a change has been handled, its document is loaded as it is**, if the session has to do
with it. -/
theorem hasLoaded (h : s.Changes w p s')
    (hs : s'.styleDocuments.contains p.key = true ∨ s'.documents.contains p.key = true) :
    s'.HasLoaded w p := by
  have L := Leaves.prune s
  unfold HasLoaded
  cases h with
  | ignored hstyles hd =>
    rw [L.styleDocuments_eq, hstyles, hd] at hs
    exact (hs.elim Bool.false_ne_true Bool.false_ne_true).elim
  | @refused e hr =>
    have hw : ((s.prune.report p e).markBroken p).styleDocuments = s.styleDocuments :=
      L.styleDocuments_eq
    rw [hw]
    cases hw : s.styleDocuments.get? p.key with
    | none =>
      rw [Table.contains, hw, Option.isSome_none, if_neg Bool.false_ne_true] at hr
      rw [hr]
      exact List.mem_insert_self
    | some watch =>
      rw [Table.contains, hw, Option.isSome_some, if_pos rfl] at hr
      rw [hr]
      exact List.mem_insert_self
  | @styles _ watch g hwatch hr ho =>
    have hw : s'.styleDocuments.get? p.key = some { watch with group := some g.name } := by
      rw [ho]
      change (s.prune.styleDocuments.modify p.key _).get? p.key = _
      rw [Table.get?_modify, if_pos rfl, L.styleDocuments_eq, hwatch]
      rfl
    rw [hw, hr, ho]
    refine ⟨rfl, ?_, ?_⟩
    · exact (StyleSheets.get?_insert _ _ _).trans (if_pos rfl)
    · exact fun hm => by simpa using (List.mem_filter.1 hm).2
  | @definitions _ d hstyles hr ho =>
    have hw : s'.styleDocuments.get? p.key = none := by
      rw [ho]
      change s.prune.styleDocuments.get? p.key = none
      rw [L.styleDocuments_eq]
      exact Option.not_isSome_iff_eq_none.1 (Bool.eq_false_iff.1 hstyles)
    rw [hw, hr, ho]
    exact ⟨DefinitionStore.holds_insertDocument _ _ _,
      fun hm => by simpa using (List.mem_filter.1 hm).2⟩

/-- Another document stays broken or sound, unless it goes with its last root. -/
lemma mem_broken (h : s.Changes w q s') {key : PathKey} (hne : key ≠ q.key)
    (hk : s.documents.contains key = true → s'.documents.contains key = true) :
    key ∈ s'.broken ↔ key ∈ s.broken := by
  rw [h.documents_eq] at hk
  rw [← (Leaves.prune s).broken key hk]
  cases h with
  | ignored => rfl
  | refused =>
    change key ∈ s.prune.broken.insert q.key ↔ _
    rw [List.mem_insert_iff, or_iff_right hne]
  | styles _ _ ho =>
    rw [ho]
    change key ∈ s.prune.broken.filter (· ≠ q.key) ↔ _
    simp [hne]
  | definitions _ _ ho =>
    rw [ho]
    change key ∈ s.prune.broken.filter (· ≠ q.key) ↔ _
    simp [hne]

/-- What is held for another document stays if the changed one declares none of its types. -/
lemma held? (h : s.Changes w q s') (hs : s.definitions.Sound) (hne : p.key ≠ q.key)
    (hk : s.documents.contains p.key = true → s'.documents.contains p.key = true)
    (hd : ∀ d, w.readDefinition q = .ok d →
      ∀ nested ∈ d.definitions, s.definitions.held? p nested.typeName = none) (name : String) :
    s'.definitions.held? p name = s.definitions.held? p name := by
  have L := Leaves.prune s
  rw [h.documents_eq] at hk
  have kept := L.held hs p hk
  rw [← kept]
  cases h with
  | ignored => rfl
  | refused => rfl
  | styles _ _ ho =>
    rw [ho]
    exact DefinitionStore.held?_renewAll _ p name
  | definitions _ hr ho =>
    rw [ho]
    exact DefinitionStore.held?_insertDocument (L.sound hs) hne
      (fun nested hn => (kept _).trans (hd _ hr nested hn)) name

/-- A group stays as it is if the changed document neither held nor holds one of its name. -/
lemma get?_sheets (h : s.Changes w q s') {name : String}
    (hn : ∀ watch, s.styleDocuments.get? q.key = some watch →
      watch.group ≠ some name ∧ ∀ g, w.readStyles q = .ok g → g.name ≠ name) :
    s'.sheets.get? name = s.sheets.get? name := by
  rw [← (Leaves.prune s).sheets_eq]
  cases h with
  | ignored => rfl
  | refused => rfl
  | @styles _ watch g hwatch hr ho =>
    obtain ⟨hgroup, hname⟩ := hn watch hwatch
    rw [ho]
    change ((dropRenamed s.prune.sheets watch.group g.name).insert g).get? name = _
    rw [StyleSheets.get?_insert, if_neg (hname g hr), get?_dropRenamed hgroup]
  | definitions _ _ ho => rw [ho]; rfl

end Changes

/-- The handling of a change does not concern what is loaded from another document: the two do not hold
groups or definitions of one name, and the other one does not go as a document of roots. -/
structure Spares (s : Session H) (w : World) (p q : Path) (s' : Session H) : Prop where
  /-- The changed document is another one. -/
  key_ne : p.key ≠ q.key
  /-- Roots that are bound to the document do not all leave. -/
  contains_documents : s.documents.contains p.key = true → s'.documents.contains p.key = true
  /-- The changed document neither held nor holds a group of the same name. -/
  group_ne : ∀ watch name, (s.styleDocuments.get? p.key).bind (·.group) = some name →
    s.styleDocuments.get? q.key = some watch →
      watch.group ≠ some name ∧ ∀ g, w.readStyles q = .ok g → g.name ≠ name
  /-- It declares no type that is held for the other one, if this is no document of shared styles. -/
  types_ne : s.styleDocuments.contains p.key = false → s.definitions.Sound ∧
    ∀ d, w.readDefinition q = .ok d →
      ∀ nested ∈ d.definitions, s.definitions.held? p nested.typeName = none

/-- **Handling a change that spares another document** leaves what is loaded from it as it is. -/
theorem HasLoaded.of_spares (hl : s.HasLoaded w p) (h : s.Changes w q s')
    (hp : s.Spares w p q s') : s'.HasLoaded w p := by
  have hw : s'.styleDocuments.get? p.key = s.styleDocuments.get? p.key :=
    (h.get?_styleDocuments p.key).resolve_right fun hk => hp.key_ne hk.1
  have hb := h.mem_broken hp.key_ne hp.contains_documents
  unfold HasLoaded at hl ⊢
  rw [hw]
  cases hwatch : s.styleDocuments.get? p.key with
  | none =>
    rw [hwatch] at hl
    cases hr : w.readDefinition p with
    | error e =>
      rw [hr] at hl
      exact hb.2 hl
    | ok d =>
      rw [hr] at hl
      obtain ⟨hs, hd⟩ := hp.types_ne (by rw [Table.contains, hwatch]; rfl)
      exact ⟨fun name => (h.held? hs hp.key_ne hp.contains_documents hd name).trans (hl.1 name),
        fun hm => hl.2 (hb.1 hm)⟩
  | some watch =>
    rw [hwatch] at hl
    cases hr : w.readStyles p with
    | error e =>
      rw [hr] at hl
      exact hb.2 hl
    | ok g =>
      rw [hr] at hl
      obtain ⟨hgroup, hget, hbroken⟩ := hl
      refine ⟨hgroup, ?_, fun hm => hbroken (hb.1 hm)⟩
      rw [← hget]
      exact h.get?_sheets fun watch' hw' =>
        hp.group_ne watch' g.name (by rw [hwatch]; exact hgroup) hw'

end Session

end ViewMarkup
