import ViewMarkup.Proofs.Session.Loading

/-!
# The shared groups that are installed

The group of a document of shared styles is installed under its own name. When a document is loaded
with another name than before, the group of the former name goes, whichever document it came from.
So two documents that hold groups of one name are not kept apart: when one of them gives the name
up, no group of that name is installed until a document is loaded with it again.

## Main definitions

* `StyleHistory`, `Session.RemembersStyles` — what the requests so far tell about shared styles.
* `Session.Installs` — the groups that are installed are those that the history tells of.

## Main statements

* `Session.Installs.load` — what loading a document of shared styles does to all groups.
* `Session.mem_names_iff` — which groups are installed.
-/

namespace ViewMarkup

variable {H : Type}

/-- What is known of the documents of shared styles that were loaded. -/
structure StyleHistory where
  /-- The group that a document held when it was last read. -/
  latest? : PathKey → Option StyleGroup := fun _ => none
  /-- A document has given up a name, and no document was loaded with the name since. -/
  GivenUp : String → Prop := fun _ => False

/-- A document of shared styles has been loaded. -/
def StyleHistory.load (r : StyleHistory) (e : PathKey × StyleGroup) : StyleHistory where
  latest? key := if key = e.1 then some e.2 else r.latest? key
  GivenUp name :=
    e.2.name ≠ name ∧ (r.GivenUp name ∨ (r.latest? e.1).map (·.name) = some name)

/-- What has been loaded last from a document is the latest there. -/
lemma StyleHistory.latest?_load_self (r : StyleHistory) (key : PathKey) (g : StyleGroup) :
    (r.load (key, g)).latest? key = some g := if_pos rfl

/-- Loading a document changes nothing about another one. -/
lemma StyleHistory.latest?_load_of_ne (r : StyleHistory) {key key' : PathKey} (g : StyleGroup)
    (h : key' ≠ key) : (r.load (key, g)).latest? key' = r.latest? key' := if_neg h

/-- The names of the sheets are those of their groups. -/
lemma StyleSheets.mem_names_iff_isSome {s : StyleSheets} {name : String} :
    name ∈ s.names ↔ (s.get? name).isSome = true := by
  rw [names, List.mem_map, get?, List.find?_isSome]
  simp only [decide_eq_true_eq]

namespace Session

variable {s s' : Session H} {r : StyleHistory}

/-- The document of shared styles that is loaded in the course of a request, with its group. -/
def loadedStyles? (s : Session H) : SessionRequest H → Option (PathKey × StyleGroup)
  | .handle w path =>
      if s.styleDocuments.contains path.key then
        (w.readStyles path).toOption.map fun g => (path.key, g)
      else none
  | .watchStyles w path =>
      if s.styleDocuments.contains path.key then none
      else
        (s.startWatcher w path).toOption.bind fun _ =>
          (w.readStyles path).toOption.map fun g => (path.key, g)
  | _ => none

/-- **A session came about by requests**, and this is what they tell about shared styles. -/
inductive RemembersStyles [Widget H] : Session H → StyleHistory → Prop where
  /-- A new session. -/
  | new (settings : Settings) (capabilities : Capabilities H) :
      RemembersStyles { settings, capabilities } {}
  /-- One more request, which may load a document. -/
  | serve {s : Session H} {r : StyleHistory} (request : SessionRequest H) : RemembersStyles s r →
      RemembersStyles (s.serve request).2 ((s.loadedStyles? request).elim r r.load)

/-- The groups that are installed are those that a history tells of. -/
structure Installs (s : Session H) (r : StyleHistory) : Prop where
  /-- The name that is noted for a document is that of the group that it was last loaded with. -/
  group_eq : ∀ key, (s.styleDocuments.get? key).bind (·.group) = (r.latest? key).map (·.name)
  /-- An installed group is that of a document as it was last loaded. -/
  installed : ∀ name g, s.sheets.get? name = some g → ∃ key, r.latest? key = some g ∧ g.name = name
  /-- A name that was given up has no group. -/
  givenUp : ∀ name, r.GivenUp name → s.sheets.get? name = none
  /-- Every other name of a loaded group has one. -/
  provided : ∀ key g, r.latest? key = some g → ¬ r.GivenUp g.name →
    (s.sheets.get? g.name).isSome = true

/-! ### Loading a document of shared styles -/

/-- After a group was stored, the one that its document held before is gone, unless it has the name. -/
lemma get?_dropRenamed_insert (sheets : StyleSheets) (previous : Option String) (g : StyleGroup)
    (name : String) :
    ((dropRenamed sheets previous g.name).insert g).get? name =
      if g.name = name then some g else if previous = some name then none
        else sheets.get? name := by
  rw [StyleSheets.get?_insert]
  split
  · rfl
  · next hn =>
    split
    · next hp => rw [hp, dropRenamed, if_neg (Ne.symm hn), StyleSheets.get?_erase, if_pos rfl]
    · next hp => exact get?_dropRenamed hp

namespace Installs

/-- **What loading a document of shared styles does to all groups**: its own is installed, the one
of its former name goes, and the others stay.

**Proof sketch.** A group other than that of the document is left in place exactly if its name is
not the former one of the document. If it stays, it belongs to another document, which still holds
it; if it goes, its name has just been given up. -/
theorem load (h : s.Installs r) {key : PathKey} {watch : StyleWatch} {g : StyleGroup}
    (hwatch : s.styleDocuments.get? key = some watch)
    (hsheets : s'.sheets = (dropRenamed s.sheets watch.group g.name).insert g)
    (hdocuments : s'.styleDocuments =
      s.styleDocuments.modify key fun watch => { watch with group := some g.name }) :
    s'.Installs (r.load (key, g)) := by
  have former : watch.group = (r.latest? key).map (·.name) := by
    rw [← h.group_eq, hwatch, Option.bind_some]
  refine ⟨fun key' => ?_, fun name g' hg => ?_, fun name hn => ?_, fun key' g' hl hn => ?_⟩
  · rw [hdocuments, Table.get?_modify]
    by_cases hk : key = key'
    · rw [if_pos hk, ← hk, hwatch, r.latest?_load_self]
      rfl
    · rw [if_neg hk, h.group_eq, r.latest?_load_of_ne g (Ne.symm hk)]
  · rw [hsheets, get?_dropRenamed_insert] at hg
    split at hg
    · next hname =>
      cases hg
      exact ⟨key, r.latest?_load_self key g, hname⟩
    · split at hg
      · cases hg
      · next hformer =>
        obtain ⟨key', hl, hname⟩ := h.installed name g' hg
        refine ⟨key', (r.latest?_load_of_ne g ?_).trans hl, hname⟩
        rintro rfl
        exact hformer (by rw [former, hl, Option.map_some, hname])
  · rw [hsheets, get?_dropRenamed_insert, if_neg hn.1, former]
    split
    · rfl
    · next hformer => exact h.givenUp name (hn.2.resolve_right hformer)
  · rw [hsheets, get?_dropRenamed_insert]
    split
    · rfl
    · next hne =>
      have hk : key' ≠ key := by
        rintro rfl
        cases (r.latest?_load_self key' g).symm.trans hl
        exact hne rfl
      have hn' := not_or.1 fun ho => hn ⟨hne, ho⟩
      rw [former, if_neg hn'.2]
      exact h.provided key' g' ((r.latest?_load_of_ne g hk).symm.trans hl) hn'.1

/-- What a session installs depends on its sheets and style documents alone. -/
lemma congr (h : s.Installs r) (hsheets : s'.sheets = s.sheets)
    (hdocuments : s'.styleDocuments = s.styleDocuments) : s'.Installs r where
  group_eq key := hdocuments ▸ h.group_eq key
  installed name g hg := h.installed name g (hsheets ▸ hg)
  givenUp name hn := hsheets ▸ h.givenUp name hn
  provided key g hl hn := hsheets ▸ h.provided key g hl hn

end Installs

/-! ### Requests -/

/-- Watching another document of shared styles changes no group. -/
lemma Installs.watch (h : s.Installs r) {path : Path} (watcher : Option Watcher)
    (hnew : s.styleDocuments.contains path.key = false) :
    Installs { s with styleDocuments := s.styleDocuments.insert path.key { path, watcher } } r where
  group_eq key := by
    change ((s.styleDocuments.insert path.key _).get? key).bind _ = _
    rw [Table.get?_insert]
    split
    · next hk =>
      rw [← h.group_eq, ← hk, Option.not_isSome_iff_eq_none.1 (Bool.eq_false_iff.1 hnew)]
      rfl
    · exact h.group_eq key
  installed := h.installed
  givenUp := h.givenUp
  provided := h.provided

/-- The handling of a change loads at most its own document. -/
lemma Installs.changes (h : s.Installs r) {w : World} {path : Path} (hc : s.Changes w path s') :
    s'.Installs ((s.loadedStyles? (.handle w path)).elim r r.load) := by
  have L := Leaves.prune s
  have hp : s.prune.Installs r := h.congr L.sheets_eq L.styleDocuments_eq
  rw [loadedStyles?]
  cases hc with
  | ignored hs => rw [hs]; exact hp
  | @refused e he =>
    have hnone : (if s.styleDocuments.contains path.key = true then
        (w.readStyles path).toOption.map fun g => (path.key, g) else none) = none := by
      split
      · next hs => rw [if_pos hs] at he; rw [he]; rfl
      · rfl
    rw [hnone]
    exact hp.congr rfl rfl
  | @styles _ watch g hwatch hr ho =>
    have hs : s.styleDocuments.contains path.key = true :=
      Option.isSome_iff_exists.2 ⟨watch, hwatch⟩
    rw [hs, hr]
    rw [← L.styleDocuments_eq] at hwatch
    exact hp.load hwatch (by rw [ho]; rfl) (by rw [ho]; rfl)
  | definitions hs _ ho => rw [hs]; exact hp.congr (by rw [ho]; rfl) (by rw [ho]; rfl)

/-- Registering a root leaves the styles as they are. -/
lemma styles_register (s : Session H) (w : World) (b : Binding) (path? : Option Path) :
    (s.register w b path?).2.sheets = s.sheets ∧
      (s.register w b path?).2.styleDocuments = s.styleDocuments := by
  rw [register_only]
  exact ⟨rfl, rfl⟩

/-- So does a search. -/
lemma styles_discover (s : Session H) (w : World) (dir : Path) :
    (s.discover w dir).2.sheets = s.sheets ∧
      (s.discover w dir).2.styleDocuments = s.styleDocuments := by
  rw [discover_only]
  exact ⟨rfl, rfl⟩

variable [Widget H]

/-- So does making a component. -/
lemma styles_instantiate (s : Session H) (w : World) (typeName : String) :
    (s.instantiate w typeName).2.sheets = s.sheets ∧
      (s.instantiate w typeName).2.styleDocuments = s.styleDocuments := by
  refine instantiate_induction (P := fun s' => s'.sheets = s.sheets ∧
    s'.styleDocuments = s.styleDocuments) w typeName ⟨rfl, rfl⟩ (fun _ _ h => h)
    (fun s' b h => ?register) (fun s' id _ _ h => ?applyRoot) (fun s' id h => ?unregister)
    fun _ _ h => h
  case register =>
    obtain ⟨hsheets, hdocuments⟩ := s'.styles_register w b none
    exact ⟨hsheets.trans h.1, hdocuments.trans h.2⟩
  case applyRoot =>
    rw [(s'.applyRoot_tries id).1.only]
    exact h
  case unregister =>
    rw [unregister_only]
    exact h

/-- **What a request does to the installed groups**, besides loading a document. -/
theorem Installs.serve (h : s.Installs r) (request : SessionRequest H) :
    (s.serve request).2.Installs ((s.loadedStyles? request).elim r r.load) := by
  cases request with
  | register w b path? =>
    obtain ⟨hsheets, hdocuments⟩ := s.styles_register w b path?
    exact h.congr hsheets hdocuments
  | unregister id =>
    have L := Leaves.unregister s id
    exact h.congr L.sheets_eq L.styleDocuments_eq
  | discover w dir =>
    obtain ⟨hsheets, hdocuments⟩ := s.styles_discover w dir
    exact h.congr hsheets hdocuments
  | instantiate w typeName =>
    obtain ⟨hsheets, hdocuments⟩ := s.styles_instantiate w typeName
    exact h.congr hsheets hdocuments
  | edit tree => exact h.congr rfl rfl
  | provide capabilities => exact h.congr rfl rfl
  | handle w path => exact h.changes (s.handle_changes w path)
  | watchStyles w path =>
    rw [loadedStyles?]
    change (s.watchStyles w path).2.Installs _
    unfold watchStyles
    cases hc : s.styleDocuments.contains path.key with
    | true => exact h
    | false =>
      rw [if_neg Bool.false_ne_true, if_neg Bool.false_ne_true]
      cases s.startWatcher w path with
      | error e => exact h.congr rfl rfl
      | ok watcher =>
        have hl := (h.watch watcher hc).changes (handle_changes _ w path)
        rwa [loadedStyles?, Table.contains, Table.get?_insert, if_pos rfl, Option.isSome_some,
          if_pos rfl] at hl

/-- The groups that are remembered are installed. -/
lemma RemembersStyles.installs (h : s.RemembersStyles r) : s.Installs r := by
  induction h with
  | new settings capabilities =>
    exact ⟨fun _ => rfl, fun _ _ hg => (by cases hg), fun _ hn => hn.elim, fun _ _ hl => (by cases hl)⟩
  | serve request _ ih => exact ih.serve request

/-- **Which groups are installed.** In every session that requests lead to, a group of a name is
installed exactly if some watched document was last loaded with a group of that name, unless a
document has given the name up and none was loaded with it since. What is installed is the group of
a watched document as it was last loaded.

**Proof sketch.** Loading a document installs its group and removes the one of its former name
(`Installs.load`), and nothing else touches a group. -/
theorem mem_names_iff (h : s.RemembersStyles r) :
    (∀ name, name ∈ s.sheets.names ↔
      (∃ key watch g, s.styleDocuments.get? key = some watch ∧ r.latest? key = some g ∧
        g.name = name) ∧ ¬ r.GivenUp name) ∧
    ∀ name g, s.sheets.get? name = some g → ∃ key watch,
      s.styleDocuments.get? key = some watch ∧ r.latest? key = some g := by
  have I := h.installs
  have watched : ∀ {key g}, r.latest? key = some g →
      ∃ watch, s.styleDocuments.get? key = some watch := by
    intro key g hl
    have he := I.group_eq key
    rw [hl, Option.map_some] at he
    obtain ⟨watch, hwatch, -⟩ := Option.bind_eq_some_iff.1 he
    exact ⟨watch, hwatch⟩
  refine ⟨fun name => ?_, fun name g hg => ?_⟩
  · rw [StyleSheets.mem_names_iff_isSome]
    constructor
    · intro hi
      obtain ⟨g, hg⟩ := Option.isSome_iff_exists.1 hi
      obtain ⟨key, hl, hname⟩ := I.installed name g hg
      obtain ⟨watch, hwatch⟩ := watched hl
      refine ⟨⟨key, watch, g, hwatch, hl, hname⟩, fun hn => ?_⟩
      rw [I.givenUp name hn] at hg
      cases hg
    · rintro ⟨⟨key, watch, g, hwatch, hl, rfl⟩, hn⟩
      exact I.provided key g hl hn
  · obtain ⟨key, hl, -⟩ := I.installed name g hg
    obtain ⟨watch, hwatch⟩ := watched hl
    exact ⟨key, watch, hwatch, hl⟩

/-- Two documents of shared styles, the first with a group of the given name. -/
def twinSheets (name : String) : World where
  files := { entries := ⟨[(["a"], .file ("<styleGroup name=\"" ++ name ++ "\"/>").toUTF8 0),
    (["b"], .file "<styleGroup name=\"G\"/>".toUTF8 0)]⟩ }
  runsWatchers := true

/-- A session that has loaded both when their groups have one name. -/
def twinStyles : Session Empty :=
  let fresh : Session Empty := { settings := {}, capabilities := {} }
  ((fresh.serve (.watchStyles (twinSheets "G") ⟨"a"⟩)).2.serve
    (.watchStyles (twinSheets "G") ⟨"b"⟩)).2

/-- The first document of the pair holds the group that it is given. -/
lemma readStyles_twinSheets_a {name text : String}
    (ht : "<styleGroup name=\"" ++ name ++ "\"/>" = text)
    (hg : StyleGroup.ofText text = .ok ⟨name, []⟩) :
    (twinSheets name).readStyles ⟨"a"⟩ = .ok ⟨name, []⟩ :=
  World.readStyles_eq_ok (Directory.read_eq_ok (l := .inside ["a"]) rfl rfl) (ht ▸ hg)

/-- A group without styles is read. -/
lemma ofText_emptyGroup : StyleGroup.ofText "<styleGroup name=\"G\"/>" = .ok ⟨"G", []⟩ := by
  rw [StyleGroup.ofText_ofList]
  cbv

/-- The second document of the pair holds the group `G`. -/
lemma readStyles_twinSheets_b (name : String) :
    (twinSheets name).readStyles ⟨"b"⟩ = .ok ⟨"G", []⟩ :=
  World.readStyles_eq_ok (Directory.read_eq_ok (l := .inside ["b"]) rfl rfl) ofText_emptyGroup

/-- A document of shared styles that can be read is loaded when it begins to be watched. -/
lemma watchStyles_eq_ok {w : World} {p : Path} {watcher : Option Watcher} {g : StyleGroup}
    (hn : s.styleDocuments.contains p.key = false) (hw : s.startWatcher w p = .ok watcher)
    (hg : w.readStyles p = .ok g) :
    let watched := { s with styleDocuments := s.styleDocuments.insert p.key { path := p, watcher } }
    s.watchStyles w p = (.ok (), (((watched.prune.storeStyles
      ((watched.prune.styleDocuments.get? p.key).bind (·.group)) g p).markSound p).reapply p).2) := by
  intro watched
  have hs : watched.styleDocuments.contains p.key = true := by
    rw [Table.contains, Table.get?_insert, if_pos rfl, Option.isSome_some]
  rw [watchStyles, hn, if_neg Bool.false_ne_true, hw, ← handle_of_load?_eq_ok (load?_styles hs hg)]

/-- The session after the first document was watched. -/
lemma watchStyles_twinSheets : (({ settings := {}, capabilities := {} } : Session Empty).watchStyles
      (twinSheets "G") ⟨"a"⟩).2 =
    { settings := {}, capabilities := {}
      sheets := ⟨[⟨"G", []⟩]⟩
      styleDocuments := ⟨[((Path.mk "a").key,
        { path := ⟨"a"⟩, watcher := some { path := ⟨"a"⟩, interval := 250 }
          group := some "G" })]⟩ } := by
  rw [watchStyles_eq_ok rfl rfl (readStyles_twinSheets_a (by decide) ofText_emptyGroup)]
  cbv

/-- The session after both documents were watched. -/
lemma twinStyles_eq : twinStyles =
    { settings := {}, capabilities := {}
      sheets := ⟨[⟨"G", []⟩]⟩
      styleDocuments := ⟨["a", "b"].map fun file => ((Path.mk file).key,
        { path := ⟨file⟩, watcher := some { path := ⟨file⟩, interval := 250 }
          group := some "G" })⟩ } := by
  change ((Session.watchStyles _ _ _).2.watchStyles _ _).2 = _
  rw [watchStyles_twinSheets, watchStyles_eq_ok (by decide) rfl (readStyles_twinSheets_b "G")]
  cbv

/-- What is known of the two documents then. -/
lemma remembersStyles_twinStyles : twinStyles.RemembersStyles
    ((({} : StyleHistory).load ((Path.mk "a").key, ⟨"G", []⟩)).load
      ((Path.mk "b").key, ⟨"G", []⟩)) := by
  have fresh : RemembersStyles ({ settings := {}, capabilities := {} } : Session Empty) {} :=
    .new {} {}
  have hs := fresh.serve (.watchStyles (twinSheets "G") ⟨"a"⟩)
  have ha : ({ settings := {}, capabilities := {} } : Session Empty).loadedStyles?
      (.watchStyles (twinSheets "G") ⟨"a"⟩) = some ((Path.mk "a").key, ⟨"G", []⟩) := by
    rw [loadedStyles?, readStyles_twinSheets_a (by decide) ofText_emptyGroup]
    rfl
  rw [ha] at hs
  have hs' := hs.serve (.watchStyles (twinSheets "G") ⟨"b"⟩)
  have hb : (({ settings := {}, capabilities := {} } : Session Empty).serve
      (.watchStyles (twinSheets "G") ⟨"a"⟩)).2.loadedStyles?
      (.watchStyles (twinSheets "G") ⟨"b"⟩) = some ((Path.mk "b").key, ⟨"G", []⟩) := by
    change loadedStyles? (Session.watchStyles _ _ _).2 _ = _
    rw [watchStyles_twinSheets, loadedStyles?, readStyles_twinSheets_b]
    decide
  rw [hb] at hs'
  exact hs'

/-- The group that both hold is installed. -/
theorem mem_names_twinStyles : "G" ∈ twinStyles.sheets.names := by
  obtain ⟨watch, hwatch⟩ :
      ∃ watch, twinStyles.styleDocuments.get? (Path.mk "b").key = some watch := by
    rw [twinStyles_eq]
    exact ⟨_, rfl⟩
  exact ((mem_names_iff remembersStyles_twinStyles).1 "G").2
    ⟨⟨_, watch, _, hwatch, StyleHistory.latest?_load_self _ _ _, rfl⟩, fun hn => hn.1 rfl⟩

/-- **A group may be missing that a watched document holds.** When one of two documents that hold
groups of one name is loaded with another name, neither has a group of the former name installed,
though the other one was last loaded with it and still reads so. -/
theorem not_mem_names_twinStyles :
    let s := (twinStyles.serve (.handle (twinSheets "H") ⟨"a"⟩)).2
    (∃ r, s.RemembersStyles r ∧ r.latest? (Path.mk "b").key = some ⟨"G", []⟩) ∧
      (s.styleDocuments.get? (Path.mk "b").key).bind (·.group) = some "G" ∧
      (twinSheets "H").readStyles ⟨"b"⟩ = .ok ⟨"G", []⟩ ∧ "G" ∉ s.sheets.names := by
  have ha : twinStyles.loadedStyles? (.handle (twinSheets "H") ⟨"a"⟩) =
      some ((Path.mk "a").key, ⟨"H", []⟩) := by
    have renamed : StyleGroup.ofText "<styleGroup name=\"H\"/>" = .ok ⟨"H", []⟩ := by
      rw [StyleGroup.ofText_ofList]
      cbv
    rw [twinStyles_eq, loadedStyles?, readStyles_twinSheets_a (by decide) renamed]
    rfl
  have hs := remembersStyles_twinStyles.serve (.handle (twinSheets "H") ⟨"a"⟩)
  rw [ha, Option.elim_some] at hs
  have hb := StyleHistory.latest?_load_self (({} : StyleHistory).load ((Path.mk "a").key, ⟨"G", []⟩))
    (Path.mk "b").key ⟨"G", []⟩
  rw [← StyleHistory.latest?_load_of_ne _ ⟨"H", []⟩
    (show (Path.mk "b").key ≠ (Path.mk "a").key by decide)] at hb
  refine ⟨⟨_, hs, hb⟩, (hs.installs.group_eq _).trans (congrArg _ hb), readStyles_twinSheets_b "H",
    fun hm => ?_⟩
  rw [StyleSheets.mem_names_iff_isSome, hs.installs.givenUp "G" ⟨by decide, .inr rfl⟩] at hm
  cases hm

end Session

end ViewMarkup
