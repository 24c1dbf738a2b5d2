import ViewMarkup.Proofs.Fallible
import ViewMarkup.Proofs.Session.Bookkeeping
import ViewMarkup.Proofs.Session.Searching

/-!
# Documents that are found again

A document comes into a session in two ways: a search finds it, or a change of it is handled. The
latter first takes away all that was read from the path before. A search does not, but stores the
definitions of the document one by one. So a type that an edited document does not define any more
stays when the document is found again, with the definition that an older version had for it.

## Main definitions

* `Directory.follow` — a step along a part of a path, so that spellings can be compared.
* `Definition.last?` — the definition of a type that a document leaves behind.

## Main statements

* `World.readDefinition_unique` — two spellings of a path do not lead to different documents.
* `Session.held?_discover` — what a path holds after a search, and when it is the same as after
  a change was handled.
-/

namespace ViewMarkup

/-! ### Spellings of a path -/

namespace Directory

variable {dir : Directory} {l l' : Location}

/-- A step along one part of a path. -/
def follow (dir : Directory) (l : Location) : PathPart → Except FileFault Location
  | .top | .here => .ok l
  | .above => dir.step l ['.', '.']
  | .name text => dir.step l text.toList

/-- A step that succeeds is one along the part that the text between two slashes is, if it is one. -/
lemma follow_of_step {piece : List Char} (h : dir.step l piece = .ok l') :
    (PathPart.ofPiece? piece).toList.foldlM dir.follow l = .ok l' := by
  have alone : ∀ part, [part].foldlM dir.follow l = dir.follow l part := fun part => by
    rw [List.foldlM_cons]
    cases dir.follow l part <;> rfl
  unfold PathPart.ofPiece?
  split
  · unfold step at h
    split at h <;> first | exact h | cases h
  · unfold step at h
    split at h <;> first | exact h | cases h
  · rw [Option.toList_some, alone]
    exact h
  · rw [Option.toList_some, alone, follow, String.toList_ofList]
    exact h

/-- A path is followed piece by piece. -/
lemma foldlM_follow {pieces : List (List Char)} (h : pieces.foldlM dir.step l = .ok l') :
    (pieces.filterMap PathPart.ofPiece?).foldlM dir.follow l = .ok l' := by
  induction pieces generalizing l with
  | nil => exact h
  | cons piece pieces ih =>
    rw [List.foldlM_cons] at h
    obtain ⟨next, hstep, hrest⟩ := Except.bind_eq_ok.1 h
    have first := follow_of_step hstep
    rw [List.filterMap_cons]
    cases hp : PathPart.ofPiece? piece with
    | none =>
      rw [hp] at first
      cases first
      exact ih hrest
    | some part =>
      rw [hp, Option.toList_some, List.foldlM_cons] at first
      obtain ⟨_, hfollow, hnil⟩ := Except.bind_eq_ok.1 first
      cases hnil
      exact Except.bind_eq_ok.2 ⟨_, hfollow, ih hrest⟩

end Directory

/-- Where the way along the parts of a path starts. -/
def PathKey.start : PathKey → Location
  | .top :: _ => .outside
  | _ => .inside []

/-- A piece of a path never leads to the top. -/
lemma PathPart.ofPiece?_ne_top (piece : List Char) : PathPart.ofPiece? piece ≠ some .top := by
  unfold PathPart.ofPiece?
  split <;> simp

/-- What stands between slashes is never the slash at the beginning. -/
lemma PathKey.start_filterMap (pieces : List (List Char)) :
    PathKey.start (pieces.filterMap PathPart.ofPiece?) = .inside [] := by
  cases hparts : pieces.filterMap PathPart.ofPiece? with
  | nil => rfl
  | cons part parts =>
    obtain ⟨piece, -, hpiece⟩ := List.mem_filterMap.1 (hparts ▸ List.mem_cons_self)
    cases part with
    | top => exact (PathPart.ofPiece?_ne_top piece hpiece).elim
    | here | above | name => rfl

namespace Path

variable {p : Path}

/-- Only the empty spelling has no text before or after a slash. -/
lemma isEmpty_of_pieces (h : p.pieces = [[]]) : p.spelling.isEmpty = true := by
  rw [pieces] at h
  cases hc : p.spelling.toList with
  | nil => rw [String.isEmpty_iff, ← String.toList_inj, hc]; rfl
  | cons c cs =>
    rw [hc, Text.pieces] at h
    have hne := Text.pieces_ne_nil (· = '/') cs
    split at h
    · exact (hne (List.cons.inj h).2).elim
    · split at h
      · next hnil => exact (hne hnil).elim
      · cases h

end Path

namespace Directory

variable {dir : Directory} {p q : Path} {l l' : Location}

/-- **Where a path leads is told by its parts**, if it leads anywhere. -/
theorem follow_of_resolve (h : dir.resolve p = .ok l) :
    p.key.foldlM dir.follow (PathKey.start p.key) = .ok l := by
  unfold resolve at h
  split at h
  · cases h
  next hfault =>
  have follows := fun start (h : p.pieces.foldlM dir.step start = .ok l) => foldlM_follow h
  unfold Path.steps Path.start at h
  unfold Path.key
  split
  · next rest hp =>
    simp only [hp] at h
    split
    · next hempty =>
      rw [List.isEmpty_iff.1 hempty] at hp
      simp only [Path.fault?, Path.isEmpty_of_pieces hp, if_true] at hfault
      split at hfault <;> cases hfault
    · exact foldlM_follow h
  · next rest hp =>
    simp only [hp] at h follows
    exact follows _ h
  · next hne _ =>
    split at h
    · next hp => exact (hne _ hp).elim
    · rw [PathKey.start_filterMap]
      exact follows _ h

/-- Two spellings of a path do not lead to different places. -/
lemma resolve_unique (hk : p.key = q.key) (hp : dir.resolve p = .ok l)
    (hq : dir.resolve q = .ok l') : l = l' := by
  have h := follow_of_resolve hp
  rw [hk, follow_of_resolve hq] at h
  exact (Except.ok.inj h).symm

/-- Two spellings of a path do not lead to different texts. -/
lemma read_unique (hk : p.key = q.key) {text text' : String} (hp : dir.read p = .ok text)
    (hq : dir.read q = .ok text') : text = text' := by
  unfold read at hp hq
  cases hl : dir.resolve p with
  | error e =>
    rw [hl] at hp
    cases hp
  | ok l =>
    cases hl' : dir.resolve q with
    | error e =>
      rw [hl'] at hq
      cases hq
    | ok l' =>
      rw [hl] at hp
      rw [hl', ← resolve_unique hk hl hl'] at hq
      exact Except.ok.inj (hp.symm.trans hq)

end Directory

/-- **Two spellings of a path do not lead to different documents.** -/
theorem World.readDefinition_unique {w : World} {p q : Path} (hk : p.key = q.key) {d d' : Definition}
    (hp : w.readDefinition p = .ok d) (hq : w.readDefinition q = .ok d') : d = d' := by
  unfold readDefinition at hp hq
  cases ht : w.files.read p with
  | error e =>
    rw [ht] at hp
    cases hp
  | ok text =>
    cases ht' : w.files.read q with
    | error e =>
      rw [ht'] at hq
      cases hq
    | ok text' =>
      obtain rfl := Directory.read_unique hk ht ht'
      simp only [ht, ht'] at hp hq
      cases hd : Definition.ofText text with
      | error e =>
        rw [hd] at hp
        cases hp
      | ok d₀ =>
        rw [hd] at hp hq
        exact (Except.ok.inj hp).symm.trans (Except.ok.inj hq)

/-! ### What a path holds -/

namespace Definition

/-- The last definition of a type among those in place in a definition. -/
def last? (d : Definition) (name : String) : Option Definition :=
  (d.definitions.filter fun nested => nested.typeName = name).getLast?

/-- A document has a last definition of the types that it declares. -/
lemma last?_eq_none_iff {d : Definition} {name : String} :
    d.last? name = none ↔ name ∉ d.typeNames := by
  rw [last?, List.getLast?_eq_none_iff, List.filter_eq_nil_iff, typeNames, List.mem_map]
  simp

end Definition

namespace DefinitionStore

variable {s : DefinitionStore} {path : Path} {d : Definition} {name : String}

/-- What is held for a path are the definitions of a document, the last one of each type. -/
lemma holds_iff : s.Holds d path ↔ ∀ name, s.held? path name = d.last? name := .rfl

/-- What was read from another path is not held. -/
lemma held?_eq_none {key : PathKey} (ho : s.owner? name = some key) (hne : key ≠ path.key) :
    s.held? path name = none := by
  obtain ⟨e, he, rfl⟩ := Option.map_eq_some_iff.1 ho
  rw [held?, he, Option.filter_some, if_neg (by simpa using hne), Option.map_none]

/-- What a path holds when a document has been stored. -/
lemma held?_store (e : Path × Definition) :
    (s.store e).held? path name =
      if e.1.key = path.key then (e.2.last? name).or (s.held? path name)
      else if name ∈ e.2.typeNames then none else s.held? path name := by
  obtain ⟨p, d⟩ := e
  split
  · next hk =>
    rw [held?_eq_of_key hk.symm, held?_eq_of_key hk.symm]
    exact held?_foldl_insert p d.definitions s name
  · next hk =>
    split
    · next hm => exact held?_eq_none ((owner?_foldl_insert _ _ _ _).trans (if_pos hm)) hk
    · next hm => rw [held?, store, get?_foldl_insert_of_not_mem hm, held?]

/-- **What a path holds when documents have been stored**, of which those of the path are one, and none
of the others defines a type of this one. -/
theorem held?_foldl_store {es : List (Path × Definition)}
    (hsame : ∀ e ∈ es, e.1.key = path.key → e.2 = d)
    (hother : ∀ e ∈ es, e.1.key ≠ path.key → ∀ name ∈ d.typeNames, name ∉ e.2.typeNames) :
    (es.foldl store s).held? path name =
      if name ∈ d.typeNames then
        if ∃ e ∈ es, e.1.key = path.key then d.last? name else s.held? path name
      else if ∃ e ∈ es, name ∈ e.2.typeNames then none else s.held? path name := by
  induction es using List.reverseRecOn with
  | nil => simp
  | append_singleton es e ih =>
    rw [List.forall_mem_append, List.forall_mem_singleton] at hsame hother
    rw [List.foldl_append, List.foldl_cons, List.foldl_nil, held?_store, ih hsame.1 hother.1]
    have keys : (∃ x ∈ es ++ [e], x.1.key = path.key) ↔
        (∃ x ∈ es, x.1.key = path.key) ∨ e.1.key = path.key := by
      simp [or_and_right, exists_or]
    have types : (∃ x ∈ es ++ [e], name ∈ x.2.typeNames) ↔
        (∃ x ∈ es, name ∈ x.2.typeNames) ∨ name ∈ e.2.typeNames := by
      simp [or_and_right, exists_or]
    by_cases hk : e.1.key = path.key
    · obtain rfl := hsame.2 hk
      rw [if_pos hk]
      by_cases hm : name ∈ e.2.typeNames
      · obtain ⟨last, hlast⟩ := Option.ne_none_iff_exists'.1 fun hnone =>
          Definition.last?_eq_none_iff.1 hnone hm
        rw [if_pos hm, if_pos hm, if_pos (keys.2 (.inr hk)), hlast, Option.some_or]
      · rw [if_neg hm, if_neg hm, Definition.last?_eq_none_iff.2 hm, Option.none_or,
          if_congr (types.trans (or_iff_left hm)) rfl rfl]
    · rw [if_neg hk]
      by_cases hm : name ∈ d.typeNames
      · rw [if_pos hm, if_pos hm, if_neg (hother.2 hk name hm),
          if_congr (keys.trans (or_iff_left hk)) rfl rfl]
      · rw [if_neg hm, if_neg hm]
        by_cases hn : name ∈ e.2.typeNames
        · rw [if_pos hn, if_pos (types.2 (.inr hn))]
        · rw [if_neg hn, if_congr (types.trans (or_iff_left hn)) rfl rfl]

end DefinitionStore

/-! ### A search and a change -/

namespace Session

variable {H : Type} {s : Session H} {w : World} {dir path : Path} {d : Definition}

/-- When a change of a document has been handled that a living root is bound to, the document is all
that its path holds. -/
lemma holds_handle [Widget H] (h : s.Arises) {id : RootId} {root : Root}
    (hroot : s.root? id = some root) (hpath : root.path.key = path.key)
    (hstyles : s.styleDocuments.contains path.key = false) (hread : w.readDefinition path = .ok d) :
    (s.handle w path).2.definitions.Holds d path := by
  have hdocument : s.prune.documents.contains path.key = true := by
    have hbound : s.prune.documentOf? id = some path.key := by
      rw [documentOf?, h.tidy.noted.get?_prune, hroot, Option.map_some, hpath]
    exact contains_of_mem_subscribersOf ((h.prune.tidy.subscribed.mem_iff _ _).2 hbound)
  have changes := handle_changes s w path
  generalize (s.handle w path).2 = s' at changes ⊢
  cases changes with
  | ignored _ hd =>
    rw [hdocument] at hd
    cases hd
  | refused hr =>
    rw [hstyles, if_neg Bool.false_ne_true, hread] at hr
    cases hr
  | styles hwatch =>
    rw [Table.contains, hwatch] at hstyles
    cases hstyles
  | definitions _ hr ho =>
    cases hread.symm.trans hr
    rw [ho]
    exact DefinitionStore.holds_insertDocument _ _ _

/-- **What a path holds after a search** that loads its document, if no other document that the search
loads defines a type of this one. Of the types of the document the path holds the definitions that the
document has now. Of every other type it still holds what it held before, if the search has not loaded
another document with the type. After a change of the document has been handled that a living root is
bound to, the path holds the definitions of the document and nothing else. So a search leaves the same
if and only if each type that the path held is still defined, by the document or by another one that the
search loads.

**Proof sketch.** A search stores the definitions of the documents one after the other and takes nothing
away (`definitions_discover`), so that the entry of a type is that of the last document with the type, or
the old one (`DefinitionStore.held?_foldl_store`). -/
theorem held?_discover [Widget H] (hfinds : s.Finds w dir path d)
    (hown : ∀ p d', s.Finds w dir p d' → p.key ≠ path.key → ∀ name ∈ d.typeNames, name ∉ d'.typeNames) :
    (∀ name ∈ d.typeNames, (s.discover w dir).2.definitions.held? path name = d.last? name) ∧
    (∀ name, name ∉ d.typeNames → ∀ e, (s.discover w dir).2.definitions.held? path name = some e ↔
      s.definitions.held? path name = some e ∧
        ∀ p d', s.Finds w dir p d' → name ∉ d'.typeNames) ∧
    (∀ s' : Session H, s'.Arises → ∀ id root, s'.root? id = some root →
      root.path.key = path.key → s'.styleDocuments.contains path.key = false →
        (s'.handle w path).2.definitions.Holds d path) ∧
    ((s.discover w dir).2.definitions.Holds d path ↔
      ∀ name e, s.definitions.held? path name = some e →
        name ∈ d.typeNames ∨ ∃ p d', s.Finds w dir p d' ∧ name ∈ d'.typeNames) := by
  obtain ⟨-, -, -, -, hread, -⟩ := id hfinds
  have same : ∀ e ∈ s.loads (.discover w dir), e.1.key = path.key → e.2 = d := fun e he hk => by
    obtain ⟨-, -, -, -, hread', -⟩ := mem_loads_discover.1 he
    exact World.readDefinition_unique hk hread' hread
  have held : ∀ name, (s.discover w dir).2.definitions.held? path name =
      if name ∈ d.typeNames then
        if ∃ e ∈ s.loads (.discover w dir), e.1.key = path.key then d.last? name
        else s.definitions.held? path name
      else if ∃ e ∈ s.loads (.discover w dir), name ∈ e.2.typeNames then none
      else s.definitions.held? path name := fun name => by
    rw [(definitions_discover s w dir).1]
    exact DefinitionStore.held?_foldl_store same fun e he hk => hown e.1 e.2 (mem_loads_discover.1 he) hk
  have own : ∀ name ∈ d.typeNames,
      (s.discover w dir).2.definitions.held? path name = d.last? name := fun name hm => by
    rw [held, if_pos hm, if_pos ⟨(path, d), mem_loads_discover.2 hfinds, rfl⟩]
  have others : ∀ name, name ∉ d.typeNames → ∀ e,
      (s.discover w dir).2.definitions.held? path name = some e ↔
        s.definitions.held? path name = some e ∧
          ∀ p d', s.Finds w dir p d' → name ∉ d'.typeNames := by
    intro name hm e
    rw [held, if_neg hm]
    split
    · next htaken =>
      obtain ⟨e, hp, hn⟩ := htaken
      exact iff_of_false nofun fun h => h.2 _ _ (mem_loads_discover.1 hp) hn
    · next hfree =>
      refine (and_iff_left fun p d' hp hn => hfree ⟨(p, d'), ?_, hn⟩).symm
      exact mem_loads_discover.2 hp
  refine ⟨own, others, fun s' h id root hroot hpath hstyles =>
    holds_handle h hroot hpath hstyles hread, ?_⟩
  rw [DefinitionStore.holds_iff]
  constructor
  · intro hholds name e he
    by_contra! hnot
    have hstays := (others name hnot.1 e).2 ⟨he, hnot.2⟩
    rw [hholds, Definition.last?_eq_none_iff.2 hnot.1] at hstays
    cases hstays
  · intro hgone name
    by_cases hm : name ∈ d.typeNames
    · exact own name hm
    · rw [Definition.last?_eq_none_iff.2 hm, Option.eq_none_iff_forall_ne_some]
      intro e he
      obtain ⟨hheld, hfree⟩ := (others name hm e).1 he
      obtain hm' | ⟨p, d', hp, hn⟩ := hgone name e hheld
      · exact hm hm'
      · exact hfree p d' hp hn

/-- A component without anything inside. -/
def plainCard : Definition := ⟨"Card", false, false, [], [], []⟩

/-- The directory after the document has been edited. -/
def plainCardDirectory : World where
  files := { entries := ⟨[(["ui"], .directory), (["ui", "card.ui.xml"], .file
    "<Component type=\"Card\"/>".toUTF8 1)]⟩ }
  runsWatchers := false

/-- A session that has found the document with the other component in it. -/
def foundCardWithBadge : Session Empty :=
  (({ settings := {}, capabilities := {} } : Session Empty).discover cardDirectory ⟨"ui"⟩).2

set_option maxRecDepth 4096 in
/-- The search finds the card without a badge. -/
lemma finds_plainCard :
    foundCardWithBadge.Finds plainCardDirectory ⟨"ui"⟩ ⟨"ui/card.ui.xml"⟩ plainCard := by
  have settings : foundCardWithBadge.settings = {} := by
    rw [foundCardWithBadge, (definitions_discover _ _ _).2]
  refine ⟨[⟨"ui/card.ui.xml"⟩], by cbv, List.mem_singleton_self _, ?_, ?_, ?_⟩
  · rw [settings]
    decide
  · refine World.readDefinition_eq_ok
      (Directory.read_eq_ok (l := .inside ["ui", "card.ui.xml"]) rfl rfl) ?_
    rw [Definition.ofText_ofList]
    cbv
  · rw [settings]
    decide

/-- A search finds nothing but the only file that there is. -/
lemma Finds.eq_of_filesBelow {s : Session Empty} {w : World} {dir path p : Path} {d : Definition}
    (h : s.Finds w dir p d) (hfiles : w.files.filesBelow dir = .ok [path]) : p = path := by
  obtain ⟨files, hf, hm, -⟩ := h
  cases hf.symm.trans hfiles
  exact List.mem_singleton.1 hm

/-- What arose before a search has arisen after it. -/
lemma arises_discover {s : Session Empty} (h : s.Arises) (w : World) (dir : Path) :
    (s.discover w dir).2.Arises :=
  h.serve (.discover w dir)

/-- **A type that has vanished from a document** stays when the document is found again. -/
theorem held?_vanishedBadge : foundCardWithBadge.Arises ∧
    foundCardWithBadge.Finds plainCardDirectory ⟨"ui"⟩ ⟨"ui/card.ui.xml"⟩ plainCard ∧
    "Badge" ∉ plainCard.typeNames ∧
    (foundCardWithBadge.discover plainCardDirectory ⟨"ui"⟩).2.definitions.held?
      ⟨"ui/card.ui.xml"⟩ "Badge" = some badge ∧
    ¬ (foundCardWithBadge.discover plainCardDirectory ⟨"ui"⟩).2.definitions.Holds
      plainCard ⟨"ui/card.ui.xml"⟩ := by
  have gone : "Badge" ∉ plainCard.typeNames := by decide
  have first : ({ settings := {}, capabilities := {} } : Session Empty).Finds
      cardDirectory ⟨"ui"⟩ ⟨"ui/card.ui.xml"⟩ cardWithBadge := by
    obtain ⟨files, hfiles, hm, -, hread, -⟩ := finds_cardWithBadge
    exact ⟨files, hfiles, hm, by decide, hread, by decide⟩
  have files : cardDirectory.files.filesBelow ⟨"ui"⟩ = .ok [⟨"ui/card.ui.xml"⟩] := by cbv
  have files' : plainCardDirectory.files.filesBelow ⟨"ui"⟩ = .ok [⟨"ui/card.ui.xml"⟩] := by cbv
  have before : foundCardWithBadge.definitions.held? ⟨"ui/card.ui.xml"⟩ "Badge" = some badge := by
    rw [foundCardWithBadge]
    exact (held?_discover first fun p d' hp hk => absurd
      (congrArg Path.key (hp.eq_of_filesBelow files)) hk).1 "Badge" (by decide)
  obtain ⟨-, others, -, same⟩ := held?_discover finds_plainCard fun p d' hp hk => absurd
    (congrArg Path.key (hp.eq_of_filesBelow files')) hk
  have alone : ∀ p d', foundCardWithBadge.Finds plainCardDirectory ⟨"ui"⟩ p d' →
      "Badge" ∉ d'.typeNames := by
    intro p d' hp
    obtain rfl := hp.eq_of_filesBelow files'
    obtain ⟨-, -, -, -, hread, -⟩ := hp
    obtain ⟨-, -, -, -, hread', -⟩ := finds_plainCard
    cases hread.symm.trans hread'
    exact gone
  have arises : foundCardWithBadge.Arises := by
    rw [foundCardWithBadge]
    exact arises_discover (.new {} {}) cardDirectory ⟨"ui"⟩
  refine ⟨arises, finds_plainCard, gone, (others "Badge" gone badge).2 ⟨before, alone⟩, fun hholds => ?_⟩
  obtain hm | ⟨p, d', hp, hm⟩ := same.1 hholds "Badge" badge before
  · exact gone hm
  · exact alone p d' hp hm

end Session

end ViewMarkup
