import Mathlib.Data.List.Lex
import Mathlib.Data.String.Basic
import ViewMarkup.Proofs.Session.Bookkeeping
import ViewMarkup.Proofs.Session.Watching

/-!
# Changes that are refused

A change whose document is not read or is refused leaves a session as it is, but for the error of the
document and the mark that it is broken. Nothing that is asked of the session later depends on the two,
and once the document loads they are gone; so it is then as if the change had never been handled, and
neither has any other such change before it.

## Main definitions

* `Session.AgreesBut` — sessions that differ in what is noted against one document alone.
* `Session.AtChange` — the sessions that handle changes.
* `Session.Overlooks` — two sessions have the same history, but for changes that only one has handled.

## Main statements

* `Session.AgreesBut.serve`, `Session.AgreesBut.handle` — requests do not depend on what is noted
  against documents.
* `Session.Noted.handle_of_refuses` — a refused change.
* `Session.refusals_leave_no_trace` — refused changes, and what comes after them.
-/

namespace ViewMarkup

variable {H : Type}

/-! ### The order of errors -/

namespace PathPart

/-- A part of a path is known by its rank and its text. -/
lemma eq_of_rank_of_text {a b : PathPart} (hr : a.rank = b.rank) (ht : a.text = b.text) : a = b := by
  cases a <;> cases b <;> simp_all [rank, text]

instance : Trans (· < · : PathPart → PathPart → Prop) (· < ·) (· < ·) where
  trans := by
    rintro a b c (hab | ⟨hab, hab'⟩) (hbc | ⟨hbc, hbc'⟩)
    · exact .inl (hab.trans hbc)
    · exact .inl (hbc ▸ hab)
    · exact .inl (hab ▸ hbc)
    · exact .inr ⟨hab.trans hbc, String.lt_trans hab' hbc'⟩

instance : Std.Irrefl (· < · : PathPart → PathPart → Prop) where
  irrefl _ h := h.elim (Nat.lt_irrefl _) fun h => String.lt_irrefl _ h.2

instance : Std.Trichotomous (· < · : PathPart → PathPart → Prop) where
  trichotomous a b hab hba := by
    have hr : a.rank = b.rank :=
      Nat.le_antisymm (Nat.le_of_not_lt fun h => hba (.inl h)) (Nat.le_of_not_lt fun h => hab (.inl h))
    refine eq_of_rank_of_text hr ?_
    exact le_antisymm (not_lt.1 fun h => hba (.inr ⟨hr.symm, h⟩)) (not_lt.1 fun h => hab (.inr ⟨hr, h⟩))

end PathPart

namespace Diagnostics

/-- The errors are in the order of paths, and no path has two. -/
def Sorted (d : Diagnostics) : Prop := d.entries.Pairwise fun a b => a.1.key < b.1.key

/-- Of two different paths one comes before the other. -/
lemma key_lt_of_not {k k' : PathKey} (hne : k ≠ k') (h : ¬ k < k') : k' < k :=
  ((List.Lex.trichotomous (· < · : PathPart → PathPart → Prop)).rel_or_eq_or_rel_swap
    (a := k) (b := k')).elim (fun hlt => (h hlt).elim) fun ho => ho.resolve_left hne

/-- An entry that is placed is the new one or was there before. -/
lemma mem_place {p : Path} {message : String} {e : Path × String} {es : List (Path × String)}
    (h : e ∈ place p message es) : e.1.key = p.key ∨ e ∈ es := by
  induction es with
  | nil => exact .inl (by rw [List.mem_singleton.1 h])
  | cons x xs ih =>
    rw [place] at h
    split at h
    · next hx =>
      rcases List.mem_cons.1 h with rfl | h
      · exact .inl hx.symm
      · exact .inr (List.mem_cons_of_mem _ h)
    · split at h
      · exact (List.mem_cons.1 h).imp (fun h => by rw [h]) id
      · rcases List.mem_cons.1 h with rfl | h
        · exact .inr List.mem_cons_self
        · exact (ih h).imp_right (List.mem_cons_of_mem _)

/-- Recording an error keeps errors in order. -/
lemma Sorted.record {d : Diagnostics} (h : d.Sorted) (p : Path) (message : String) :
    (d.record p message).Sorted := by
  obtain ⟨es⟩ := d
  unfold Sorted Diagnostics.record at *
  simp only at h ⊢
  induction es with
  | nil => exact List.pairwise_singleton _ _
  | cons x xs ih =>
    rw [List.pairwise_cons] at h
    rw [place]
    split
    · exact List.pairwise_cons.2 h
    · next hne =>
      split
      · next hlt =>
        refine List.pairwise_cons.2 ⟨fun e he => ?_, List.pairwise_cons.2 h⟩
        rcases List.mem_cons.1 he with rfl | he
        · exact hlt
        · exact List.lt_trans hlt (h.1 e he)
      · next hlt =>
        refine List.pairwise_cons.2 ⟨fun e he => ?_, ih h.2⟩
        rcases mem_place he with hk | he
        · rw [hk]
          exact key_lt_of_not hne hlt
        · exact h.1 e he

/-- So does clearing a path. -/
lemma Sorted.clear {d : Diagnostics} (h : d.Sorted) (p : Path) : (d.clear p).Sorted :=
  h.sublist List.filter_sublist

/-- So does clearing several. -/
lemma Sorted.foldl_clear {d : Diagnostics} (h : d.Sorted) (ps : List Path) :
    (ps.foldl Diagnostics.clear d).Sorted := by
  induction ps generalizing d with
  | nil => exact h
  | cons p ps ih => exact ih (h.clear p)

/-- An error is put in front of those that come later. -/
lemma place_of_forall_lt {p : Path} {message : String} {es : List (Path × String)}
    (h : ∀ e ∈ es, p.key ≠ e.1.key ∧ p.key < e.1.key) :
    place p message es = (p, message) :: es := by
  cases es with
  | nil => rfl
  | cons x xs =>
    obtain ⟨hne, hlt⟩ := h x List.mem_cons_self
    rw [place, if_neg hne, if_pos hlt]

/-- Errors of another path are put in the same places whether those of a path are there or not. -/
lemma filter_place {p q : Path} (h : q.key ≠ p.key) (message : String) {es : List (Path × String)}
    (hs : es.Pairwise fun a b => a.1.key < b.1.key) :
    (place q message es).filter (fun e => e.1.key ≠ p.key) =
      place q message (es.filter fun e => e.1.key ≠ p.key) := by
  induction es with
  | nil => simp [place, h]
  | cons x xs ih =>
    rw [List.pairwise_cons] at hs
    by_cases hx : q.key = x.1.key
    · have hxp : x.1.key ≠ p.key := hx ▸ h
      rw [place, if_pos hx, List.filter_cons_of_pos (by simpa using hxp),
        List.filter_cons_of_pos (by simpa using hxp), place, if_pos hx]
    by_cases hlt : q.key < x.1.key
    · have later : ∀ e ∈ (x :: xs).filter (fun e => e.1.key ≠ p.key),
          q.key ≠ e.1.key ∧ q.key < e.1.key := by
        intro e he
        have hqe : q.key < e.1.key := by
          rcases List.mem_cons.1 (List.mem_of_mem_filter he) with rfl | he
          · exact hlt
          · exact List.lt_trans hlt (hs.1 e he)
        exact ⟨fun heq => List.lt_irrefl _ (heq ▸ hqe), hqe⟩
      rw [place, if_neg hx, if_pos hlt, List.filter_cons_of_pos (by simpa using h),
        place_of_forall_lt later]
    · rw [place, if_neg hx, if_neg hlt]
      by_cases hxp : x.1.key = p.key
      · rw [List.filter_cons_of_neg (by simpa using hxp), List.filter_cons_of_neg (by simpa using hxp),
          ih hs.2]
      · rw [List.filter_cons_of_pos (by simpa using hxp), List.filter_cons_of_pos (by simpa using hxp),
          ih hs.2, place, if_neg hx, if_neg hlt]

/-- An error of a path is cleared with the path. -/
lemma clear_record_of_eq {p q : Path} (h : q.key = p.key) (message : String) (d : Diagnostics) :
    (d.record q message).clear p = d.clear p := by
  obtain ⟨es⟩ := d
  simp only [record, clear, mk.injEq]
  induction es with
  | nil => simp [place, h]
  | cons x xs ih =>
    rw [place]
    split
    · next hx => simp [← hx, h]
    · split
      · simp [h]
      · rw [List.filter_cons, ih, List.filter_cons]

/-- An error of another path may as well be recorded afterwards. -/
lemma clear_record_of_ne {d : Diagnostics} (hd : d.Sorted) {p q : Path} (h : q.key ≠ p.key)
    (message : String) : (d.record q message).clear p = (d.clear p).record q message :=
  congrArg mk (filter_place h message hd)

/-- Paths may be cleared in any order. -/
lemma clear_comm (d : Diagnostics) (p q : Path) : (d.clear q).clear p = (d.clear p).clear q :=
  congrArg mk (List.filter_comm _ _ _)

/-- Clearing a path twice is clearing it once. -/
lemma clear_clear_of_eq {p q : Path} (h : q.key = p.key) (d : Diagnostics) :
    (d.clear q).clear p = d.clear p := by
  unfold clear
  rw [h, List.filter_filter]
  simp

/-- A path may be cleared before several others, whatever its spelling. -/
lemma clear_foldl_clear (p : Path) (qs : List Path) (d : Diagnostics) :
    (qs.foldl clear d).clear p = (qs.filter (·.key ≠ p.key)).foldl clear (d.clear p) := by
  induction qs generalizing d with
  | nil => rfl
  | cons q qs ih =>
    rw [List.foldl_cons, ih]
    by_cases h : q.key = p.key
    · rw [List.filter_cons_of_neg (by simpa using h), clear_clear_of_eq h]
    · rw [List.filter_cons_of_pos (by simpa using h), List.foldl_cons, clear_comm]

/-- Errors that differ for one path alone. -/
structure AgreeBut (p : Path) (d d' : Diagnostics) : Prop where
  /-- The first are in order. -/
  sorted : d.Sorted
  /-- So are the second. -/
  sorted' : d'.Sorted
  /-- They are the same without the path. -/
  clear_eq : d.clear p = d'.clear p

namespace AgreeBut

variable {p : Path} {d d' : Diagnostics}

/-- Errors that agree but for a path do so when one is recorded. -/
lemma record (h : d.AgreeBut p d') (q : Path) (message : String) :
    (d.record q message).AgreeBut p (d'.record q message) where
  sorted := h.sorted.record q message
  sorted' := h.sorted'.record q message
  clear_eq := by
    by_cases hq : q.key = p.key
    · rw [clear_record_of_eq hq, clear_record_of_eq hq, h.clear_eq]
    · rw [clear_record_of_ne h.sorted hq, clear_record_of_ne h.sorted' hq, h.clear_eq]

/-- An error of the path itself makes no difference. -/
lemma record_left (h : d.AgreeBut p d') (message : String) :
    (d.record p message).AgreeBut p d' :=
  ⟨h.sorted.record p message, h.sorted', (clear_record_of_eq rfl message d).trans h.clear_eq⟩

/-- Errors that agree but for a path do so when paths are cleared, of which they share all but the one.
-/
lemma foldl_clear (h : d.AgreeBut p d') {qs qs' : List Path}
    (hq : qs.filter (·.key ≠ p.key) = qs'.filter (·.key ≠ p.key)) :
    (qs.foldl clear d).AgreeBut p (qs'.foldl clear d') where
  sorted := h.sorted.foldl_clear qs
  sorted' := h.sorted'.foldl_clear qs'
  clear_eq := by rw [clear_foldl_clear, clear_foldl_clear, hq, h.clear_eq]

/-- They do so when a path is cleared. -/
lemma clear (h : d.AgreeBut p d') (q : Path) : (d.clear q).AgreeBut p (d'.clear q) :=
  h.foldl_clear (rfl : [q].filter (·.key ≠ p.key) = [q].filter (·.key ≠ p.key))

/-- The errors of other paths are the same. -/
lemma get?_eq (h : d.AgreeBut p d') {q : Path} (hq : q.key ≠ p.key) : d.get? q = d'.get? q := by
  have := congrArg (·.get? q) h.clear_eq
  simpa [Ne.symm hq] using this

end AgreeBut

end Diagnostics

/-! ### Sessions that agree -/

namespace Session

variable {p : Path} {s s' : Session H}

/-- **Two sessions differ in what is noted against one document alone**: its error, and whether it is
broken. -/
structure AgreesBut (p : Path) (s s' : Session H) : Prop where
  /-- All else is the same. -/
  eq : s' = { s with diagnostics := s'.diagnostics, broken := s'.broken }
  /-- The errors of other documents are the same. -/
  diagnostics : s.diagnostics.AgreeBut p s'.diagnostics
  /-- The same other documents are broken. -/
  broken : s.broken.filter (· ≠ p.key) = s'.broken.filter (· ≠ p.key)

/-- Two requests have the same result and leave sessions that agree. -/
def Alike {α : Type} (p : Path) (x x' : α × Session H) : Prop := x.1 = x'.1 ∧ AgreesBut p x.2 x'.2

namespace AgreesBut

/-- A session that agrees with another but for a path differs from it in errors and broken documents
only. -/
lemma exists_eq (h : s.AgreesBut p s') : ∃ d b, s.diagnostics.AgreeBut p d ∧
    s.broken.filter (· ≠ p.key) = b.filter (· ≠ p.key) ∧
    s' = { s with diagnostics := d, broken := b } :=
  ⟨_, _, h.diagnostics, h.broken, h.eq⟩

/-- Sessions that agree but for a path do so when an error is reported. -/
lemma report (h : s.AgreesBut p s') (q : Path) (e : SessionError) :
    (s.report q e).AgreesBut p (s'.report q e) := by
  obtain ⟨d, b, hd, hb, rfl⟩ := h.exists_eq
  exact ⟨rfl, hd.record q e.message, hb⟩

/-- They do so when a document is marked as broken. -/
lemma markBroken (h : s.AgreesBut p s') (q : Path) :
    (s.markBroken q).AgreesBut p (s'.markBroken q) := by
  obtain ⟨d, b, hd, hb, rfl⟩ := h.exists_eq
  refine ⟨rfl, hd, ?_⟩
  have same : ∀ b : List PathKey, (b.insert q.key).filter (· ≠ p.key) =
      if q.key = p.key then b.filter (· ≠ p.key) else (b.filter (· ≠ p.key)).insert q.key := by
    intro b
    by_cases hm : q.key ∈ b
    · by_cases hq : q.key = p.key
      · rw [List.insert_of_mem hm, if_pos hq]
      · rw [List.insert_of_mem hm, if_neg hq, List.insert_of_mem (by simpa [hq] using hm)]
    · by_cases hq : q.key = p.key
      · rw [List.insert_of_not_mem hm, if_pos hq, List.filter_cons_of_neg (by simpa using hq)]
      · rw [List.insert_of_not_mem hm, if_neg hq, List.filter_cons_of_pos (by simpa using hq),
          List.insert_of_not_mem fun h => hm (List.mem_of_mem_filter h)]
  change (s.broken.insert q.key).filter _ = (b.insert q.key).filter _
  rw [same, same, hb]

/-- They do so when it is marked as sound. -/
lemma markSound (h : s.AgreesBut p s') (q : Path) :
    (s.markSound q).AgreesBut p (s'.markSound q) := by
  obtain ⟨d, b, hd, hb, rfl⟩ := h.exists_eq
  refine ⟨rfl, hd.clear q, ?_⟩
  change (s.broken.filter _).filter _ = (b.filter _).filter _
  rw [List.filter_comm, hb, List.filter_comm]

/-- Nothing is noted against a document that is sound. -/
lemma markSound_eq (h : s.AgreesBut p s') : s.markSound p = s'.markSound p := by
  obtain ⟨d, b, hd, hb, rfl⟩ := h.exists_eq
  unfold Session.markSound
  rw [hb, hd.clear_eq]

/-- A change that is refused makes no difference. -/
lemma refuse (h : s.AgreesBut p s') (e : SessionError) :
    ((s.report p e).markBroken p).AgreesBut p s' := by
  obtain ⟨d, b, hd, hb, rfl⟩ := h.exists_eq
  refine ⟨rfl, hd.record_left e.message, ?_⟩
  change (s.broken.insert p.key).filter _ = _
  rw [← hb]
  by_cases hm : p.key ∈ s.broken <;> simp [List.insert, hm]

/-! ### Requests -/

/-- Sessions that agree but for a path do so when a root leaves, with the same answer. -/
lemma unregister (h : s.AgreesBut p s') (id : RootId) :
    Alike p (s.unregister id) (s'.unregister id) := by
  obtain ⟨d, b, hd, hb, rfl⟩ := h.exists_eq
  unfold Session.unregister
  cases s.roots.get? id with
  | none => exact ⟨rfl, h⟩
  | some r =>
    simp only
    cases s.documents.get? r.path.key with
    | none => exact ⟨rfl, rfl, hd, hb⟩
    | some watch =>
      simp only
      split
      · refine ⟨rfl, AgreesBut.markSound (s := { s with
          roots := s.roots.erase id
          documents := s.documents.erase r.path.key
          definitions := if r.path.key ∈ s.discovered then s.definitions
            else s.definitions.removePath r.path }) ⟨rfl, hd, hb⟩ r.path⟩
      · exact ⟨rfl, rfl, hd, hb⟩

/-- They do so when all roots leave whose nodes are gone. -/
lemma prune (h : s.AgreesBut p s') : s.prune.AgreesBut p s'.prune := by
  have all : ∀ (ids : List RootId) (s s' : Session H), s.AgreesBut p s' →
      (ids.foldl (fun s id => (s.unregister id).2) s).AgreesBut p
        (ids.foldl (fun s id => (s.unregister id).2) s') := by
    intro ids
    induction ids with
    | nil => exact fun _ _ h => h
    | cons id ids ih => exact fun _ _ h => ih _ _ (h.unregister id).2
  have same : s'.goneRoots = s.goneRoots := by
    rw [h.eq]
    rfl
  unfold Session.prune
  rw [same]
  exact all _ s s' h

/-- They start the same watchers. -/
lemma startWatcher_eq (h : s.AgreesBut p s') (w : World) (q : Path) :
    s'.startWatcher w q = s.startWatcher w q := by
  rw [h.eq]
  rfl

/-- They agree but for the path when a document is watched. -/
lemma watchDocument (h : s.AgreesBut p s') (w : World) (q : Path) :
    Alike p (s.watchDocument w q) (s'.watchDocument w q) := by
  have hw := h.startWatcher_eq w q
  obtain ⟨d, b, hd, hb, rfl⟩ := h.exists_eq
  unfold Session.watchDocument
  rw [hw]
  split
  · exact ⟨rfl, h⟩
  · cases s.startWatcher w q with
    | error e => exact ⟨rfl, h.report q e⟩
    | ok watcher => exact ⟨rfl, rfl, hd, hb⟩

/-- They do so when a root is added. -/
lemma addRoot (h : s.AgreesBut p s') (b : Binding) (q : Path) :
    Alike p (s.addRoot b q) (s'.addRoot b q) := by
  obtain ⟨d, broken, hd, hb, rfl⟩ := h.exists_eq
  exact ⟨rfl, rfl, hd, hb⟩

/-- They do so when a change is reported. -/
lemma enqueue (h : s.AgreesBut p s') (q : Path) : (s.enqueue q).AgreesBut p (s'.enqueue q) := by
  obtain ⟨d, b, hd, hb, rfl⟩ := h.exists_eq
  exact ⟨rfl, hd, hb⟩

/-- They do so when a root is registered. -/
lemma register (h : s.AgreesBut p s') (w : World) (b : Binding) (path? : Option Path) :
    Alike p (s.register w b path?) (s'.register w b path?) := by
  have hpath : (s'.definitions.get? b.typeName) = s.definitions.get? b.typeName := by rw [h.eq]
  unfold Session.register
  rw [hpath]
  cases path?.or ((s.definitions.get? b.typeName).map (·.path)) with
  | none => exact ⟨rfl, h⟩
  | some path =>
    have hw := h.watchDocument w path
    simp only
    revert hw
    rcases s.watchDocument w path with ⟨result, s₁⟩
    rcases s'.watchDocument w path with ⟨_, s₁'⟩
    rintro ⟨rfl, h₁⟩
    cases result with
    | error e => exact ⟨rfl, h₁⟩
    | ok _ =>
      obtain ⟨hid, h₂⟩ := h₁.addRoot b path
      exact ⟨congrArg Except.ok hid, h₂.enqueue path⟩

/-! ### Searching -/

/-- They do so when a search comes to a document. -/
lemma discoverDocument (h : s.AgreesBut p s') (w : World) (found : List String) (q : Path) :
    (Session.discoverDocument w s found q).2 = (Session.discoverDocument w s' found q).2 ∧
      (Session.discoverDocument w s found q).1.AgreesBut p
        (Session.discoverDocument w s' found q).1 := by
  obtain ⟨d, b, hd, hb, rfl⟩ := h.exists_eq
  unfold Session.discoverDocument
  cases w.readDefinition q with
  | error e => exact ⟨rfl, (h.report q e).markBroken q⟩
  | ok definition =>
    simp only
    split
    · exact ⟨rfl, h⟩
    · exact ⟨rfl, AgreesBut.markSound (s := { s with
        definitions := (definition.definitions.foldl (learn q) (s.definitions, found)).1
        discovered := s.discovered.insert q.key }) ⟨rfl, hd, hb⟩ q⟩

/-- They do so after a whole search. -/
lemma discover (h : s.AgreesBut p s') (w : World) (dir : Path) :
    Alike p (s.discover w dir) (s'.discover w dir) := by
  have all : ∀ (paths : List Path) (acc acc' : Session H × List String), acc.1.AgreesBut p acc'.1 →
      acc.2 = acc'.2 →
      (paths.foldl (fun acc path => Session.discoverDocument w acc.1 acc.2 path) acc).2 =
          (paths.foldl (fun acc path => Session.discoverDocument w acc.1 acc.2 path) acc').2 ∧
        (paths.foldl (fun acc path => Session.discoverDocument w acc.1 acc.2 path) acc).1.AgreesBut p
          (paths.foldl (fun acc path => Session.discoverDocument w acc.1 acc.2 path) acc').1 := by
    intro paths
    induction paths with
    | nil => exact fun acc acc' h hf => ⟨hf, h⟩
    | cons path paths ih =>
      rintro ⟨s, found⟩ ⟨s', found'⟩ h rfl
      obtain ⟨hf, h⟩ := AgreesBut.discoverDocument h w found path
      exact ih _ _ h hf
  have hsettings : s'.settings = s.settings := by rw [h.eq]
  unfold Session.discover
  cases w.files.filesBelow dir with
  | error fault => exact ⟨rfl, h.report dir _⟩
  | ok files =>
    obtain ⟨hf, ha⟩ := all ((files.filter s.settings.isDocument).mergeSort Path.notAfter) (s, [])
      (s', []) h rfl
    simp only [hsettings]
    exact ⟨congrArg (fun found : List String => Except.ok (found.mergeSort _)) hf, ha⟩

/-! ### Applying roots -/

variable [Widget H]

/-- They do so when a root is applied. -/
lemma applyRoot (h : s.AgreesBut p s') (id : RootId) :
    Alike p (s.applyRoot id) (s'.applyRoot id) := by
  obtain ⟨d, b, hd, hb, rfl⟩ := h.exists_eq
  unfold Session.applyRoot applyTo
  cases s.roots.get? id with
  | none => exact ⟨rfl, h⟩
  | some r =>
    simp only
    cases s.definitions.get? r.binding.typeName with
    | none => exact ⟨rfl, rfl, hd, hb⟩
    | some stored =>
      rcases hr : s.applier.apply s.tree r.binding stored.definition with ⟨outcome, tree, binding⟩
      have hr' : ({ s with diagnostics := d, broken := b } : Session H).applier.apply s.tree r.binding
          stored.definition = (outcome, tree, binding) := hr
      simp only [hr, hr']
      cases outcome <;> exact ⟨rfl, rfl, hd, hb⟩

/-- They do so when it is attempted. -/
lemma attempt (h : s.AgreesBut p s') (id : RootId) (q : Path) :
    Alike p (s.attempt id q) (s'.attempt id q) := by
  have ha := h.applyRoot id
  unfold Session.attempt
  revert ha
  rcases s.applyRoot id with ⟨result, s₁⟩
  rcases s'.applyRoot id with ⟨_, s₁'⟩
  rintro ⟨rfl, h₁⟩
  cases result with
  | error e => exact ⟨rfl, AgreesBut.report h₁ q e⟩
  | ok _ => exact ⟨rfl, h₁⟩

/-- They do so when several roots are attempted. -/
lemma attemptAll (h : s.AgreesBut p s') (es : List (RootId × Path)) :
    Alike p (s.attemptAll es) (s'.attemptAll es) := by
  induction es generalizing s s' with
  | nil => exact ⟨rfl, h⟩
  | cons e es ih =>
    obtain ⟨ha, h₁⟩ := h.attempt e.1 e.2
    obtain ⟨has, h₂⟩ := ih h₁
    exact ⟨congrArg₂ List.cons ha has, h₂⟩

omit [Widget H] in
/-- Which errors are cleared depends on whether their own documents are broken. -/
lemma clearSucceeded (h : s.AgreesBut p s') (as : List Attempt) :
    (s.clearSucceeded as).AgreesBut p (s'.clearSucceeded as) := by
  obtain ⟨d, b, hd, hb, rfl⟩ := h.exists_eq
  refine ⟨rfl, hd.foldl_clear ?_, hb⟩
  have same : ∀ key, key ≠ p.key → s.broken.contains key = b.contains key := by
    intro key hk
    have := congrArg (key ∈ ·) hb
    simpa [hk] using this
  rw [List.filter_map, List.filter_map, List.filter_filter, List.filter_filter]
  refine congrArg _ (List.filter_congr fun a _ => ?_)
  by_cases hk : a.path.key = p.key
  · simp [hk]
  · simp only [same _ hk]

/-- Sessions that agree but for a path do so when roots are applied again. -/
lemma reapply (h : s.AgreesBut p s') (q : Path) : Alike p (s.reapply q) (s'.reapply q) := by
  have hstale : s'.staleRoots q = s.staleRoots q := by
    rw [h.eq]
    rfl
  have ha := h.attemptAll ((s.staleRoots q).map fun e => (e.1, e.2.path))
  unfold Session.reapply
  rw [hstale]
  rcases hs : s.attemptAll ((s.staleRoots q).map fun e => (e.1, e.2.path)) with ⟨as, s₁⟩
  rcases hs' : s'.attemptAll ((s.staleRoots q).map fun e => (e.1, e.2.path)) with ⟨as', s₁'⟩
  rw [hs, hs'] at ha
  obtain ⟨rfl, h₁⟩ : as = as' ∧ s₁.AgreesBut p s₁' := ha
  rw [hs, hs']
  exact ⟨rfl, h₁.clearSucceeded as⟩

omit [Widget H] in
/-- What is loaded does not depend on what is noted against documents. -/
lemma load? (h : s.AgreesBut p s') (w : World) (q : Path) :
    (s.load? w q = none ∧ s'.load? w q = none) ∨
    (∃ e, s.load? w q = some (.error e) ∧ s'.load? w q = some (.error e)) ∨
    ∃ loaded loaded', s.load? w q = some (.ok loaded) ∧ s'.load? w q = some (.ok loaded') ∧
      loaded.AgreesBut p loaded' := by
  obtain ⟨d, b, hd, hb, rfl⟩ := h.exists_eq
  unfold Session.load? loadStyles loadDocument
  simp only
  split
  · cases w.readStyles q with
    | error e => exact .inr (.inl ⟨e, rfl, rfl⟩)
    | ok g => exact .inr (.inr ⟨_, _, rfl, rfl, rfl, hd, hb⟩)
  · split
    · cases w.readDefinition q with
      | error e => exact .inr (.inl ⟨e, rfl, rfl⟩)
      | ok definition => exact .inr (.inr ⟨_, _, rfl, rfl, rfl, hd, hb⟩)
    · exact .inl ⟨rfl, rfl⟩

/-- **The handling of a change** has the same outcome. -/
theorem handle (h : s.AgreesBut p s') (w : World) (q : Path) :
    Alike p (s.handle w q) (s'.handle w q) := by
  obtain ⟨hl, hl'⟩ | ⟨e, hl, hl'⟩ | ⟨loaded, loaded', hl, hl', h₁⟩ := h.prune.load? w q
  · rw [handle_of_load?_eq_none hl, handle_of_load?_eq_none hl']
    exact ⟨rfl, h.prune⟩
  · rw [handle_of_load?_eq_error hl, handle_of_load?_eq_error hl']
    exact ⟨rfl, (h.prune.report q e).markBroken q⟩
  · rw [handle_of_load?_eq_ok hl, handle_of_load?_eq_ok hl']
    exact (h₁.markSound q).reapply q

/-- **A change of the document that loads leaves no difference.** -/
theorem handle_eq_of_load? (h : s.AgreesBut p s') {w : World} {loaded : Session H}
    (hl : s'.prune.load? w p = some (.ok loaded)) : s.handle w p = s'.handle w p := by
  obtain ⟨-, hn⟩ | ⟨e, -, he⟩ | ⟨loaded₁, loaded', hl₁, hl', h₁⟩ := h.prune.load? w p
  · cases hn.symm.trans hl
  · cases he.symm.trans hl
  · rw [handle_of_load?_eq_ok hl₁, handle_of_load?_eq_ok hl', h₁.markSound_eq]

/-- Sessions that agree but for a path watch shared styles alike, and attempt the same roots. -/
lemma watchStyles (h : s.AgreesBut p s') (w : World) (q : Path) :
    Alike p (s.watchStyles w q) (s'.watchStyles w q) ∧
      s.attemptedByWatching w q = s'.attemptedByWatching w q := by
  have hw := h.startWatcher_eq w q
  have hstyles : s'.styleDocuments = s.styleDocuments := by rw [h.eq]
  unfold Session.watchStyles attemptedByWatching
  rw [hw, hstyles]
  split
  · exact ⟨⟨rfl, h⟩, rfl⟩
  · cases s.startWatcher w q with
    | error e => exact ⟨⟨rfl, h.report q e⟩, rfl⟩
    | ok watcher =>
      have watching : AgreesBut p
          { s with styleDocuments := s.styleDocuments.insert q.key { path := q, watcher } }
          { s' with styleDocuments := s.styleDocuments.insert q.key { path := q, watcher } } := by
        obtain ⟨d, b, hd, hb, rfl⟩ := h.exists_eq
        exact ⟨rfl, hd, hb⟩
      obtain ⟨ho, ha⟩ := watching.handle w q
      exact ⟨⟨rfl, ha⟩, congrArg Outcome.attempted ho⟩

omit [Widget H] in
/-- They do so when the tree is changed from outside. -/
lemma retree (h : s.AgreesBut p s') (tree : ViewTree H) :
    AgreesBut p { s with tree } { s' with tree } := by
  obtain ⟨d, b, hd, hb, rfl⟩ := h.exists_eq
  exact ⟨rfl, hd, hb⟩

/-- They do so when a component is made. -/
lemma instantiate (h : s.AgreesBut p s') (w : World) (typeName : String) :
    Alike p (s.instantiate w typeName) (s'.instantiate w typeName) := by
  have htree : s'.tree = s.tree := by rw [h.eq]
  have hfresh : s'.freshElement typeName = s.freshElement typeName := by
    rw [h.eq]
    rfl
  have hknown : s'.definitions.contains typeName = s.definitions.contains typeName := by rw [h.eq]
  unfold Session.instantiate
  rw [hknown, htree, hfresh]
  split
  · simp only
    have hreg := (h.retree (s.tree.insert { element := s.freshElement typeName }).2).register w
      (.adopting (s.tree.insert { element := s.freshElement typeName }).1 typeName) none
    revert hreg
    rcases Session.register { s with tree := _ } w _ none with ⟨result, s₁⟩
    rcases Session.register { s' with tree := _ } w _ none with ⟨_, s₁'⟩
    rintro ⟨rfl, h₁⟩
    have h₁ : s₁.AgreesBut p s₁' := h₁
    have htree₁ : s₁'.tree = s₁.tree := by rw [h₁.eq]
    cases result with
    | error e =>
      simp only [htree₁]
      exact ⟨rfl, h₁.retree _⟩
    | ok id =>
      have ha := h₁.applyRoot id
      simp only
      revert ha
      rcases s₁.applyRoot id with ⟨result, s₂⟩
      rcases s₁'.applyRoot id with ⟨_, s₂'⟩
      rintro ⟨rfl, h₂⟩
      cases result with
      | ok _ => exact ⟨rfl, h₂⟩
      | error e =>
        have h₃ := (AgreesBut.unregister h₂ id).2
        have htree₃ : (s₂'.unregister id).2.tree = (s₂.unregister id).2.tree := by rw [h₃.eq]
        simp only [htree₃]
        exact ⟨rfl, h₃.retree _⟩
  · exact ⟨rfl, h⟩

/-- **Requests do not depend on what is noted against documents.** -/
theorem serve (h : s.AgreesBut p s') (request : SessionRequest H) :
    Alike p (s.serve request) (s'.serve request) := by
  cases request with
  | register w b path? => exact ⟨rfl, (h.register w b path?).2⟩
  | unregister id => exact ⟨rfl, (h.unregister id).2⟩
  | watchStyles w path => exact ⟨(h.watchStyles w path).2, (h.watchStyles w path).1.2⟩
  | discover w dir => exact ⟨rfl, (h.discover w dir).2⟩
  | instantiate w typeName =>
    obtain ⟨ho, ha⟩ := h.instantiate w typeName
    exact ⟨congrArg (fun outcome => outcome.toOption.toList) ho, ha⟩
  | edit tree => exact ⟨rfl, h.retree tree⟩
  | provide capabilities =>
    obtain ⟨d, b, hd, hb, rfl⟩ := h.exists_eq
    exact ⟨rfl, rfl, hd, hb⟩
  | handle w path =>
    obtain ⟨ho, ha⟩ := h.handle w path
    exact ⟨congrArg Outcome.attempted ho, ha⟩

omit [Widget H] in
/-- Sessions that agree but for a path do so when time passes. -/
lemma poll (h : s.AgreesBut p s') (files : Directory) : (s.poll files).AgreesBut p (s'.poll files) := by
  obtain ⟨d, b, hd, hb, rfl⟩ := h.exists_eq
  exact ⟨rfl, hd, hb⟩

omit [Widget H] in
/-- They do so when the changes that wait are replaced. -/
lemma requeue (h : s.AgreesBut p s') (queue : List Path) :
    AgreesBut p { s with queue } { s' with queue } := by
  obtain ⟨d, b, hd, hb, rfl⟩ := h.exists_eq
  exact ⟨rfl, hd, hb⟩

end AgreesBut

/-! ### Refused changes -/

/-- No registered root has lost its node. -/
def Intact (s : Session H) : Prop :=
  ∀ id r, s.roots.get? id = some r → s.tree.contains r.binding.node = true

/-- The document of a change is not read or is refused, as shared styles if it holds some. -/
def Refuses (s : Session H) (w : World) (p : Path) : Prop :=
  if s.styleDocuments.contains p.key then ∃ e, w.readStyles p = .error e
  else ∃ e, w.readDefinition p = .error e

/-- No root leaves where none has lost its node. -/
lemma Noted.prune_eq {tried : List RootId} (hn : Noted s tried) (h : s.Intact) : s.prune = s := by
  have hgone : s.goneRoots = [] := by
    rw [goneRoots, List.map_eq_nil_iff, List.filter_eq_nil_iff]
    intro e he
    rw [Roots.inOrder, List.mem_mergeSort] at he
    rw [h e.1 e.2 ((Table.get?_eq_some_iff hn.nodup).2 he)]
    exact Bool.false_ne_true
  unfold Session.prune
  rw [hgone]
  rfl

/-- A change that is refused is ignored if the session has nothing to do with the document, and else
its error is noted and the document marked as broken. -/
theorem Noted.handle_of_refuses [Widget H] {tried : List RootId} (hn : Noted s tried) (hi : s.Intact)
    {w : World} (h : s.Refuses w p) : s.handle w p = ({ path := p }, s) ∨
      ∃ e, s.handle w p = ({ path := p }, (s.report p e).markBroken p) := by
  have hprune := hn.prune_eq hi
  unfold Refuses at h
  by_cases hs : s.styleDocuments.contains p.key = true
  · rw [if_pos hs] at h
    obtain ⟨e, he⟩ := h
    refine .inr ⟨e, ?_⟩
    rw [handle_of_load?_eq_error (e := e), hprune]
    rw [hprune, load?, if_pos hs, loadStyles, he]
  · rw [if_neg hs] at h
    obtain ⟨e, he⟩ := h
    by_cases hd : s.documents.contains p.key = true
    · refine .inr ⟨e, ?_⟩
      rw [handle_of_load?_eq_error (e := e), hprune]
      rw [hprune, load?, if_neg hs, if_pos hd, loadDocument, he]
    · refine .inl ?_
      rw [handle_of_load?_eq_none, hprune]
      rw [hprune, load?, if_neg hs, if_neg hd]

/-! ### Histories without refused changes -/

variable [Widget H]

/-- A session that arose agrees with itself. -/
lemma Arises.agreesBut (h : s.Arises) (p : Path) : s.AgreesBut p s := by
  induction h with
  | new settings capabilities => exact ⟨rfl, ⟨.nil, .nil, rfl⟩, rfl⟩
  | serve request _ ih => exact (ih.serve request).2
  | prune _ ih => exact ih.prune
  | poll files _ ih => exact ih.poll files
  | requeue queue _ ih => exact ih.requeue queue

/-- **A session at a change**: one that requests lead to, or one that has begun to watch a document of
shared styles, which is then loaded in the same way as after a change. -/
inductive AtChange : Session H → Prop where
  /-- Between requests. -/
  | arises {s : Session H} : s.Arises → AtChange s
  /-- While a document of shared styles is being watched. -/
  | watching {s : Session H} (path : Path) (watcher : Option Watcher) : s.Arises →
      AtChange { s with styleDocuments := s.styleDocuments.insert path.key { path, watcher } }

/-- No root has been attempted when a change is about to be handled. -/
lemma AtChange.noted (h : s.AtChange) : Noted s [] := by
  cases h with
  | arises h => exact h.tidy.noted
  | watching path watcher h => exact h.tidy.noted.congr rfl rfl

/-- A session that is about to handle a change agrees with itself. -/
lemma AtChange.agreesBut (h : s.AtChange) (p : Path) : s.AgreesBut p s := by
  cases h with
  | arises h => exact h.agreesBut p
  | watching path watcher h =>
    obtain ⟨-, hd, hb⟩ := h.agreesBut p
    exact ⟨rfl, hd, hb⟩

/-- **Two sessions with the same history**, but for changes of a document that only the first one has
handled: they were refused, at times when no root had lost its node. -/
inductive Overlooks (p : Path) : Session H → Session H → Prop where
  /-- One session. -/
  | start {s : Session H} : s.AtChange → Overlooks p s s
  /-- The first session handles a change that is refused. -/
  | refuse {s s' : Session H} (w : World) : Overlooks p s s' → s.Intact → s.Refuses w p →
      Overlooks p (s.handle w p).2 s'
  /-- Both serve a request. -/
  | serve {s s' : Session H} (request : SessionRequest H) : Overlooks p s s' →
      Overlooks p (s.serve request).2 (s'.serve request).2
  /-- From both leave the roots whose nodes are gone. -/
  | prune {s s' : Session H} : Overlooks p s s' → Overlooks p s.prune s'.prune
  /-- In both every watcher looks at its file. -/
  | poll {s s' : Session H} (files : Directory) : Overlooks p s s' →
      Overlooks p (s.poll files) (s'.poll files)
  /-- In both other changes wait. -/
  | requeue {s s' : Session H} (queue : List Path) : Overlooks p s s' →
      Overlooks p { s with queue } { s' with queue }

/-- What was refused is noted against the document, and nothing else comes of it. -/
lemma Overlooks.spec (h : Overlooks p s s') : Noted s [] ∧ s.AgreesBut p s' := by
  induction h with
  | start h => exact ⟨h.noted, h.agreesBut p⟩
  | @refuse s s' w _ hi hr ih =>
    obtain hs | ⟨e, hs⟩ := ih.1.handle_of_refuses hi hr
    · rw [hs]
      exact ih
    · rw [hs]
      exact ⟨ih.1.congr rfl rfl, ih.2.refuse e⟩
  | serve request _ ih =>
    exact ⟨(ih.1.serve request).of_subset (List.nil_subset _), (ih.2.serve request).2⟩
  | prune _ ih => exact ⟨ih.1.prune, ih.2.prune⟩
  | poll files _ ih => exact ⟨ih.1.congr rfl rfl, ih.2.poll files⟩
  | requeue queue _ ih => exact ⟨ih.1.congr rfl rfl, ih.2.requeue queue⟩

omit [Widget H] in
/-- What differs between sessions that agree. -/
lemma AgreesBut.exists_get? (h : s.AgreesBut p s') : ∃ diagnostics broken,
    s' = { s with diagnostics, broken } ∧
      (∀ q : Path, q.key ≠ p.key → diagnostics.get? q = s.diagnostics.get? q) ∧
      ∀ key ≠ p.key, key ∈ broken ↔ key ∈ s.broken := by
  refine ⟨s'.diagnostics, s'.broken, h.eq, fun q hq => (h.diagnostics.get?_eq hq).symm,
    fun key hk => ?_⟩
  have := congrArg (key ∈ ·) h.broken
  simpa [hk] using this.symm

/-- **Refused changes leave no trace** but what is noted against their document. Let a session have the
same history as another one, but for changes of a document that were refused. A further change that is
refused applies no root and leaves the session as it is, up to the error of the document and the mark
that it is broken. The two sessions do not differ in anything else, and changes have the same outcomes in
both. As soon as a change of the document loads, they do not differ at all.

**Proof sketch.** No request depends on errors or on broken documents, other than that the error of a
document is kept as long as it is broken; so sessions that differ for one document alone stay so
(`AgreesBut.serve`). A document that loads is sound and has no error, in either session. -/
theorem refusals_leave_no_trace (h : Overlooks p s s') :
    (∀ w, s.Intact → s.Refuses w p → ∃ diagnostics broken,
      s.handle w p = ({ path := p }, { s with diagnostics, broken }) ∧
        (∀ q : Path, q.key ≠ p.key → diagnostics.get? q = s.diagnostics.get? q) ∧
        ∀ key ≠ p.key, key ∈ broken ↔ key ∈ s.broken) ∧
    (∃ diagnostics broken, s' = { s with diagnostics, broken } ∧
      (∀ q : Path, q.key ≠ p.key → diagnostics.get? q = s.diagnostics.get? q) ∧
      ∀ key ≠ p.key, key ∈ broken ↔ key ∈ s.broken) ∧
    (∀ w q, (s.handle w q).1 = (s'.handle w q).1) ∧
    ∀ w loaded, s'.prune.load? w p = some (.ok loaded) → s.handle w p = s'.handle w p := by
  obtain ⟨hn, ha⟩ := h.spec
  refine ⟨fun w hi hr => ?_, ha.exists_get?, fun w q => (ha.handle w q).1,
    fun w loaded hl => ha.handle_eq_of_load? hl⟩
  obtain hs | ⟨e, hs⟩ := hn.handle_of_refuses hi hr
  · exact ⟨s.diagnostics, s.broken, hs, fun _ _ => rfl, fun _ _ => .rfl⟩
  · refine ⟨s.diagnostics.record p e.message, s.broken.insert p.key, hs, fun q hq => ?_,
      fun key hk => ?_⟩
    · rw [Diagnostics.get?_record, if_neg hq.symm]
    · rw [List.mem_insert_iff, or_iff_right hk]

/-- Once the missing document of a root is there, it does not matter that it was missing before. -/
theorem handle_boundToNothing :
    Overlooks ⟨"a"⟩ (boundToNothing.handle ⟨{}, true⟩ ⟨"a"⟩).2 boundToNothing ∧
      (boundToNothing.handle ⟨{}, true⟩ ⟨"a"⟩).2.broken = [(Path.mk "a").key] ∧
      (boundToNothing.handle ⟨{}, true⟩ ⟨"a"⟩).2.handle emptyDocument ⟨"a"⟩ =
        boundToNothing.handle emptyDocument ⟨"a"⟩ := by
  have fresh : Arises ({ settings := {}, capabilities := {} } : Session Empty) := .new {} {}
  have arises : boundToNothing.Arises := (fresh.serve (.edit _)).serve (.register _ _ _)
  have roots : boundToNothing.roots.table.entries =
      [(⟨0⟩, { binding := .adopting ⟨0⟩ "A", path := ⟨"a"⟩, place := 0 })] := by rfl
  have intact : boundToNothing.Intact := by
    intro id r hr
    have hm := (Table.get?_eq_some_iff arises.tidy.noted.nodup).1 hr
    rw [roots, List.mem_singleton] at hm
    cases hm
    rfl
  have refuses : boundToNothing.Refuses ⟨{}, true⟩ ⟨"a"⟩ := by
    have hs : boundToNothing.styleDocuments.contains (Path.mk "a").key = false := by cbv
    rw [Refuses, hs, if_neg Bool.false_ne_true]
    exact ⟨.unreadable ⟨"a"⟩ .notFound, by cbv⟩
  have overlooks : Overlooks ⟨"a"⟩ (boundToNothing.handle ⟨{}, true⟩ ⟨"a"⟩).2 boundToNothing :=
    .refuse ⟨{}, true⟩ (.start (.arises arises)) intact refuses
  obtain ⟨-, -, -, loads⟩ := refusals_leave_no_trace overlooks
  have hl : boundToNothing.prune.load? ⟨{}, true⟩ ⟨"a"⟩ =
      some (.error (.unreadable ⟨"a"⟩ .notFound)) := by cbv
  have hb : boundToNothing.prune.broken = [] := by cbv
  refine ⟨overlooks, ?_, loads emptyDocument _
    (load?_document (by cbv) (by cbv) readDefinition_emptyDocument)⟩
  rw [handle_of_load?_eq_error hl]
  change boundToNothing.prune.broken.insert (Path.mk "a").key = _
  rw [hb, List.insert_nil]

end Session

end ViewMarkup
