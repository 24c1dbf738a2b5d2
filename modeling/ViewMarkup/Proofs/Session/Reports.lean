import ViewMarkup.Proofs.Session.Staleness

/-!
# What attempts to apply roots report

An attempt changes the tree, the attempted root and the errors, and nothing else of a session. A
failure is recorded for the document of the root. Only when all attempts of a change are over errors
are removed: those of documents with a root that was applied and none that failed.

## Main definitions

* `Session.OnlyRoots` — a session differs from another in its tree, its roots and its errors alone.
* `Session.Tries` — what attempts do to the errors of a session.

## Main statements

* `Session.attemptAll_tries` — attempts remove no error and record every failure.
* `Session.contains_clearSucceeded` — which errors are left when the attempts are over.
* `Session.Noted.reapply_reports` — the errors after the roots that depend on a change are attempted.
-/

namespace ViewMarkup

variable {H : Type}

namespace Diagnostics

variable {d : Diagnostics} {p q : Path}

/-- A path has an error if one was just recorded for it or it had one before. -/
lemma contains_record (message : String) :
    (d.record p message).contains q = true ↔ p.key = q.key ∨ d.contains q = true := by
  rw [contains, get?_record, contains]
  split
  · next h => exact iff_of_true rfl (.inl h)
  · next h => exact ⟨.inr, fun hq => hq.resolve_left h⟩

/-- A path has an error after others were cleared, if it had one and was not cleared. -/
lemma contains_clear : (d.clear p).contains q = true ↔ p.key ≠ q.key ∧ d.contains q = true := by
  rw [contains, get?_clear, contains]
  split
  · next h => exact iff_of_false (nofun) fun hq => hq.1 h
  · next h => exact ⟨fun hq => ⟨h, hq⟩, fun hq => hq.2⟩

/-- So it is when several paths are cleared. -/
lemma contains_foldl_clear (ps : List Path) (d : Diagnostics) :
    (ps.foldl clear d).contains q = true ↔ (∀ p ∈ ps, p.key ≠ q.key) ∧ d.contains q = true := by
  induction ps generalizing d with
  | nil => simp
  | cons p ps ih => rw [List.foldl_cons, ih, contains_clear, List.forall_mem_cons, and_left_comm, and_assoc]

/-- The spelling of a path does not matter. -/
lemma contains_congr (h : p.key = q.key) : d.contains p = d.contains q := by
  rw [contains, contains, get?, get?, h]

end Diagnostics

namespace Session

/-- A session differs from another in its tree, its roots and its errors alone. -/
def OnlyRoots (s s' : Session H) : Prop :=
  s' = { s with tree := s'.tree, roots := s'.roots, diagnostics := s'.diagnostics }

namespace OnlyRoots

variable {s s' s'' : Session H}

/-- Nothing happens. -/
lemma refl (s : Session H) : s.OnlyRoots s := rfl

/-- Roots are attempted, and then others. -/
lemma trans (h : s.OnlyRoots s') (h' : s'.OnlyRoots s'') : s.OnlyRoots s'' := by
  unfold OnlyRoots at *
  rw [h'.trans (by rw [h])]

end OnlyRoots

/-- What attempts do to a session: their failures are recorded, no error is removed, and every root
keeps its document. -/
structure Tries (s : Session H) (as : List Attempt) (s' : Session H) : Prop where
  /-- Nothing else changes. -/
  only : s.OnlyRoots s'
  /-- Every root keeps its document. -/
  path_eq : ∀ id, (s'.roots.get? id).map (·.path) = (s.roots.get? id).map (·.path)
  /-- Failures are recorded. -/
  reported : ∀ a ∈ as, a.succeeded = false → s'.diagnostics.contains a.path = true
  /-- No error is removed. -/
  kept : ∀ p, s.diagnostics.contains p = true → s'.diagnostics.contains p = true

/-- Some attempts and then others. -/
lemma Tries.append {s s' s'' : Session H} {as bs : List Attempt} (h : s.Tries as s')
    (h' : s'.Tries bs s'') : s.Tries (as ++ bs) s'' where
  only := h.only.trans h'.only
  path_eq id := (h'.path_eq id).trans (h.path_eq id)
  reported a ha hf := by
    rcases List.mem_append.1 ha with ha | ha
    · exact h'.kept _ (h.reported a ha hf)
    · exact h'.reported a ha hf
  kept p hp := h'.kept p (h.kept p hp)

variable [Widget H] {s : Session H}

/-- Applying a root reports nothing. -/
lemma applyRoot_tries (s : Session H) (id : RootId) :
    s.Tries [] (s.applyRoot id).2 ∧ (s.applyRoot id).2.diagnostics = s.diagnostics := by
  have kept : ∀ s' : Session H, s.OnlyRoots s' → s'.diagnostics = s.diagnostics →
      (∀ id', (s'.roots.get? id').map (·.path) = (s.roots.get? id').map (·.path)) →
      s.Tries [] s' ∧ s'.diagnostics = s.diagnostics := fun s' ho hd hp =>
    ⟨⟨ho, hp, fun _ h => (List.not_mem_nil h).elim, fun _ h => hd ▸ h⟩, hd⟩
  have modified : ∀ (f : Root → Root), (∀ r, (f r).path = r.path) → ∀ id',
      ((s.roots.modify id f).get? id').map (·.path) = (s.roots.get? id').map (·.path) := by
    intro f hf id'
    rw [Roots.get?_modify]
    split
    · rw [Option.map_map]
      exact Option.map_congr fun r _ => hf r
    · rfl
  unfold applyRoot
  split
  · exact kept s rfl rfl fun _ => rfl
  · unfold applyTo
    simp only
    split
    · exact kept _ rfl rfl (modified _ fun _ => rfl)
    · split <;> exact kept _ rfl rfl (modified _ fun _ => rfl)

/-- An attempt tries the root that it is of. -/
lemma attempt_tries (s : Session H) (id : RootId) (path : Path) :
    ((s.attempt id path).1.root, (s.attempt id path).1.path) = (id, path) ∧
      s.Tries [(s.attempt id path).1] (s.attempt id path).2 := by
  obtain ⟨h, hd⟩ := applyRoot_tries s id
  unfold attempt
  split
  · next ha =>
    rw [ha] at h
    refine ⟨rfl, h.only, h.path_eq, fun a ha hf => ?_, h.kept⟩
    rw [List.mem_singleton.1 ha] at hf
    cases hf
  · next e s' ha =>
    rw [ha] at h hd
    refine ⟨rfl, h.only.trans rfl, h.path_eq, fun a ha _ => ?_, fun p hp => ?_⟩
    · rw [List.mem_singleton.1 ha]
      exact (Diagnostics.contains_record _).2 (.inl rfl)
    · exact (Diagnostics.contains_record _).2 (.inr (h.kept p hp))

/-- **Attempts remove no error and record every failure**, for the documents they are made for. -/
theorem attemptAll_tries (s : Session H) (es : List (RootId × Path)) :
    (s.attemptAll es).1.map (fun a => (a.root, a.path)) = es ∧
      s.Tries (s.attemptAll es).1 (s.attemptAll es).2 := by
  induction es generalizing s with
  | nil =>
    exact ⟨rfl, .refl s, fun _ => rfl, fun _ h => (List.not_mem_nil h).elim, fun _ h => h⟩
  | cons e es ih =>
    obtain ⟨hroot, h⟩ := s.attempt_tries e.1 e.2
    obtain ⟨hroots, h'⟩ := ih (s.attempt e.1 e.2).2
    exact ⟨congrArg₂ List.cons hroot hroots, h.append h'⟩

omit [Widget H] in
/-- An error is left unless its document has an attempt that succeeded, none that failed, and is not
broken. -/
theorem contains_clearSucceeded (s : Session H) (as : List Attempt) (p : Path) :
    (s.clearSucceeded as).diagnostics.contains p = true ↔ s.diagnostics.contains p = true ∧
      ¬ ((∃ a ∈ as, a.succeeded = true ∧ a.path.key = p.key) ∧
        (∀ a ∈ as, a.succeeded = false → a.path.key ≠ p.key) ∧ p.key ∉ s.broken) := by
  unfold clearSucceeded
  simp only
  rw [Diagnostics.contains_foldl_clear, and_comm]
  refine and_congr_right fun _ => ?_
  simp only [List.forall_mem_map, List.mem_filter, Bool.and_eq_true, Bool.not_eq_true',
    List.any_eq_false, decide_eq_true_eq, List.contains_eq_mem,
    decide_eq_false_iff_not, not_and]
  constructor
  · rintro h ⟨a, ha, hs, hk⟩ hf
    by_contra hb
    refine h a ⟨ha, ⟨hs, fun b hb' hbs hbk => ?_⟩, hk ▸ hb⟩ hk
    exact hf b hb' hbs (hbk.trans hk)
  · rintro h a ⟨ha, ⟨hs, hf⟩, hb⟩ hk
    refine h ⟨a, ha, hs, hk⟩ (fun b hb' hbs hbk => ?_) (hk ▸ hb)
    exact hf b hb' hbs (hbk.trans hk.symm)

/-- Applying roots again changes nothing else. -/
lemma reapply_onlyRoots (s : Session H) (changed : Path) : s.OnlyRoots (s.reapply changed).2 :=
  (s.attemptAll_tries _).2.only.trans rfl

/-! ### After a change -/

/-- A change is over that gave an outcome, and it removed the error of a document: one of its roots
was applied, none failed, and the document is not broken. -/
def Silences (after : Session H) (o : Outcome) (p : Path) : Prop :=
  (∃ id ∈ o.reapplied, ∃ r, after.roots.get? id = some r ∧ r.path.key = p.key) ∧
    (∀ id ∈ o.failed, ∀ r, after.roots.get? id = some r → r.path.key ≠ p.key) ∧
    p.key ∉ after.broken

/-- **The errors after a change**: every root that failed has one for its document, and all other
errors are left unless the change silenced them. -/
theorem Noted.reapply_reports {tried : List RootId} (h : Noted s tried) (changed : Path) :
    s.OnlyRoots (s.reapply changed).2 ∧
    (∀ id, ((s.reapply changed).2.roots.get? id).map (·.path) = (s.roots.get? id).map (·.path)) ∧
    (∀ id ∈ (s.reapply changed).1.failed, ∀ r, (s.reapply changed).2.roots.get? id = some r →
      (s.reapply changed).2.diagnostics.contains r.path = true) ∧
    ∀ p, s.diagnostics.contains p = true → ¬ (s.reapply changed).2.Silences (s.reapply changed).1 p →
      (s.reapply changed).2.diagnostics.contains p = true := by
  obtain ⟨hes, T⟩ := s.attemptAll_tries ((s.staleRoots changed).map fun e => (e.1, e.2.path))
  rcases hall : s.attemptAll ((s.staleRoots changed).map fun e => (e.1, e.2.path)) with ⟨as, s'⟩
  rw [hall] at hes T
  simp only at hes T
  have hreapply : s.reapply changed =
      ({ path := changed
         reapplied := (as.filter (·.succeeded)).map (·.root)
         failed := (as.filter (!·.succeeded)).map (·.root) }, s'.clearSucceeded as) := by
    rw [Session.reapply, hall]
  -- An attempt is made for the document of its root.
  have attempted : ∀ a ∈ as, ∃ r, s'.roots.get? a.root = some r ∧ r.path = a.path := by
    intro a ha
    have hm : (a.root, a.path) ∈ as.map fun a => (a.root, a.path) := List.mem_map_of_mem ha
    rw [hes] at hm
    obtain ⟨e, he, heq⟩ := List.mem_map.1 hm
    obtain ⟨hid, hpath⟩ := Prod.mk.inj heq
    have hp := T.path_eq e.1
    rw [(h.mem_staleRoots_iff.1 he).1] at hp
    obtain ⟨r, hr, hrp⟩ := Option.map_eq_some_iff.1 hp
    exact ⟨r, hid ▸ hr, hrp.trans hpath⟩
  have ofRoot : ∀ a ∈ as, ∀ r, s'.roots.get? a.root = some r → r.path = a.path := by
    intro a ha r hr
    obtain ⟨r', hr', hp⟩ := attempted a ha
    cases hr.symm.trans hr'
    exact hp
  rw [hreapply]
  refine ⟨hreapply ▸ s.reapply_onlyRoots changed, T.path_eq, fun id hid r hr => ?_, fun p hp hs => ?_⟩
  · obtain ⟨a, ha, rfl⟩ := List.mem_map.1 hid
    rw [List.mem_filter, Bool.not_eq_true'] at ha
    rw [contains_clearSucceeded, ofRoot a ha.1 r hr]
    exact ⟨T.reported a ha.1 ha.2, fun hc => hc.2.1 a ha.1 ha.2 rfl⟩
  · rw [contains_clearSucceeded]
    refine ⟨T.kept p hp, fun hc => hs ⟨?_, ?_, hc.2.2⟩⟩
    · obtain ⟨⟨a, ha, hsucc, hk⟩, -⟩ := hc
      obtain ⟨r, hr, hp⟩ := attempted a ha
      exact ⟨a.root, List.mem_map_of_mem (List.mem_filter.2 ⟨ha, hsucc⟩), r, hr, hp ▸ hk⟩
    · intro id hid r hr
      obtain ⟨a, ha, rfl⟩ := List.mem_map.1 hid
      rw [List.mem_filter, Bool.not_eq_true'] at ha
      rw [ofRoot a ha.1 r hr]
      exact hc.2.1 a ha.1 ha.2

end Session

end ViewMarkup
