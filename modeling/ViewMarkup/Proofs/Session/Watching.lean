import ViewMarkup.Proofs.Fallible
import ViewMarkup.Proofs.Session.Loading
import ViewMarkup.Session.Polling

/-!
# Changes of a watched file

A session loads a file when it handles a change, and a watcher reports a change when two looks show
different stamps. In between the file may be written at any time. A writing is not lost if the
watcher had looked before it, since the next look shows another stamp, or if a change of the file is
handled after it. The first look of a watcher is only the baseline: what is written after the file
was loaded and before that look goes unnoticed until the file is written again.

Meanwhile other files may be written, and other watchers may look and report them. A change of another
document that is handled takes nothing from the file if a change of the file still waits, or if the
two hold nothing of one name.

## Main definitions

* `WatchKind`, `Session.watcher?`, `Session.lookAt` — a single look of one watcher.
* `WatchCourse`, `Session.Watching` — a file is watched while it is written, looked at and loaded.
* `Session.OnCourse` — the invariant.

## Main statements

* `Session.poll_eq_lookAt` — letting time pass is a look of each watcher, one after the other.
* `Session.Watching.onCourse` — the invariant holds at every time.
* `Session.Watching.poll` — letting time pass is a part of the course of a watched file.
* `Session.hasLoaded_of_watching` — a noticed writing is loaded when all changes have been handled.
-/

namespace ViewMarkup

variable {H : Type}

/-- Why a file is watched. -/
inductive WatchKind where
  /-- Roots are bound to the document. -/
  | document
  /-- The document holds shared styles. -/
  | styles
deriving Repr, DecidableEq

/-- A watcher that looks on after a look has noted what it saw. -/
lemma Watcher.poll_of_not_isEnded {d : Directory} {x : Watcher}
    (h : (x.poll d true).2.isEnded = false) :
    x.isEnded = false ∧ (x.poll d true).2 = { x with detector := ⟨some (d.stamp? x.path)⟩ } ∧
      (x.poll d true).1 = x.detector.last.any fun last => last ≠ d.stamp? x.path := by
  unfold poll at h ⊢
  split at h
  · next hp =>
    split at h
    · cases h
    · next hi =>
      simp only [hp, hi, ChangeDetector.observe, Bool.not_true, Bool.and_false, isEnded]
      exact ⟨rfl, rfl, rfl⟩
  · cases h

namespace Session

/-- The watcher of a file. -/
def watcher? (s : Session H) : WatchKind → PathKey → Option Watcher
  | .document, key => (s.documents.get? key).bind (·.watcher)
  | .styles, key => (s.styleDocuments.get? key).bind (·.watcher)

/-- The session after one of its watchers has looked. -/
def lookAt (s : Session H) (files : Directory) (kind : WatchKind) (key : PathKey) : Session H :=
  let queue := s.queue ++ (look files (s.watcher? kind key)).1
  match kind with
  | .document =>
      { s with
        queue
        documents := s.documents.modify key fun watch =>
          { watch with watcher := (look files watch.watcher).2 } }
  | .styles =>
      { s with
        queue
        styleDocuments := s.styleDocuments.modify key fun watch =>
          { watch with watcher := (look files watch.watcher).2 } }

/-! ### Looking -/

section look

variable {files : Directory} {kind : WatchKind} {key : PathKey}

/-- A look reports what its watcher saw. -/
lemma queue_lookAt (s : Session H) (files : Directory) (kind : WatchKind) (key : PathKey) :
    (s.lookAt files kind key).queue = s.queue ++ (look files (s.watcher? kind key)).1 := by
  cases kind <;> rfl

/-- A look concerns no other watcher of the same kind. -/
lemma watcher?_lookAt (s : Session H) (key' : PathKey) :
    (s.lookAt files kind key).watcher? kind key' =
      if key = key' then (look files (s.watcher? kind key')).2 else s.watcher? kind key' := by
  cases kind with
  | document =>
    change ((s.documents.modify key _).get? key').bind _ =
      if key = key' then (look files ((s.documents.get? key').bind _)).2 else _
    rw [Table.get?_modify]
    split
    · cases s.documents.get? key' <;> rfl
    · rfl
  | styles =>
    change ((s.styleDocuments.modify key _).get? key').bind _ =
      if key = key' then (look files ((s.styleDocuments.get? key').bind _)).2 else _
    rw [Table.get?_modify]
    split
    · cases s.styleDocuments.get? key' <;> rfl
    · rfl

/-- A look concerns no watcher but the one that looks. -/
lemma watcher?_lookAt_of_ne (s : Session H) {kind' : WatchKind} {key' : PathKey}
    (hne : (kind', key') ≠ (kind, key)) :
    (s.lookAt files kind' key').watcher? kind key = s.watcher? kind key := by
  by_cases hk : kind' = kind
  · subst hk
    rw [watcher?_lookAt, if_neg]
    rintro rfl
    exact hne rfl
  · cases kind <;> cases kind'
    · exact (hk rfl).elim
    · rfl
    · rfl
    · exact (hk rfl).elim

/-- Looks of different watchers report what each of them saw. -/
lemma queue_foldl_lookAt {keys : List PathKey} (hn : keys.Nodup) (s : Session H) :
    (keys.foldl (fun s key => s.lookAt files kind key) s).queue =
      s.queue ++ keys.flatMap fun key => (look files (s.watcher? kind key)).1 := by
  induction keys generalizing s with
  | nil => rw [List.flatMap_nil, List.append_nil]; rfl
  | cons key keys ih =>
    obtain ⟨hk, hn⟩ := List.nodup_cons.1 hn
    have other : ∀ key' ∈ keys, (look files ((s.lookAt files kind key).watcher? kind key')).1 =
        (look files (s.watcher? kind key')).1 := by
      intro key' hk'
      rw [watcher?_lookAt, if_neg]
      rintro rfl
      exact hk hk'
    rw [List.foldl_cons, ih hn, List.flatMap_congr other, queue_lookAt, List.append_assoc,
      List.flatMap_cons]

/-- Looks at documents of shared styles change their watchers and the queue. -/
lemma foldl_lookAt_styles (keys : List PathKey) (s : Session H) :
    keys.foldl (fun s key => s.lookAt files .styles key) s =
      { s with
        styleDocuments := keys.foldl (fun t key => t.modify key fun watch =>
          { watch with watcher := (look files watch.watcher).2 }) s.styleDocuments
        queue := (keys.foldl (fun s key => s.lookAt files .styles key) s).queue } := by
  induction keys generalizing s with
  | nil => rfl
  | cons key keys ih => exact ih _

/-- Looks at documents of roots do so as well. -/
lemma foldl_lookAt_document (keys : List PathKey) (s : Session H) :
    keys.foldl (fun s key => s.lookAt files .document key) s =
      { s with
        documents := keys.foldl (fun t key => t.modify key fun watch =>
          { watch with watcher := (look files watch.watcher).2 }) s.documents
        queue := (keys.foldl (fun s key => s.lookAt files .document key) s).queue } := by
  induction keys generalizing s with
  | nil => rfl
  | cons key keys ih => exact ih _

/-- **Letting time pass is a look of each watcher**, one after the other. -/
theorem poll_eq_lookAt (s : Session H) (hs : s.styleDocuments.keys.Nodup)
    (hd : s.documents.keys.Nodup) (files : Directory) :
    s.poll files =
      s.documents.keys.foldl (fun s key => s.lookAt files .document key)
        (s.styleDocuments.keys.foldl (fun s key => s.lookAt files .styles key) s) := by
  have styles : (s.styleDocuments.keys.flatMap fun key => (look files (s.watcher? .styles key)).1) =
      s.styleDocuments.values.flatMap fun watch => (look files watch.watcher).1 :=
    Table.flatMap_keys hs fun watch => (look files (watch.bind (·.watcher))).1
  have documents : (s.documents.keys.flatMap fun key => (look files (s.watcher? .document key)).1) =
      s.documents.values.flatMap fun watch => (look files watch.watcher).1 :=
    Table.flatMap_keys hd fun watch => (look files (watch.bind (·.watcher))).1
  rw [foldl_lookAt_document, queue_foldl_lookAt hd, foldl_lookAt_styles, queue_foldl_lookAt hs,
    Table.foldl_modify_keys hs, Table.foldl_modify_keys hd, List.append_assoc]
  unfold poll
  rw [← styles, ← documents]
  rfl

/-- What is found at a path decides what has to be loaded for it. -/
lemma HasLoaded.of_read_eq {s : Session H} {w w' : World} {p : Path}
    (hread : w'.files.read p = w.files.read p) (h : s.HasLoaded w p) : s.HasLoaded w' p := by
  unfold HasLoaded World.readStyles World.readDefinition at h ⊢
  rwa [hread]

/-- A look loads nothing. -/
lemma HasLoaded.lookAt {s : Session H} {w : World} {p : Path} (h : s.HasLoaded w p)
    (files : Directory) (kind : WatchKind) (key : PathKey) :
    (s.lookAt files kind key).HasLoaded w p := by
  cases kind with
  | document => exact h
  | styles =>
    unfold HasLoaded at h ⊢
    rw [show (s.lookAt files .styles key).styleDocuments.get? p.key = _ from
      Table.get?_modify _ _ _ _]
    cases hw : s.styleDocuments.get? p.key with
    | none =>
      rw [hw] at h
      rw [Option.map_none, ite_self]
      exact h
    | some watch =>
      rw [hw] at h
      by_cases hk : key = p.key
      · rw [if_pos hk]
        exact h
      · rw [if_neg hk]
        exact h

end look

end Session

/-! ### Watching a file -/

/-- What has happened to a file since it is watched. -/
structure WatchCourse where
  /-- The stamps that the file has had, and the one that its watcher had seen last before. -/
  stamps : List (Option Stamp)
  /-- Whether the watcher has looked. -/
  looked : Bool
  /-- Whether the watcher has looked since the file was written last. -/
  polled : Bool := true
  /-- Whether the watcher had looked before the file was written last, or a change of the file was
  handled afterwards. -/
  noticed : Bool := true
  /-- Whether other watchers have looked, so that changes of other files may wait after its own. -/
  joined : Bool := false

namespace WatchCourse

/-- The file is watched from now on. -/
def start (stamp : Option Stamp) (watcher : Option Watcher) : WatchCourse :=
  let last := watcher.bind (·.detector.last)
  { stamps := stamp :: last.toList, looked := last.isSome }

/-- The file is written. -/
def write (c : WatchCourse) (stamp : Option Stamp) : WatchCourse :=
  { c with stamps := stamp :: c.stamps, polled := false, noticed := c.looked }

/-- The watcher looks. -/
def look (c : WatchCourse) : WatchCourse := { c with looked := true, polled := true }

/-- Another watcher looks. -/
def join (c : WatchCourse) : WatchCourse := { c with joined := true }

/-- A change is handled, of the file itself or of another one. -/
def handle (c : WatchCourse) (own : Bool) : WatchCourse := { c with noticed := c.noticed || own }

end WatchCourse

namespace Session

/-- A session came about by watching a file, while at any time the file or another one is written, its
watcher or another one looks, or the change that waits longest is handled. -/
inductive Watching [Widget H] (p : Path) :
    WatchKind → Session H → World → WatchCourse → Prop where
  /-- A root is bound to the document. -/
  | register {s s' : Session H} {w : World} {b : Binding} {path? : Option Path} {id : RootId}
      (h : s.register w b path? = (.ok id, s'))
      (hp : path?.or ((s.definitions.get? b.typeName).map (·.path)) = some p) :
      Watching p .document s' w (.start (w.files.stamp? p) (s'.watcher? .document p.key))
  /-- The document is watched for shared styles. -/
  | watchStyles {s s' : Session H} {w : World} (hs : s.styleDocuments.contains p.key = false)
      (h : s.watchStyles w p = (.ok (), s')) :
      Watching p .styles s' w (.start (w.files.stamp? p) (s'.watcher? .styles p.key))
  /-- The file is written and gets a stamp that was not seen before. -/
  | write {kind : WatchKind} {s : Session H} {w : World} {c : WatchCourse} (w' : World)
      (hnew : w'.files.stamp? p ∉ c.stamps) (h : Watching p kind s w c) :
      Watching p kind s w' (c.write (w'.files.stamp? p))
  /-- The watcher looks. -/
  | look {kind : WatchKind} {s : Session H} {w : World} {c : WatchCourse}
      (h : Watching p kind s w c) : Watching p kind (s.lookAt w.files kind p.key) w c.look
  /-- Another file is written. -/
  | writeOther {kind : WatchKind} {s : Session H} {w : World} {c : WatchCourse} (w' : World)
      (hstamp : w'.files.stamp? p = w.files.stamp? p) (hread : w'.files.read p = w.files.read p)
      (h : Watching p kind s w c) : Watching p kind s w' c
  /-- Another watcher looks, and may report a change of another file. -/
  | lookOther {kind : WatchKind} {s : Session H} {w : World} {c : WatchCourse} {kind' : WatchKind}
      {key : PathKey} (hne : (kind', key) ≠ (kind, p.key)) (h : Watching p kind s w c) :
      Watching p kind (s.lookAt w.files kind' key) w c.join
  /-- The change that waits longest is handled. A change of another document comes before one of the
  file, as it always does for a document that roots are bound to while no other watcher looks, or it
  spares the file. -/
  | handle {kind : WatchKind} {s s' : Session H} {w : World} {c : WatchCourse} {o : Outcome}
      (hh : s.handleNext? w = some (o, s'))
      (hs : o.path = p ∨ (kind = .document ∧ c.joined = false) ∨ p ∈ s'.queue ∨
        s.Spares w p o.path s')
      (h : Watching p kind s w c) : Watching p kind s' w (c.handle (o.path = p))

/-- The invariant while a file is watched: a noticed writing is loaded, or a change of the file
waits, or the next look will report one. -/
structure OnCourse (p : Path) (kind : WatchKind) (s : Session H) (w : World) (c : WatchCourse)
    (x : Watcher) : Prop where
  /-- The stamp of the file is known. -/
  stamp_mem : w.files.stamp? p ∈ c.stamps
  /-- What the watcher saw last was a stamp of the file. -/
  last_mem : ∀ stamp, x.detector.last = some stamp → stamp ∈ c.stamps
  /-- The watcher has noted its look. -/
  looked : c.looked = true → x.detector.last.isSome = true
  /-- Unless other watchers look, no change is handled after the last one of a document that roots are
  bound to. -/
  getLast?_queue : kind = .document → c.joined = false → ∀ q, s.queue.getLast? = some q → q = p
  /-- A noticed writing is not lost. -/
  noticed : c.noticed = true → p ∈ s.queue ∨ s.HasLoaded w p ∨
    c.polled = false ∧ ∃ stamp, x.detector.last = some stamp ∧ stamp ≠ w.files.stamp? p

/-- The watcher that looks at a file and has not ended. -/
structure IsWatchedBy (s : Session H) (kind : WatchKind) (p : Path) (x : Watcher) : Prop where
  /-- It is the session's watcher of the file. -/
  watcher?_eq : s.watcher? kind p.key = some x
  /-- It looks at the path as it is spelled. -/
  path_eq : x.path = p
  /-- It looks on. -/
  isEnded_eq : x.isEnded = false

variable {p q : Path} {kind : WatchKind} {key : PathKey} {s s' : Session H} {w w' : World}
  {c : WatchCourse} {x : Watcher} {o : Outcome}

/-- A watcher that there is after a change was there before. -/
lemma Changes.watcher?_eq (h : s.Changes w q s') (hx : s'.watcher? kind key = some x) :
    s.watcher? kind key = some x := by
  cases kind with
  | document =>
    change (s'.documents.get? key).bind _ = _ at hx
    obtain ⟨watch', hw', hx⟩ := Option.bind_eq_some_iff.1 hx
    rw [h.documents_eq] at hw'
    obtain ⟨watch, hw, he⟩ := (Leaves.prune s).documents key watch' hw'
    exact Option.bind_eq_some_iff.2 ⟨watch, hw, he.trans hx⟩
  | styles =>
    change (s'.styleDocuments.get? key).bind _ = _ at hx
    change (s.styleDocuments.get? key).bind _ = _
    rcases h.get?_styleDocuments key with he | ⟨-, g, -, he⟩
    · rwa [he] at hx
    · rw [he, Option.bind_map] at hx
      exact hx

/-- The file is one that the session has to do with. -/
lemma IsWatchedBy.contains (h : s.IsWatchedBy kind p x) :
    s.styleDocuments.contains p.key = true ∨ s.documents.contains p.key = true := by
  obtain ⟨hx, -, -⟩ := h
  cases kind with
  | document =>
    obtain ⟨watch, hw, -⟩ := Option.bind_eq_some_iff.1 hx
    exact .inr (Option.isSome_iff_exists.2 ⟨watch, hw⟩)
  | styles =>
    obtain ⟨watch, hw, -⟩ := Option.bind_eq_some_iff.1 hx
    exact .inl (Option.isSome_iff_exists.2 ⟨watch, hw⟩)

/-- A watcher that there is after a change was there before. -/
lemma IsWatchedBy.of_changes (hx : s'.IsWatchedBy kind p x) (h : s.Changes w q s') :
    s.IsWatchedBy kind p x :=
  ⟨h.watcher?_eq hx.watcher?_eq, hx.path_eq, hx.isEnded_eq⟩

/-- A watcher that looks on has reported a change of the file if it saw one. -/
lemma IsWatchedBy.of_lookAt {files : Directory}
    (h : (s.lookAt files kind p.key).IsWatchedBy kind p x) :
    ∃ x₀, s.IsWatchedBy kind p x₀ ∧ x.detector.last = some (files.stamp? p) ∧
      (s.lookAt files kind p.key).queue = s.queue ++
        if x₀.detector.last.any (· ≠ files.stamp? p) then [p] else [] := by
  obtain ⟨hx, hpath, hended⟩ := h
  rw [watcher?_lookAt, if_pos rfl] at hx
  rw [queue_lookAt]
  cases h₀ : s.watcher? kind p.key with
  | none =>
    rw [h₀] at hx
    cases hx
  | some x₀ =>
    rw [h₀] at hx
    change some (x₀.poll files true).2 = some x at hx
    obtain rfl := Option.some.inj hx
    obtain ⟨hrunning, hnoted, hchanged⟩ := Watcher.poll_of_not_isEnded hended
    have hpath₀ : x₀.path = p := by
      rw [hnoted] at hpath
      exact hpath
    refine ⟨x₀, ⟨h₀, hpath₀, hrunning⟩, ?_, ?_⟩
    · rw [hnoted, hpath₀]
    · change _ ++ (if (x₀.poll files true).1 then [(x₀.poll files true).2.path] else []) = _
      rw [hchanged, hpath, hpath₀]

namespace OnCourse

/-- Watching begins with a change that waits, or with the file loaded. -/
lemma start (hx : s.IsWatchedBy kind p x)
    (hlast : kind = .document → ∀ q, s.queue.getLast? = some q → q = p)
    (hn : p ∈ s.queue ∨ s.HasLoaded w p) :
    OnCourse p kind s w (.start (w.files.stamp? p) (s.watcher? kind p.key)) x where
  stamp_mem := List.mem_cons_self
  last_mem stamp hs := by
    rw [hx.watcher?_eq]
    exact List.mem_cons_of_mem _ (Option.mem_toList.2 hs)
  looked h := by
    rw [hx.watcher?_eq] at h
    exact h
  getLast?_queue hk _ := hlast hk
  noticed _ := hn.imp_right .inl

/-- Once the watcher has looked, it will see that the file has been written. -/
lemma write (h : OnCourse p kind s w c x) (hnew : w'.files.stamp? p ∉ c.stamps) :
    OnCourse p kind s w' (c.write (w'.files.stamp? p)) x where
  stamp_mem := List.mem_cons_self
  last_mem stamp hs := List.mem_cons_of_mem _ (h.last_mem stamp hs)
  looked := h.looked
  getLast?_queue := h.getLast?_queue
  noticed hn := by
    obtain ⟨stamp, hs⟩ := Option.isSome_iff_exists.1 (h.looked hn)
    refine .inr (.inr ⟨rfl, stamp, hs, ?_⟩)
    rintro rfl
    exact hnew (h.last_mem _ hs)

/-- A look reports a change that has not been reported. -/
lemma look {x₀ : Watcher} (h : OnCourse p kind s w c x₀)
    (hlast : x.detector.last = some (w.files.stamp? p))
    (hq : (s.lookAt w.files kind p.key).queue = s.queue ++
      if x₀.detector.last.any (· ≠ w.files.stamp? p) then [p] else []) :
    OnCourse p kind (s.lookAt w.files kind p.key) w c.look x where
  stamp_mem := h.stamp_mem
  last_mem stamp hs := by
    rw [hlast] at hs
    cases hs
    exact h.stamp_mem
  looked _ := by rw [hlast]; rfl
  getLast?_queue hk hj q hlq := by
    rw [hq] at hlq
    split at hlq
    · rw [List.getLast?_concat] at hlq
      exact (Option.some.inj hlq).symm
    · rw [List.append_nil] at hlq
      exact h.getLast?_queue hk hj q hlq
  noticed hn := by
    rw [hq]
    rcases h.noticed hn with hp | hl | ⟨-, stamp, hs, hne⟩
    · exact .inl (List.mem_append_left _ hp)
    · exact .inr (.inl (hl.lookAt _ _ _))
    · rw [hs, Option.any_some, if_pos (decide_eq_true hne)]
      exact .inl (List.mem_append_right _ (List.mem_singleton_self p))

/-- What is written elsewhere does not concern the file. -/
lemma writeOther (h : OnCourse p kind s w c x) (hstamp : w'.files.stamp? p = w.files.stamp? p)
    (hread : w'.files.read p = w.files.read p) : OnCourse p kind s w' c x where
  stamp_mem := hstamp ▸ h.stamp_mem
  last_mem := h.last_mem
  looked := h.looked
  getLast?_queue := h.getLast?_queue
  noticed hn := by
    rw [hstamp]
    exact (h.noticed hn).imp_right (.imp_left (.of_read_eq hread))

/-- The look of another watcher takes nothing from the file, but it may report another one. -/
lemma lookOther (h : OnCourse p kind s w c x) (files : Directory) (kind' : WatchKind)
    (key : PathKey) : OnCourse p kind (s.lookAt files kind' key) w c.join x where
  stamp_mem := h.stamp_mem
  last_mem := h.last_mem
  looked := h.looked
  getLast?_queue _ hj := nomatch hj
  noticed hn := by
    rw [queue_lookAt]
    exact (h.noticed hn).imp (List.mem_append_left _) (.imp_left fun hl => hl.lookAt _ _ _)

/-- Handling the change that waits longest: a change of the file loads it, and so does nothing that
is handled afterwards undo this. -/
lemma handle {queue : List Path} (h : OnCourse p kind s w c x) (hqueue : s.queue = q :: queue)
    (hc : Changes { s with queue } w q s') (hx : s'.IsWatchedBy kind p x)
    (hs : q = p ∨ (kind = .document ∧ c.joined = false) ∨ p ∈ s'.queue ∨ s.Spares w p q s') :
    OnCourse p kind s' w (c.handle (q = p)) x where
  stamp_mem := h.stamp_mem
  last_mem := h.last_mem
  looked := h.looked
  getLast?_queue hk hj q' hlast := by
    refine h.getLast?_queue hk hj q' ?_
    rw [hc.queue_eq] at hlast
    rw [hqueue, List.getLast?_cons, hlast]
    rfl
  noticed hn := by
    by_cases hqp : q = p
    · exact .inr (.inl ((hqp ▸ hc).hasLoaded hx.contains))
    · have hn : c.noticed = true := by simpa [WatchCourse.handle, hqp] using hn
      rw [hc.queue_eq]
      rcases h.noticed hn with hm | hl | hlater
      · rw [hqueue, List.mem_cons] at hm
        exact .inl (hm.resolve_left (Ne.symm hqp))
      · rw [← hc.queue_eq]
        rcases hs.resolve_left hqp with ⟨hk, hj⟩ | hwaits | hp
        · -- The last change that waits is one of the file, and it is not the one that is handled.
          rw [hc.queue_eq]
          refine .inl (List.mem_of_getLast? ?_)
          cases hlast : queue.getLast? with
          | none =>
            refine (hqp (h.getLast?_queue hk hj q ?_)).elim
            rw [hqueue, List.getLast?_cons, hlast]
            rfl
          | some q' =>
            rw [h.getLast?_queue hk hj q' (by rw [hqueue, List.getLast?_cons, hlast]; rfl)]
        · exact .inl hwaits
        · have hl : HasLoaded { s with queue } w p := hl
          exact .inr (.inl (hl.of_spares hc
            ⟨hp.key_ne, hp.contains_documents, hp.group_ne, hp.types_ne⟩))
      · exact .inr (.inr hlater)

end OnCourse

/-! ### The course of watching -/

/-- Registering a root reports a change of its document. -/
lemma queue_register {b : Binding} {path? : Option Path} {id : RootId}
    (h : s.register w b path? = (.ok id, s'))
    (hp : path?.or ((s.definitions.get? b.typeName).map (·.path)) = some p) :
    s'.queue = s.queue ++ [p] := by
  have hwatch : ∀ s₁ : Session H, s.watchDocument w p = (.ok (), s₁) → s₁.queue = s.queue := by
    intro s₁ hs₁
    unfold watchDocument at hs₁
    split at hs₁
    · cases hs₁
      rfl
    · split at hs₁
      · cases hs₁
      · cases hs₁
        rfl
  rw [register, hp] at h
  simp only at h
  split at h
  · cases h
  · next s₁ hs₁ =>
    cases h
    change s₁.queue ++ [p] = _
    rw [hwatch s₁ hs₁]

variable [Widget H]

/-- What has been handled is the change that was to be handled. -/
lemma handle_path (s : Session H) (w : World) (q : Path) : (s.handle w q).1.path = q := by
  unfold Session.handle
  simp only
  split <;> rfl

/-- The change that is handled is the one that waited longest. -/
lemma exists_of_handleNext? (h : s.handleNext? w = some (o, s')) :
    ∃ queue, s.queue = o.path :: queue ∧ Changes { s with queue } w o.path s' := by
  unfold handleNext? at h
  split at h
  · cases h
  · next q queue hq =>
    have ho := Option.some.inj h
    have hpath : o.path = q := by
      rw [← handle_path { s with queue } w q, ho]
    refine ⟨queue, hpath ▸ hq, hpath ▸ ?_⟩
    have hc := handle_changes { s with queue } w q
    rwa [ho] at hc

/-- A document that could be watched for styles has been loaded. -/
lemma changes_watchStyles (hs : s.styleDocuments.contains p.key = false)
    (h : s.watchStyles w p = (.ok (), s')) : ∃ s₁ : Session H, s₁.Changes w p s' := by
  rw [watchStyles, hs, if_neg Bool.false_ne_true] at h
  split at h
  · cases h
  · cases h
    exact ⟨_, handle_changes _ w p⟩

/-- **The invariant holds at every time** while the file is watched. -/
theorem Watching.onCourse (h : Watching p kind s w c) (hx : s.IsWatchedBy kind p x) :
    OnCourse p kind s w c x := by
  induction h generalizing x with
  | register h hp =>
    have hq := queue_register h hp
    refine .start hx (fun _ q hlast => ?_) (.inl ?_)
    · rw [hq, List.getLast?_concat] at hlast
      exact (Option.some.inj hlast).symm
    · rw [hq]
      exact List.mem_append_right _ (List.mem_singleton_self p)
  | watchStyles hs h =>
    obtain ⟨s₁, hc⟩ := changes_watchStyles hs h
    exact .start hx nofun (.inr (hc.hasLoaded hx.contains))
  | write w' hnew _ ih => exact (ih hx).write hnew
  | look _ ih =>
    obtain ⟨x₀, hx₀, hlast, hq⟩ := hx.of_lookAt
    exact (ih hx₀).look hlast hq
  | writeOther _ hstamp hread _ ih => exact (ih hx).writeOther hstamp hread
  | lookOther hne _ ih =>
    refine (ih ⟨?_, hx.path_eq, hx.isEnded_eq⟩).lookOther _ _ _
    rw [← watcher?_lookAt_of_ne _ hne]
    exact hx.watcher?_eq
  | handle hh hs _ ih =>
    obtain ⟨queue, hqueue, hc⟩ := exists_of_handleNext? hh
    have hx₀ := hx.of_changes hc
    exact (ih ⟨hx₀.watcher?_eq, hx₀.path_eq, hx₀.isEnded_eq⟩).handle hqueue hc hx hs

/-! ### Letting time pass -/

/-- What looks do to the course of a file: nothing is written or handled, and a watcher that has
looked has looked. -/
structure Looks (c c' : WatchCourse) : Prop where
  /-- The file has had the same stamps. -/
  stamps_eq : c'.stamps = c.stamps
  /-- A writing is noticed as before. -/
  noticed_eq : c'.noticed = c.noticed
  /-- A look is not undone. -/
  looked : c.looked = true → c'.looked = true
  /-- Nor is it followed by a writing. -/
  polled : c.polled = true → c'.polled = true

/-- Looks after looks are looks. -/
lemma Looks.trans {c₁ c₂ c₃ : WatchCourse} (h : Looks c₁ c₂) (h' : Looks c₂ c₃) : Looks c₁ c₃ where
  stamps_eq := h'.stamps_eq.trans h.stamps_eq
  noticed_eq := h'.noticed_eq.trans h.noticed_eq
  looked := h'.looked ∘ h.looked
  polled := h'.polled ∘ h.polled

/-- When a watcher looks, it is that of the file or another one. -/
lemma Watching.lookAt (h : Watching p kind s w c) (kind' : WatchKind) (key : PathKey) :
    ∃ c', Watching p kind (s.lookAt w.files kind' key) w c' ∧ Looks c c' ∧
      ((kind', key) = (kind, p.key) → c'.looked = true ∧ c'.polled = true) := by
  by_cases hk : (kind', key) = (kind, p.key)
  · cases hk
    exact ⟨_, h.look, ⟨rfl, rfl, fun _ => rfl, fun _ => rfl⟩, fun _ => ⟨rfl, rfl⟩⟩
  · exact ⟨_, h.lookOther hk, ⟨rfl, rfl, fun hl => hl, fun hp => hp⟩, fun he => (hk he).elim⟩

/-- Watchers may look one after the other. -/
lemma Watching.foldl_lookAt (h : Watching p kind s w c) (kind' : WatchKind) (keys : List PathKey) :
    ∃ c', Watching p kind (keys.foldl (fun s key => s.lookAt w.files kind' key) s) w c' ∧ Looks c c' ∧
      (kind' = kind → p.key ∈ keys → c'.looked = true ∧ c'.polled = true) := by
  induction keys generalizing s c with
  | nil => exact ⟨c, h, ⟨rfl, rfl, fun hl => hl, fun hp => hp⟩, fun _ => nofun⟩
  | cons key keys ih =>
    obtain ⟨c₁, h₁, hlooks₁, own₁⟩ := h.lookAt kind' key
    obtain ⟨c₂, h₂, hlooks₂, own₂⟩ := ih h₁
    refine ⟨c₂, h₂, hlooks₁.trans hlooks₂, fun hk hm => ?_⟩
    rcases List.mem_cons.1 hm with hm | hm
    · obtain ⟨hlooked, hpolled⟩ := own₁ (by rw [hk, hm])
      exact ⟨hlooks₂.looked hlooked, hlooks₂.polled hpolled⟩
    · exact own₂ hk hm

/-- **Letting time pass is a part of the course of a watched file.** Its watcher looks, and so do the
others; nothing is written or handled. -/
theorem Watching.poll (h : Watching p kind s w c) (hs : s.styleDocuments.keys.Nodup)
    (hd : s.documents.keys.Nodup) (hx : (s.watcher? kind p.key).isSome = true) :
    ∃ c', Watching p kind (s.poll w.files) w c' ∧ c'.stamps = c.stamps ∧ c'.noticed = c.noticed ∧
      c'.looked = true ∧ c'.polled = true := by
  rw [poll_eq_lookAt s hs hd]
  obtain ⟨c₁, h₁, hlooks₁, own₁⟩ := h.foldl_lookAt .styles s.styleDocuments.keys
  obtain ⟨c₂, h₂, hlooks₂, own₂⟩ := h₁.foldl_lookAt .document s.documents.keys
  have hlooks := hlooks₁.trans hlooks₂
  have looked : c₂.looked = true ∧ c₂.polled = true := by
    obtain ⟨x, hx⟩ := Option.isSome_iff_exists.1 hx
    cases kind with
    | document =>
      obtain ⟨watch, hwatch, -⟩ := Option.bind_eq_some_iff.1 hx
      exact own₂ rfl (Table.mem_keys_iff.2 ⟨watch, hwatch⟩)
    | styles =>
      obtain ⟨watch, hwatch, -⟩ := Option.bind_eq_some_iff.1 hx
      obtain ⟨hlooked, hpolled⟩ := own₁ rfl (Table.mem_keys_iff.2 ⟨watch, hwatch⟩)
      exact ⟨hlooks₂.looked hlooked, hlooks₂.polled hpolled⟩
  exact ⟨c₂, h₂, hlooks.stamps_eq, hlooks.noticed_eq, looked⟩

/-- **A noticed writing is loaded.** When all changes have been handled and the watcher of a file has
looked since the file was written last, what the session has loaded for the file is what is found
there, however writing, looking and handling took turns, provided that the watcher had looked before
the last writing or a change of the file was handled after it.

**Proof sketch.** The stamps differ, so the look that follows a writing reports a change if there was
a look before it. A change of the file that is handled loads it. A change of another document is
handled before one of the file, or spares it. -/
theorem hasLoaded_of_watching (h : Watching p kind s w c) (hx : s.IsWatchedBy kind p x)
    (hdrained : s.queue = []) (hpolled : c.polled = true) (hnoticed : c.noticed = true) :
    s.HasLoaded w p := by
  rcases (h.onCourse hx).noticed hnoticed with hm | hl | ⟨hp, -⟩
  · rw [hdrained] at hm
    cases hm
  · exact hl
  · rw [hpolled] at hp
    cases hp

/-- A directory with a document. -/
def documentAt (text : String) (time : Nat) : World where
  files := { entries := ⟨[(["a"], .file text.toUTF8 time)]⟩ }
  runsWatchers := true

/-- A document of an empty component. -/
def emptyDocument : World := documentAt "<Component type=\"A\"/>" 0

/-- The document with a label in the component, written later. -/
def labelDocument : World := documentAt "<Component type=\"A\"><Label/></Component>" 1

/-- The empty component is read. -/
lemma readDefinition_emptyDocument :
    emptyDocument.readDefinition ⟨"a"⟩ = .ok ⟨"A", false, false, [], [], []⟩ :=
  World.readDefinition_eq_ok (Directory.read_eq_ok (l := .inside ["a"]) rfl rfl)
    ofText_emptyComponent

/-- The document with a label is read, and the component has one child. -/
lemma readDefinition_labelDocument : ∃ d, labelDocument.readDefinition ⟨"a"⟩ = .ok d ∧
    ((d.definitions.filter fun d => d.typeName = "A").getLast?).map (·.children.length) =
      some 1 := by
  have hread : ((Definition.ofText "<Component type=\"A\"><Label/></Component>").toOption.map
      fun d => ((d.definitions.filter fun d => d.typeName = "A").getLast?).map
        (·.children.length)) = some (some 1) := by
    rw [Definition.ofText_ofList]
    cbv
  obtain ⟨d, hd, hlength⟩ := Option.map_eq_some_iff.1 hread
  exact ⟨d, World.readDefinition_eq_ok (Directory.read_eq_ok (l := .inside ["a"]) rfl rfl)
    (Except.toOption_eq_some.1 hd), hlength⟩

/-- A session with a component that is not bound to a document yet. -/
def looseRoot : Session Empty where
  settings := {}
  capabilities := {}
  tree := (({} : ViewTree Empty).insert { element := .generic (.wrapper "A") }).2

/-- The session with the root bound to the document. -/
def boundRoot : Session Empty :=
  (looseRoot.register emptyDocument (.adopting ⟨0⟩ "A") (some ⟨"a"⟩)).2

/-- The session with the document loaded. -/
def loadedRoot : Session Empty := (handle { boundRoot with queue := [] } emptyDocument ⟨"a"⟩).2

/-- The file has had one stamp when the document is loaded. -/
lemma watching_loadedRoot : ∃ c, Watching ⟨"a"⟩ .document loadedRoot emptyDocument c ∧
    c.stamps = [some ⟨some 0, 21⟩] := by
  have hstamp : emptyDocument.files.stamp? ⟨"a"⟩ = some ⟨some 0, 21⟩ := by cbv
  have hqueue : boundRoot.queue = [⟨"a"⟩] := by cbv
  have hregister : looseRoot.register emptyDocument (.adopting ⟨0⟩ "A") (some ⟨"a"⟩) =
      (.ok ⟨0⟩, boundRoot) := rfl
  have hnext : boundRoot.handleNext? emptyDocument =
      some (handle { boundRoot with queue := [] } emptyDocument ⟨"a"⟩) := by
    rw [handleNext?, hqueue]
  refine ⟨_, .handle hnext (.inr (.inl ⟨rfl, rfl⟩)) (.register hregister rfl), ?_⟩
  rw [hstamp]
  rfl

/-- The watcher of the document has not looked when the document is loaded. -/
lemma watcher?_loadedRoot : loadedRoot.queue = [] ∧
    loadedRoot.watcher? .document (Path.mk "a").key = some { path := ⟨"a"⟩, interval := 250 } := by
  have changes := handle_changes { boundRoot with queue := [] } emptyDocument ⟨"a"⟩
  refine ⟨changes.queue_eq, ?_⟩
  rw [watcher?, loadedRoot, changes.documents_eq]
  cbv

/-- The stamp of the document with a label. -/
lemma stamp?_labelDocument : labelDocument.files.stamp? ⟨"a"⟩ = some ⟨some 1, 40⟩ := by cbv

/-- The session after the watcher has looked before and after the document was written. -/
def noticedRoot : Session Empty :=
  (loadedRoot.lookAt emptyDocument.files .document (Path.mk "a").key).lookAt
    labelDocument.files .document (Path.mk "a").key

/-- What is written between two looks is loaded. -/
theorem hasLoaded_labelDocument :
    (handle { noticedRoot with queue := [] } labelDocument ⟨"a"⟩).2.HasLoaded labelDocument
      ⟨"a"⟩ := by
  obtain ⟨c, hc, hstamps⟩ := watching_loadedRoot
  have hnew : labelDocument.files.stamp? ⟨"a"⟩ ∉ c.look.stamps := by
    rw [stamp?_labelDocument, WatchCourse.look, hstamps]
    decide
  obtain ⟨hempty, hfirst⟩ := watcher?_loadedRoot
  have hqueue : noticedRoot.queue = [⟨"a"⟩] := by
    rw [noticedRoot, queue_lookAt, queue_lookAt, watcher?_lookAt, hempty, hfirst]
    cbv
  have hnext : noticedRoot.handleNext? labelDocument =
      some (handle { noticedRoot with queue := [] } labelDocument ⟨"a"⟩) := by
    rw [handleNext?, hqueue]
  have changes := handle_changes { noticedRoot with queue := [] } labelDocument ⟨"a"⟩
  have noticed : Watching ⟨"a"⟩ .document noticedRoot labelDocument _ :=
    (hc.look.write labelDocument hnew).look
  have hwatcher : (handle { noticedRoot with queue := [] } labelDocument ⟨"a"⟩).2.watcher? .document
      (Path.mk "a").key =
        some { path := ⟨"a"⟩, interval := 250, detector := ⟨some (some ⟨some 1, 40⟩)⟩ } := by
    rw [watcher?, changes.documents_eq, noticedRoot, loadedRoot, handle_of_load?_eq_ok
      (load?_document (by cbv) (by cbv) readDefinition_emptyDocument)]
    cbv
  have handled : Watching ⟨"a"⟩ .document _ labelDocument _ :=
    .handle hnext (.inl (handle_path _ _ _)) noticed
  exact hasLoaded_of_watching handled ⟨hwatcher, rfl, rfl⟩ changes.queue_eq rfl rfl

/-- The proviso is needed: what is written after the document was loaded and before the first look of
the watcher is not loaded. -/
lemma not_hasLoaded_labelDocument : ∃ s c x,
    Watching ⟨"a"⟩ .document (s : Session Empty) labelDocument c ∧ s.IsWatchedBy .document ⟨"a"⟩ x ∧
      s.queue = [] ∧ c.polled = true ∧ ¬ s.HasLoaded labelDocument ⟨"a"⟩ := by
  obtain ⟨c, hc, hstamps⟩ := watching_loadedRoot
  have hnew : labelDocument.files.stamp? ⟨"a"⟩ ∉ c.stamps := by
    rw [stamp?_labelDocument, hstamps]
    decide
  obtain ⟨hempty, hfirst⟩ := watcher?_loadedRoot
  have hqueue : (loadedRoot.lookAt labelDocument.files .document (Path.mk "a").key).queue = [] := by
    rw [queue_lookAt, hempty, hfirst]
    cbv
  have hwatcher : (loadedRoot.lookAt labelDocument.files .document (Path.mk "a").key).watcher?
      .document (Path.mk "a").key =
        some { path := ⟨"a"⟩, interval := 250, detector := ⟨some (some ⟨some 1, 40⟩)⟩ } := by
    rw [watcher?_lookAt, hfirst]
    cbv
  refine ⟨_, _, _, (hc.write labelDocument hnew).look, ⟨hwatcher, rfl, rfl⟩, hqueue, rfl,
    fun h => ?_⟩
  have changes := handle_changes { boundRoot with queue := [] } emptyDocument ⟨"a"⟩
  have hstyles : loadedRoot.styleDocuments.get? (Path.mk "a").key = none := by
    have hbound : boundRoot.styleDocuments.get? (Path.mk "a").key = none := by cbv
    rcases changes.get?_styleDocuments (Path.mk "a").key with heq | ⟨-, g, -, heq⟩
    · exact heq.trans hbound
    · exact heq.trans (congrArg (Option.map _) hbound)
  obtain ⟨watch, hwatch, -⟩ := Option.bind_eq_some_iff.1 hfirst
  have hempty : loadedRoot.HasLoaded emptyDocument ⟨"a"⟩ :=
    changes.hasLoaded (.inr (Option.isSome_iff_exists.2 ⟨watch, hwatch⟩))
  have hlabel : loadedRoot.HasLoaded labelDocument ⟨"a"⟩ := h
  obtain ⟨d, hd, hlength⟩ := readDefinition_labelDocument
  rw [HasLoaded, hstyles, readDefinition_emptyDocument] at hempty
  rw [HasLoaded, hstyles, hd] at hlabel
  -- The path holds one definition of the type, which has no child in one document and one in the other.
  have hsame := (hempty.1 "A").symm.trans (hlabel.1 "A")
  rw [← hsame] at hlength
  cases hlength

end Session

end ViewMarkup
