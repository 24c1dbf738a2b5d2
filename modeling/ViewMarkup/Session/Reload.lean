import ViewMarkup.Session.Registration

/-!
# Handling a changed document

When a document has changed it is loaded again. If that fails, the error is recorded and all stays
as it was. If it succeeds, the roots bound to the document are applied again, and so is every root
that depends on a definition which is not the one it was last applied with.

## Main definitions

* `Outcome`.
* `Session.applyRoot`, `Session.staleRoots`, `Session.reapply`.
* `Session.handle`, `Session.processPending`, `Session.reloadAll`, `Session.watchStyles`.
-/

namespace ViewMarkup

/-- What the handling of a change did. -/
structure Outcome where
  /-- The path that was reported as changed. -/
  path : Path
  /-- The roots that were applied again. -/
  reapplied : List RootId := []
  /-- The roots whose application failed. -/
  failed : List RootId := []
deriving Repr, DecidableEq

/-- An attempt to apply the definition of a root. -/
structure Attempt where
  /-- The root. -/
  root : RootId
  /-- The document that it is bound to. -/
  path : Path
  /-- Whether it succeeded. -/
  succeeded : Bool
deriving Repr, DecidableEq

namespace Session

variable {H : Type}

/-! ### Applying roots -/

/-- What an application needs. -/
def applier (s : Session H) : Applier H :=
  ⟨s.capabilities, s.sheets, s.definitions.definitions⟩

/-- Applies the definition of a registered root. The generations that it depends on are noted
whether it succeeds or fails. -/
def applyTo [Widget H] (s : Session H) (id : RootId) (r : Root) :
    Except SessionError Unit × Session H :=
  let typeName := r.binding.typeName
  let attempted := s.definitions.dependencies typeName
  match s.definitions.get? typeName with
  | none =>
      (.error (.unknownType typeName),
        { s with roots := s.roots.modify id fun r => { r with attempted } })
  | some stored =>
      let (outcome, tree, binding) := s.applier.apply s.tree r.binding stored.definition
      let s := { s with tree, roots := s.roots.modify id fun r => { r with attempted, binding } }
      match outcome with
      | .ok _ => (.ok (), s)
      | .error e => (.error (.inapplicable typeName e), s)

/-- Applies the definition of a root. -/
def applyRoot [Widget H] (s : Session H) (id : RootId) : Except SessionError Unit × Session H :=
  match s.roots.get? id with
  | none => (.error (.unknownRoot id), s)
  | some r => s.applyTo id r

/-- Whether a root has to be applied again after a document has changed: it is bound to the
document, or a type that it depended on has another generation now. -/
def isStale (s : Session H) (changed : Path) (r : Root) : Bool :=
  r.path.key = changed.key
    || r.attempted.entries.any fun e => s.definitions.generation? e.1 ≠ e.2

/-- The roots that have to be applied again, by their places. -/
def staleRoots (s : Session H) (changed : Path) : List (RootId × Root) :=
  s.roots.inOrder.filter fun e => s.isStale changed e.2

/-- Attempts to apply a root, and records the error of a failure for its document. -/
def attempt [Widget H] (s : Session H) (id : RootId) (path : Path) : Attempt × Session H :=
  match s.applyRoot id with
  | (.ok (), s) => (⟨id, path, true⟩, s)
  | (.error e, s) => (⟨id, path, false⟩, s.report path e)

/-- Attempts to apply roots in order. -/
def attemptAll [Widget H] (s : Session H) : List (RootId × Path) → List Attempt × Session H
  | [] => ([], s)
  | (id, path) :: rest =>
      let (a, s) := s.attempt id path
      let (as, s) := attemptAll s rest
      (a :: as, s)

/-- The session without the errors of documents all of whose attempted roots succeeded, unless they
are broken. -/
def clearSucceeded (s : Session H) (as : List Attempt) : Session H :=
  let cleared := (as.filter fun a => a.succeeded
    && !(as.any fun b => !b.succeeded && decide (b.path.key = a.path.key))
    && !(s.broken.contains a.path.key)).map (·.path)
  { s with diagnostics := cleared.foldl Diagnostics.clear s.diagnostics }

/-- Applies the roots that have to be applied again after a document has changed. -/
def reapply [Widget H] (s : Session H) (changed : Path) : Outcome × Session H :=
  let (as, s) := s.attemptAll ((s.staleRoots changed).map fun e => (e.1, e.2.path))
  ({ path := changed
     reapplied := (as.filter (·.succeeded)).map (·.root)
     failed := (as.filter (!·.succeeded)).map (·.root) },
    s.clearSucceeded as)

/-! ### Loading documents -/

/-- Loads a document that roots are bound to. -/
def loadDocument (s : Session H) (w : World) (path : Path) :
    Except SessionError (Session H) :=
  match w.readDefinition path with
  | .error e => .error e
  | .ok d => .ok { s with definitions := s.definitions.insertDocument d path }

/-- The shared styles without the group that a document held before, if it was named otherwise. -/
def dropRenamed (sheets : StyleSheets) (previous : Option String) (name : String) : StyleSheets :=
  match previous with
  | some previous => if previous = name then sheets else sheets.erase previous
  | none => sheets

/-- Loads a document of shared styles; all definitions count as changed then. -/
def loadStyles (s : Session H) (w : World) (path : Path) :
    Except SessionError (Session H) :=
  match w.readStyles path with
  | .error e => .error e
  | .ok group =>
      let previous := (s.styleDocuments.get? path.key).bind (·.group)
      .ok { s with
        sheets := (dropRenamed s.sheets previous group.name).insert group
        styleDocuments := s.styleDocuments.modify path.key fun watch =>
          { watch with group := some group.name }
        definitions := s.definitions.renewAll }

/-- Loads a document again, if the session has anything to do with it. A document of shared styles
is only that. -/
def load? (s : Session H) (w : World) (path : Path) :
    Option (Except SessionError (Session H)) :=
  if s.styleDocuments.contains path.key then some (s.loadStyles w path)
  else if s.documents.contains path.key then some (s.loadDocument w path)
  else none

/-! ### Changes -/

/-- Handles a reported change. -/
def handle [Widget H] (s : Session H) (w : World) (path : Path) : Outcome × Session H :=
  let s := s.prune
  match s.load? w path with
  | none => ({ path }, s)
  | some (.error e) => ({ path }, (s.report path e).markBroken path)
  | some (.ok s) => (s.markSound path).reapply path

/-- Handles reported changes in order. -/
def handleAll [Widget H] (s : Session H) (w : World) : List Path → List Outcome × Session H
  | [] => ([], s)
  | path :: rest =>
      let (outcome, s) := s.handle w path
      let (outcomes, s) := handleAll s w rest
      (outcome :: outcomes, s)

/-- Handles all changes that wait. Handling reports no changes of its own. -/
def processPending [Widget H] (s : Session H) (w : World) : List Outcome × Session H :=
  handleAll { s with queue := [] } w s.queue

/-- Handles the change that waits longest. -/
def handleNext? [Widget H] (s : Session H) (w : World) : Option (Outcome × Session H) :=
  match s.queue with
  | [] => none
  | path :: queue => some (handle { s with queue } w path)

/-- Paths without those that mean the same as the one right before. -/
def withoutRepetitions : List Path → List Path
  | [] => []
  | [p] => [p]
  | p :: q :: ps =>
      if p.key = q.key then withoutRepetitions (p :: ps) else p :: withoutRepetitions (q :: ps)
termination_by ps => ps.length

/-- Reports every document of the session as changed, in the order of paths. -/
def reloadAll (s : Session H) : Session H :=
  let s := s.prune
  let paths := s.styleDocuments.values.map (·.path) ++ s.documents.values.map (·.path)
  { s with queue := s.queue ++ withoutRepetitions (paths.mergeSort Path.notAfter) }

/-- Watches a document of shared styles and loads it. -/
def watchStyles [Widget H] (s : Session H) (w : World) (path : Path) :
    Except SessionError Unit × Session H :=
  if s.styleDocuments.contains path.key then (.ok (), s)
  else
    match s.startWatcher w path with
    | .error e => (.error e, s.report path e)
    | .ok watcher =>
        let s := { s with styleDocuments := s.styleDocuments.insert path.key { path, watcher } }
        (.ok (), (s.handle w path).2)

end Session

end ViewMarkup
