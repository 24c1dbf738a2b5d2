import ViewMarkup.Session.Basic

/-!
# Registering roots

A registered root is bound to a document, and the document is watched for as long as a root is
bound to it. When the last root leaves, the definitions of the document go as well, unless a search
has loaded them.

## Main definitions

* `Session.register`, `Session.unregister`, `Session.prune`.
-/

namespace ViewMarkup.Session

variable {H : Type}

/-- The session with a document watched. -/
def watchDocument (s : Session H) (w : World) (path : Path) :
    Except SessionError Unit × Session H :=
  if s.documents.contains path.key then (.ok (), s)
  else
    match s.startWatcher w path with
    | .error e => (.error e, s.report path e)
    | .ok watcher =>
        (.ok (), { s with documents := s.documents.insert path.key { path, watcher } })

/-- The session with a root added for a watched document. -/
def addRoot (s : Session H) (b : Binding) (path : Path) : RootId × Session H :=
  let (id, roots) := s.roots.insert b path
  let documents := s.documents.modify path.key fun watch =>
    { watch with subscribers := watch.subscribers ++ [id] }
  (id, { s with roots, documents })

/-- Binds a component to a document and reports the document as changed, so that it will be
applied. Without a path it is the document that the type was loaded from. -/
def register (s : Session H) (w : World) (b : Binding) (path? : Option Path) :
    Except SessionError RootId × Session H :=
  match path?.or ((s.definitions.get? b.typeName).map (·.path)) with
  | none => (.error (.unknownType b.typeName), s)
  | some path =>
      match s.watchDocument w path with
      | (.error e, s) => (.error e, s)
      | (.ok (), s) =>
          let (id, s) := s.addRoot b path
          (.ok id, s.enqueue path)

/-- The session after the last root has left a document. -/
def abandon (s : Session H) (path : Path) : Session H :=
  markSound { s with
    documents := s.documents.erase path.key
    definitions :=
      if path.key ∈ s.discovered then s.definitions else s.definitions.removePath path } path

/-- Removes a root. Its node and the views below stay in the tree. -/
def unregister (s : Session H) (id : RootId) : Except SessionError Unit × Session H :=
  match s.roots.get? id with
  | none => (.error (.unknownRoot id), s)
  | some r =>
      let s := { s with roots := s.roots.erase id }
      match s.documents.get? r.path.key with
      | none => (.ok (), s)
      | some watch =>
          let subscribers := watch.subscribers.filter (· ≠ id)
          if subscribers.isEmpty then (.ok (), s.abandon r.path)
          else
            (.ok (), { s with
              documents := s.documents.modify r.path.key fun watch =>
                { watch with subscribers } })

/-- The roots whose nodes are gone, by their places. -/
def goneRoots (s : Session H) : List RootId :=
  (s.roots.inOrder.filter fun e => !s.tree.contains e.2.binding.node).map (·.1)

/-- The session without the roots whose nodes are gone. -/
def prune (s : Session H) : Session H :=
  s.goneRoots.foldl (fun s id => (s.unregister id).2) s

/-- The number of roots, when those whose nodes are gone have left. -/
def rootCount (s : Session H) : Nat × Session H :=
  let s := s.prune
  (s.roots.size, s)

end ViewMarkup.Session
