import ViewMarkup.Session.Reload

/-!
# Searching for documents

A search loads every document below a directory, except those whose component is compiled in.
A type that is loaded, by a search or otherwise, can be instantiated: a new root of the type is
made and applied at once.

## Main definitions

* `Session.discover`, `Session.instantiate`, `Session.start`.
-/

namespace ViewMarkup.Session

variable {H : Type}

/-- The definitions with one more, and the types that were not known before. -/
def learn (path : Path) (known : DefinitionStore × List String) (d : Definition) :
    DefinitionStore × List String :=
  (known.1.insert d path,
    if known.1.contains d.typeName then known.2 else known.2 ++ [d.typeName])

/-- Loads a document that was found, and adds to the types that were not known before. One that is
not read or is refused is recorded as broken. -/
def discoverDocument (w : World) (s : Session H) (found : List String) (path : Path) :
    Session H × List String :=
  match w.readDefinition path with
  | .error e => ((s.report path e).markBroken path, found)
  | .ok d =>
      if d.typeName ∈ s.settings.compiled then (s, found)
      else
        let (definitions, found) := d.definitions.foldl (learn path) (s.definitions, found)
        let s := { s with definitions, discovered := s.discovered.insert path.key }
        (s.markSound path, found)

/-- Loads every document below a directory, in the order of paths. The types that were not known
before are returned in order. -/
def discover (s : Session H) (w : World) (dir : Path) :
    Except SessionError (List String) × Session H :=
  match w.files.filesBelow dir with
  | .error fault =>
      let e := SessionError.unreadable dir fault
      (.error e, s.report dir e)
  | .ok files =>
      let documents := (files.filter s.settings.isDocument).mergeSort Path.notAfter
      let (s, found) :=
        documents.foldl (fun (s, found) path => discoverDocument w s found path) (s, [])
      (.ok (found.mergeSort fun a b => decide (a ≤ b)), s)

/-- The element that a new root of a type starts with. -/
def freshElement (s : Session H) (typeName : String) : VisualElement H :=
  (s.capabilities.create? typeName).getD (.generic (.wrapper typeName))

/-- Makes a root of a loaded type and applies it. If that fails the root and its node are removed
again. -/
def instantiate [Widget H] (s : Session H) (w : World) (typeName : String) :
    Except SessionError RootId × Session H :=
  if s.definitions.contains typeName then
    let (node, tree) := s.tree.insert { element := s.freshElement typeName }
    match register { s with tree } w (.adopting node typeName) none with
    | (.error e, s) => (.error e, { s with tree := (s.tree.remove node).2 })
    | (.ok id, s) =>
        match s.applyRoot id with
        | (.ok (), s) => (.ok id, s)
        | (.error e, s) =>
            let s := (s.unregister id).2
            (.error e, { s with tree := (s.tree.remove node).2 })
  else (.error (.unknownType typeName), s)

/-- Watches documents of shared styles until one cannot be watched. -/
def watchAllStyles [Widget H] (s : Session H) (w : World) :
    List Path → Except SessionError Unit × Session H
  | [] => (.ok (), s)
  | path :: rest =>
      match s.watchStyles w path with
      | (.ok (), s) => watchAllStyles s w rest
      | (.error e, s) => (.error e, s)

/-- Loads the shared styles of the settings and searches where they say. -/
def start [Widget H] (s : Session H) (w : World) : Except SessionError Unit × Session H :=
  match s.watchAllStyles w s.settings.sharedStyles with
  | (.error e, s) => (.error e, s)
  | (.ok (), s) =>
      match s.settings.searchRoot with
      | none => (.ok (), s)
      | some root =>
          match s.discover w root with
          | (.ok _, s) => (.ok (), s)
          | (.error e, s) => (.error e, s)

end ViewMarkup.Session
