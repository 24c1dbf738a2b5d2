import ViewMarkup.Document.Parse
import ViewMarkup.Document.Styles
import ViewMarkup.Files.Watcher
import ViewMarkup.Session.Definitions
import ViewMarkup.Session.Diagnostics
import ViewMarkup.Session.Error
import ViewMarkup.Session.Settings

/-!
# Sessions

A session owns a live tree and keeps the roots in it in line with their documents and with the
shared styles. It does not touch files by itself: the operations that read some are given the
surroundings as they are at the time.

## Main definitions

* `World` — the files around a session, and whether anything runs watchers.
* `DocumentWatch`, `StyleWatch`.
* `Session`, and what can be asked of it.
-/

namespace ViewMarkup

/-- What is around a session. -/
structure World where
  /-- The files. -/
  files : Directory
  /-- Whether watchers can run. -/
  runsWatchers : Bool

namespace World

/-- The definition in a document. -/
def readDefinition (w : World) (path : Path) : Except SessionError Definition :=
  match w.files.read path with
  | .error fault => .error (.unreadable path fault)
  | .ok text =>
      match Definition.ofText text with
      | .ok d => .ok d
      | .error e => .error (.invalid path e)

/-- A document that can be read and parsed has a definition. -/
theorem readDefinition_eq_ok {w : World} {path : Path} {text : String} {d : Definition}
    (hr : w.files.read path = .ok text) (hd : Definition.ofText text = .ok d) :
    w.readDefinition path = .ok d := by
  rw [readDefinition, hr]
  simp only [hd]

/-- The style group in a document. -/
def readStyles (w : World) (path : Path) : Except SessionError StyleGroup :=
  match w.files.read path with
  | .error fault => .error (.unreadable path fault)
  | .ok text =>
      match StyleGroup.ofText text with
      | .ok g => .ok g
      | .error e => .error (.invalid path e)

/-- A document that can be read and parsed has a group of styles. -/
theorem readStyles_eq_ok {w : World} {path : Path} {text : String} {g : StyleGroup}
    (hr : w.files.read path = .ok text) (hg : StyleGroup.ofText text = .ok g) :
    w.readStyles path = .ok g := by
  rw [readStyles, hr]
  simp only [hg]

end World

/-- A document that roots are bound to. -/
structure DocumentWatch where
  /-- The path as it was given first. -/
  path : Path
  /-- The watcher, if files are watched. -/
  watcher : Option Watcher
  /-- The roots that are bound to the document. -/
  subscribers : List RootId := []
deriving Repr, DecidableEq

/-- A document of shared styles. -/
structure StyleWatch where
  /-- The path as it was given first. -/
  path : Path
  /-- The watcher, if files are watched. -/
  watcher : Option Watcher
  /-- The name of the group that the document held when it was last loaded. -/
  group : Option String := none
deriving Repr, DecidableEq

/-- A session. -/
structure Session (H : Type) where
  /-- The settings. -/
  settings : Settings
  /-- What the host can set and create. -/
  capabilities : Capabilities H
  /-- The live tree. -/
  tree : ViewTree H := {}
  /-- The shared styles. -/
  sheets : StyleSheets := {}
  /-- The loaded definitions. -/
  definitions : DefinitionStore := {}
  /-- The errors of documents. -/
  diagnostics : Diagnostics := {}
  /-- The registered roots. -/
  roots : Roots := {}
  /-- The documents that roots are bound to. -/
  documents : Table PathKey DocumentWatch := {}
  /-- The documents of shared styles. -/
  styleDocuments : Table PathKey StyleWatch := {}
  /-- The documents that were not read or were refused when they were last loaded. -/
  broken : List PathKey := []
  /-- The documents that a search has loaded; their definitions stay when their roots leave. -/
  discovered : List PathKey := []
  /-- The paths of documents that were reported as changed and wait to be handled. -/
  queue : List Path := []

namespace Session

variable {H : Type}

/-- The session with an error recorded for a path. -/
def report (s : Session H) (path : Path) (e : SessionError) : Session H :=
  { s with diagnostics := s.diagnostics.record path e.message }

/-- The session with a document marked as broken. -/
def markBroken (s : Session H) (path : Path) : Session H :=
  { s with broken := s.broken.insert path.key }

/-- The session with a document that is no longer broken and has no error. -/
def markSound (s : Session H) (path : Path) : Session H :=
  { s with
    broken := s.broken.filter (· ≠ path.key)
    diagnostics := s.diagnostics.clear path }

/-- The session with a change reported. -/
def enqueue (s : Session H) (path : Path) : Session H := { s with queue := s.queue ++ [path] }

/-- The root with a given identity, if it is registered and its node is alive. -/
def root? (s : Session H) (id : RootId) : Option Root :=
  (s.roots.get? id).filter fun r => s.tree.contains r.binding.node

/-- The types that are compiled in or loaded, in order. -/
def typeNames (s : Session H) : List String :=
  s.definitions.typeNames.foldl (fun names name => Settings.placeName name names)
    s.settings.compiled

/-- Whether a watcher looks at a path. A document that roots are bound to counts before a document
of shared styles. -/
def isWatching (s : Session H) (path : Path) : Bool :=
  let watcher := match s.documents.get? path.key with
    | some watch => watch.watcher
    | none => (s.styleDocuments.get? path.key).bind (·.watcher)
  watcher.any fun watcher => !watcher.isEnded

/-- A watcher for a path, if files are watched. -/
def startWatcher (s : Session H) (w : World) (path : Path) :
    Except SessionError (Option Watcher) :=
  if !s.settings.watches then .ok none
  else if w.runsWatchers then .ok (some { path, interval := s.settings.pollInterval })
  else .error (.unwatchable path)

end Session

end ViewMarkup
