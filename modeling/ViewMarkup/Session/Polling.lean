import ViewMarkup.Session.Reload

/-!
# Letting time pass

While a session waits, each of its watchers looks at its file, and the changes that they see are
reported in order.

## Main definitions

* `Session.poll`, `Session.waitNext`, `Session.run`.
-/

namespace ViewMarkup.Session

variable {H : Type}

/-- A look by a watcher, if there is one: the changes that it reports, and the watcher after. -/
def look (files : Directory) (watcher : Option Watcher) : List Path × Option Watcher :=
  match watcher with
  | none => ([], none)
  | some watcher =>
      let (changed, watcher) := watcher.poll files true
      (if changed then [watcher.path] else [], some watcher)

/-- The session after each watcher has looked once. The files stay as they are while a session
waits, so looking more often would show nothing more. -/
def poll (s : Session H) (files : Directory) : Session H :=
  let reports := s.styleDocuments.values.flatMap (fun watch => (look files watch.watcher).1)
    ++ s.documents.values.flatMap fun watch => (look files watch.watcher).1
  { s with
    styleDocuments := s.styleDocuments.map fun watch =>
      { watch with watcher := (look files watch.watcher).2 }
    documents := s.documents.map fun watch =>
      { watch with watcher := (look files watch.watcher).2 }
    queue := s.queue ++ reports }

/-- Handles the next change, after waiting for one if there is none. -/
def waitNext [Widget H] (s : Session H) (w : World) : Option Outcome × Session H :=
  let s := if s.queue.isEmpty then s.poll w.files else s
  match s.handleNext? w with
  | some (outcome, s) => (some outcome, s)
  | none => (none, s)

/-- Handles all changes while time passes. -/
def run [Widget H] (s : Session H) (w : World) : Session H :=
  let s := ((s.processPending w).2).poll w.files
  (s.processPending w).2

end ViewMarkup.Session
