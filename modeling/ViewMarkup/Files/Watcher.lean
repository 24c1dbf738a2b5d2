import ViewMarkup.Files.Directory

/-!
# Watching a file

A watcher looks at a file again and again and compares what it sees with what it saw before. The
first look is only the baseline. A file that appears or vanishes has changed.

## Main definitions

* `ChangeDetector`, `ChangeDetector.observe`.
* `Watcher`, `Watcher.poll`.
* `Subscription` — a watcher with the queue that it fills.
-/

namespace ViewMarkup

/-- What was seen last. -/
structure ChangeDetector where
  /-- The last observation: nothing was there, or a stamp; none before the first one. -/
  last : Option (Option Stamp) := none
deriving Repr, DecidableEq

/-- Notes an observation, and says whether it differs from the one before. -/
def ChangeDetector.observe (d : ChangeDetector) (seen : Option Stamp) : Bool × ChangeDetector :=
  (d.last.any fun last => last ≠ seen, ⟨some seen⟩)

/-- How far a watcher is. -/
inductive WatchPhase where
  | running
  /-- It was told to stop and has not noticed yet. -/
  | stopping
  | ended
deriving Repr, DecidableEq

/-- A watcher of one file. -/
structure Watcher where
  /-- The path as it was given. -/
  path : Path
  /-- The milliseconds between two looks. -/
  interval : Nat
  /-- What was seen last. -/
  detector : ChangeDetector := {}
  /-- How far it is. -/
  phase : WatchPhase := .running
deriving Repr, DecidableEq

namespace Watcher

/-- Whether a watcher looks no more. -/
def isEnded (w : Watcher) : Bool := w.phase = .ended

/-- The watcher told to stop. -/
def stop (w : Watcher) : Watcher :=
  match w.phase with
  | .running => { w with phase := .stopping }
  | _ => w

/-- One look at the file, and whether a change is reported. Without an interval there is no look,
and a watcher ends when nobody listens to its report. -/
def poll (d : Directory) (listened : Bool) (w : Watcher) : Bool × Watcher :=
  match w.phase with
  | .running =>
      if w.interval = 0 then (false, { w with phase := .ended })
      else
        let (changed, detector) := w.detector.observe (d.stamp? w.path)
        if changed && !listened then (false, { w with detector, phase := .ended })
        else (changed, { w with detector })
  | _ => (false, { w with phase := .ended })

end Watcher

/-- A watcher with the queue that it fills. -/
structure Subscription where
  /-- The watcher. -/
  watcher : Watcher
  /-- The reports that were not taken yet. -/
  queue : List Path := []
  /-- Whether somebody takes the reports. -/
  listened : Bool := true
deriving Repr, DecidableEq

namespace Subscription

/-- The subscription after one look at the file. -/
def poll (d : Directory) (s : Subscription) : Subscription :=
  let (changed, watcher) := s.watcher.poll d s.listened
  { s with watcher, queue := if changed then s.queue ++ [watcher.path] else s.queue }

/-- The reports, which are taken. -/
def drain (s : Subscription) : List Path × Subscription := (s.queue, { s with queue := [] })

/-- The subscription with nobody listening; the reports are lost. -/
def close (s : Subscription) : Subscription := { s with queue := [], listened := false }

end Subscription

end ViewMarkup
