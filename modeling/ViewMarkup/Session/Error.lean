import ViewMarkup.Document.Error
import ViewMarkup.Files.Directory
import ViewMarkup.Session.Roots
import ViewMarkup.View.Apply

/-!
# What goes wrong in a session

## Main definitions

* `SessionError`, its wording, and the path that it belongs to.
-/

namespace ViewMarkup

/-- Something that goes wrong in a session. -/
inductive SessionError where
  /-- A document or a directory cannot be read. -/
  | unreadable (path : Path) (fault : FileFault)
  /-- A file cannot be watched, because nothing runs watchers. -/
  | unwatchable (path : Path)
  /-- A document is refused. -/
  | invalid (path : Path) (error : DocumentError)
  /-- A definition cannot be applied. -/
  | inapplicable (typeName : String) (error : ApplyError)
  /-- A type is not loaded. -/
  | unknownType (typeName : String)
  /-- A root is not registered. -/
  | unknownRoot (root : RootId)
deriving Repr

namespace SessionError

/-- The wording of an error. -/
def message : SessionError → String
  | unreadable _ fault => "cannot read document: " ++ fault.message
  | unwatchable path => "cannot watch " ++ path.spelling ++ ": no tokio runtime is running"
  | invalid _ error => "invalid document: " ++ error.message
  | inapplicable typeName error => "cannot apply `" ++ typeName ++ "`: " ++ error.message
  | unknownType typeName => "unknown component type `" ++ typeName ++ "`"
  -- An identity is shown as a key, for which its number stands here.
  | unknownRoot root => "unknown root RootId(" ++ toString root.index ++ ")"

/-- The path that an error belongs to. -/
def path? : SessionError → Option Path
  | unreadable path _ => some path
  | unwatchable path => some path
  | invalid path _ => some path
  | _ => none

end SessionError

end ViewMarkup
