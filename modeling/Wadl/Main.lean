import Wadl.Command.Run

/-!
# The command line

The files are those of the system. There is no client for services on the web, so documents are
loaded from files only.
-/

namespace Wadl.Command

/-- The fault that an error of the system is. -/
def faultOf : IO.Error → FileFault
  | .noFileOrDirectory .. => .notFound
  | .permissionDenied .. => .denied
  | .alreadyExists .. => .alreadyThere
  | .inappropriateType .. => .isDirectory
  | _ => .notADirectory

/-- The result of an action on files. -/
def attempt {α : Type} (action : IO α) : IO (Except FileFault α) := do
  match ← action.toBaseIO with
  | .ok a => return .ok a
  | .error e => return .error (faultOf e)

/-- Whether there is a directory at a path of the system; none if nothing is there. -/
def systemDirectoryAt? (path : String) : IO (Option Bool) := do
  match ← (IO.FS.realPath path).toBaseIO with
  | .error _ => return none
  | .ok _ =>
    match ← attempt (IO.FS.readBinFile path) with
    | .error .isDirectory => return some true
    | _ => return some false

/-- Writes a file of the system, in directories that are made if they lack. -/
def systemStore (path text : String) : IO Unit := do
  let directory := rootText path ++ "/".intercalate (pathNames path).dropLast
  if !directory.isEmpty then IO.FS.createDirAll directory
  IO.FS.writeFile path text

/-- The system as a place to run in. -/
def systemWorkplace : Workplace IO where
  bytesAt path := do
    return (← attempt (IO.FS.readBinFile path)).map fun bytes => bytes.toList
  service _ := return .error "there is no client for the web"
  directoryAt? := systemDirectoryAt?
  locate path := do return toString (← IO.FS.realPath path)
  store path text := attempt (systemStore path text)

end Wadl.Command

/-- Does what the command line asks for. -/
def main (words : List String) : IO UInt32 := do
  let outcome ← Wadl.Command.run Wadl.Command.systemWorkplace words
  IO.print outcome.output
  IO.eprint outcome.log
  if outcome.crash.isSome then IO.eprintln "internal error"
  return UInt32.ofNat outcome.status
