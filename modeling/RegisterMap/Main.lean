import RegisterMap.Tool.System

/-!
# Command line

Runs on the real files and streams.
-/

namespace RegisterMap.Main

open Tool

def fileError : IO.Error → FileError
  | .noFileOrDirectory .. => .missing
  | .permissionDenied _ 1 _ => .notPermitted
  | .permissionDenied .. => .denied
  | .inappropriateType _ 21 _ => .isDirectory
  | .inappropriateType .. => .notDirectory
  | .resourceExhausted _ 12 _ => .noMemory
  | .resourceExhausted _ 28 _ => .noSpace
  | e => .other (toString e).toList

def attempt {α : Type} (action : IO α) : BaseIO (Except FileError α) := do
  return (← action.toBaseIO).mapError fileError

/-- What leads to nothing cannot be opened either, which says why. -/
def kind (path : Text) : BaseIO (Except FileError Kind) := do
  match ← (IO.FS.realPath (String.ofList path)).toBaseIO with
  | .ok found => return .ok (if ← found.isDir then .directory else .file)
  | .error _ => attempt do
    let _ ← IO.FS.Handle.mk (String.ofList path) .read
    return .file

def read : Place → IO ByteArray
  | .standard => do (← IO.getStdin).readBinToEnd
  | .path path => IO.FS.readBinFile (String.ofList path)

def create : Place → IO IO.FS.Stream
  | .standard => IO.getStdout
  | .path path => do return .ofHandle (← IO.FS.Handle.mk (String.ofList path) .write)

def report (keep : LogFilter) (r : LogRecord) : IO Unit := do
  if keep r then IO.eprintln (String.ofList r.text)

def system (keep : LogFilter) : System BaseIO IO.FS.Stream where
  kind := kind
  read place := attempt (read place)
  create _ target := attempt (create target)
  write o content := attempt (o.write content)
  flush o := attempt o.flush
  remove _ path := attempt (IO.FS.removeFile (String.ofList path))
  report r := do discard (report keep r).toBaseIO

def run (arguments : List String) : IO UInt32 := do
  let keep := LogFilter.ofText ((← IO.getEnv "RUST_LOG").map String.toList)
  let outcome ← (system keep).run (arguments.map String.toList)
  if outcome = .usage then IO.eprintln "usage"
  return .ofNat outcome.status

end RegisterMap.Main

def main : List String → IO UInt32 := RegisterMap.Main.run
