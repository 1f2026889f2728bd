import RegisterMap.Tool.Script

/-!
# Runs

What a run does, over the calls that it makes: it looks at what places there are,
reads, and carries out its steps, each of which may fail.
-/

namespace RegisterMap.Tool

/-- The calls that a run makes. A text is written to what was opened for it. -/
structure System (m : Type → Type) (Opened : Type) where
  kind : Text → m (Except FileError Kind)
  read : Place → m (Except FileError ByteArray)
  create : Artifact → Place → m (Except FileError Opened)
  write : Opened → ByteArray → m (Except FileError Unit)
  flush : Opened → m (Except FileError Unit)
  remove : Artifact → Text → m (Except FileError Unit)
  report : LogRecord → m Unit

inductive Outcome where
  /-- The command line asks for nothing that can be done. -/
  | usage
  | help
  | finished (done : Bool)
  deriving DecidableEq, Repr

def Outcome.status : Outcome → Nat
  | .usage => 2
  | .help => 0
  | .finished done => if done then 0 else 1

namespace System

variable {m : Type → Type} [Monad m] {Opened : Type} (s : System m Opened)

/-! ## Writing a text -/

def fill (o : Opened) (text : Text) : m (Except FileError Unit) := do
  match ← s.write o (encode text) with
  | .ok () => s.flush o
  | .error e => return .error e

/-- No part of a text is to stay in a file. -/
def discard (artifact : Artifact) : Place → m Unit
  | .standard => return ()
  | .path path => do
    match ← s.remove artifact path with
    | .ok () => return ()
    | .error e => s.report (unremovable path e.message)

def store (artifact : Artifact) (target : Place) (text : Text) : m (Except FileError Unit) := do
  match ← s.create artifact target with
  | .error e => return .error e
  | .ok o =>
    match ← s.fill o text with
    | .ok () => return .ok ()
    | .error e => do
      s.discard artifact target
      return .error e

/-! ## Steps -/

def perform : List Step → m Bool
  | [] => return true
  | .log r :: rest => do
    s.report r
    perform rest
  | .write artifact target text :: rest => do
    match ← s.store artifact target text with
    | .ok () => perform rest
    | .error e => do
      s.report (artifact.unwritable e.message)
      return false
  | .fail r :: _ => do
    s.report r
    return false

def carryOut (r : Request) : m Bool := do s.perform (r.steps (← s.read r.input))

/-! ## Command lines -/

def kinds (paths : List Text) : m (Text → Except FileError Kind) := do
  let found ← paths.mapM s.kind
  return fun path => ((paths.zip found).lookup path).getD (.error .missing)

def run (arguments : List Text) : m Outcome :=
  match Command.ofTexts? arguments with
  | none => return .usage
  | some command => do
    if command.places.isUsable (← s.kinds command.places.paths) then
      match command with
      | .help _ => return .help
      | .generate r => return .finished (← s.carryOut r)
    else return .usage

end System

end RegisterMap.Tool
