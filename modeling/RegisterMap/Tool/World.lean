import RegisterMap.Tool.System
import RegisterMap.Tool.Workspace

/-!
# Worlds

What a run finds and leaves: files, streams, and what stands in the way of its
writes.
-/

namespace RegisterMap.Tool

/-- What keeps an artifact from being written, or what is left of it from being removed. -/
structure Obstacles where
  create : Option FileError := none
  /-- How many bytes can be written, and what stops the next one. -/
  room : Option (Nat × FileError) := none
  flush : Option FileError := none
  remove : Option FileError := none

structure Opened where
  channel : Channel
  obstacles : Obstacles

def Opened.stop? (o : Opened) (size : Nat) : Option (Nat × FileError) :=
  match o.channel with
  | .device .full => some (0, .noSpace)
  | _ => o.obstacles.room.filter (·.1 < size)

structure World where
  files : Workspace
  input : ByteArray
  output : ByteArray
  log : List LogRecord
  /-- Why an input that is there cannot be read. -/
  readError : Option FileError := none
  obstacles : Artifact → Place → Obstacles := fun _ _ => {}

namespace World

def report (w : World) (keep : LogFilter) (r : LogRecord) : World :=
  if keep r then { w with log := w.log ++ [r] } else w

def read (w : World) (place : Place) : Except FileError ByteArray :=
  match w.readError, place with
  | some e, _ => .error e
  | none, .standard => .ok w.input
  | none, .path path => w.files.find path >>= Entry.content

/-! ## Writing -/

def channel? (w : World) (artifact : Artifact) (target : Place) : Except FileError Channel :=
  match (w.obstacles artifact target).create, target with
  | some e, _ => .error e
  | none, .standard => .ok (.device .output)
  | none, .path path => w.files.locate path >>= w.files.channelAt

def create (w : World) (artifact : Artifact) (target : Place) : Except FileError Opened × World :=
  match w.channel? artifact target with
  | .ok c => (.ok ⟨c, w.obstacles artifact target⟩, { w with files := w.files.clear c })
  | .error e => (.error e, w)

def put (w : World) (content : ByteArray) : Channel → World
  | .file l => { w with files := w.files.append l content }
  | .device .output => { w with output := w.output ++ content }
  | .device .full => w

def write (w : World) (o : Opened) (content : ByteArray) : Except FileError Unit × World :=
  match o.stop? content.size with
  | none => (.ok (), w.put content o.channel)
  | some (n, e) => (.error e, w.put (content.extract 0 n) o.channel)

def remove (w : World) (artifact : Artifact) (path : Text) : Except FileError Unit × World :=
  match (w.obstacles artifact (.path path)).remove, w.files.remove path with
  | some e, _ => (.error e, w)
  | none, .error e => (.error e, w)
  | none, .ok files => (.ok (), { w with files })

/-! ## Runs -/

/-- A run in a world, in whose log only some records are kept. -/
def system (keep : LogFilter) : System (StateM World) Opened where
  kind path := fun w => (w.files.kind path, w)
  read place := fun w => (w.read place, w)
  create artifact target := fun w => w.create artifact target
  write o content := fun w => w.write o content
  flush o := fun w => (match o.obstacles.flush with | some e => .error e | none => .ok (), w)
  remove artifact path := fun w => w.remove artifact path
  report r := fun w => ((), w.report keep r)

def run (w : World) (keep : LogFilter) (arguments : List Text) : Outcome × World :=
  (system keep).run arguments w

end World

end RegisterMap.Tool
