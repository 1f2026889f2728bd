import RegisterMap.Tool.Request

/-!
# Workspaces

The files there are, from the root, and the directory that a run works in.
-/

namespace RegisterMap.Tool

inductive Device where
  | output
  /-- One on which every write fails. -/
  | full
  deriving DecidableEq, Repr

inductive Entry where
  | file (content : ByteArray)
  | directory
  /-- A link to a device. -/
  | device (d : Device)

namespace Entry

def kind : Entry → Kind
  | directory => .directory
  | _ => .file

/-- What reading it gives. What comes from a device has no end. -/
def content : Entry → Except FileError ByteArray
  | file content => .ok content
  | directory => .error .isDirectory
  | device _ => .error .noMemory

end Entry

/-- The names on the way from the root to an entry. -/
abbrev Location := List Text

structure Workspace where
  working : Location
  entries : Location → Option Entry

inductive Channel where
  | file (l : Location)
  | device (d : Device)
  deriving DecidableEq, Repr

namespace Workspace

def empty (working : Location) : Workspace where
  working
  entries l := if l.isPrefixOf working then some .directory else none

def update (w : Workspace) (l : Location) (e : Option Entry) : Workspace :=
  { w with entries := fun l' => if l' = l then e else w.entries l' }

/-- An entry below the working directory, and the directories on the way to it. -/
def add (w : Workspace) (names : List Text) (e : Entry) : Workspace :=
  let above := (List.range names.length).map fun n => w.working ++ names.take n
  (above.foldl (·.update · (some .directory)) w).update (w.working ++ names) (some e)

/-- The location that names lead to from another one. There is nothing above the root. -/
def walk (w : Workspace) (l : Location) : List Text → Except FileError Location
  | [] => .ok l
  | name :: rest =>
    match w.entries l with
    | some .directory =>
      if Path.isHere name then w.walk l rest
      else if Path.isUp name then w.walk l.dropLast rest
      else if Path.isNameTooLong name then .error .nameTooLong
      else w.walk (l ++ [name]) rest
    | some _ => .error .notDirectory
    | none => .error .missing

/-- The location of a path, where there may be nothing yet. -/
def locate (w : Workspace) (path : Text) : Except FileError Location :=
  if path = [] then .error .missing
  else if Path.isTooLong path then .error .nameTooLong
  else w.walk (if Path.isAbsolute path then [] else w.working) (Path.names path)

def find (w : Workspace) (path : Text) : Except FileError Entry := do
  match w.entries (← w.locate path) with
  | some e => .ok e
  | none => .error .missing

def kind (w : Workspace) (path : Text) : Except FileError Kind := (w.find path).map Entry.kind

/-! ## Writing -/

def channelAt (w : Workspace) (l : Location) : Except FileError Channel :=
  match w.entries l with
  | some .directory => .error .isDirectory
  | some (.device d) => .ok (.device d)
  | _ => .ok (.file l)

/-- A file that is opened for writing is empty then. -/
def clear (w : Workspace) : Channel → Workspace
  | .file l => w.update l (some (.file .empty))
  | .device _ => w

def append (w : Workspace) (l : Location) (content : ByteArray) : Workspace :=
  match w.entries l with
  | some (.file before) => w.update l (some (.file (before ++ content)))
  | _ => w

def remove (w : Workspace) (path : Text) : Except FileError Workspace := do
  let l ← w.locate path
  match w.entries l with
  | some .directory => .error .isDirectory
  | some _ => .ok (w.update l none)
  | none => .error .missing

end Workspace

end RegisterMap.Tool
