import RegisterMap.Text.Basic

/-!
# Paths

A path holds names between slashes. An empty name and `.` stay where they are,
`..` goes up, and each name is looked for in what the names before it lead to,
which must be a directory.
-/

namespace RegisterMap.Tool

inductive Kind where
  | directory
  | file
  deriving DecidableEq, Repr

inductive FileError where
  | notPermitted
  | missing
  | noMemory
  | denied
  | notDirectory
  | isDirectory
  | noSpace
  | nameTooLong
  | other (message : Text)
  deriving DecidableEq, Repr

def FileError.message : FileError → Text
  | notPermitted => "Operation not permitted (os error 1)".toList
  | missing => "No such file or directory (os error 2)".toList
  | noMemory => "Cannot allocate memory (os error 12)".toList
  | denied => "Permission denied (os error 13)".toList
  | notDirectory => "Not a directory (os error 20)".toList
  | isDirectory => "Is a directory (os error 21)".toList
  | noSpace => "No space left on device (os error 28)".toList
  | nameTooLong => "File name too long (os error 36)".toList
  | other m => m

namespace Path

def names (path : Text) : List Text := path.splitOn '/'

def isAbsolute (path : Text) : Bool := path.head? = some '/'

/-- Whether a name stays where it is. -/
def isHere (name : Text) : Bool := name = [] ∨ name = ['.']

def isUp (name : Text) : Bool := name = ['.', '.']

/-- The path up to its last name, names that stay where they are not counted. -/
def parent? (path : Text) : Option Text :=
  match (names path).reverse.dropWhile isHere with
  | [] => none
  | [_] => some ['.']
  | _ :: above => some (above.reverse.flatMap (· ++ ['/']))

def endsInSlash (path : Text) : Bool := path.getLast? = some '/'

def byteLength (s : Text) : Nat := (s.flatMap String.utf8EncodeChar).length

/-- Paths and names are limited in bytes, not in characters. -/
def isTooLong (path : Text) : Bool := 4095 < byteLength path

def isNameTooLong (name : Text) : Bool := 255 < byteLength name

end Path

end RegisterMap.Tool
