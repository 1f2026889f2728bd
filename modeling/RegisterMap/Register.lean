import RegisterMap.Field
import RegisterMap.Sorted
import RegisterMap.Text.Numeral

/-!
# Registers

A register is a named word at a byte offset. Its fields stand in the order of
their bit offsets, fields at one offset in the order they were added.
-/

namespace RegisterMap

structure Register where
  name : Text
  byteOffset : Word
  description : Option Description
  fields : List Field
  sorted : fields.Pairwise (·.bitOffset ≤ ·.bitOffset)
  deriving DecidableEq

namespace Register

def empty (name : Text) (byteOffset : Word) (description : Option Description) : Register where
  name
  byteOffset
  description
  fields := []
  sorted := .nil

def add (r : Register) (f : Field) : Register :=
  { r with
    fields := insertByKey Field.bitOffset f r.fields
    sorted := insertByKey_sorted f r.sorted }

def addAll (r : Register) (fields : List Field) : Register := fields.foldl add r

def isCollapsible (r : Register) : Bool := r.fields.length = 1

def isSimple (r : Register) : Bool :=
  match r.fields with
  | [] => true
  | [f] => f.width = wordBits
  | _ => false

end Register

structure RegisterSpec where
  name : Text
  byteOffset : Word
  description : Option Text
  fields : List FieldSpec
  deriving DecidableEq, Repr

/-- The register of a specification, or what is wrong with its first bad field. -/
def RegisterSpec.register (s : RegisterSpec) : Except FieldError Register :=
  (s.fields.mapM FieldSpec.field).map
    (Register.empty s.name s.byteOffset (Description.ofOption? s.description)).addAll

end RegisterMap
