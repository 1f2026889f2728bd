import RegisterMap.Register

/-!
# Peripherals

A peripheral is a named list of registers in the order of their byte offsets,
registers at one offset in the order they were added.
-/

namespace RegisterMap

structure Peripheral where
  name : Text
  description : Option Description
  registers : List Register
  sorted : registers.Pairwise (·.byteOffset.val ≤ ·.byteOffset.val)
  deriving DecidableEq

namespace Peripheral

def empty (name : Text) (description : Option Description) : Peripheral where
  name
  description
  registers := []
  sorted := .nil

def add (p : Peripheral) (r : Register) : Peripheral :=
  { p with
    registers := insertByKey (·.byteOffset.val) r p.registers
    sorted := insertByKey_sorted r p.sorted }

def addAll (p : Peripheral) (registers : List Register) : Peripheral := registers.foldl add p

end Peripheral

end RegisterMap
