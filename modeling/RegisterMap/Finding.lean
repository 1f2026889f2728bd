import RegisterMap.Peripheral

/-!
# Findings

What is suspicious in a peripheral: fields of a register that share a bit, and
registers that share a name. A peripheral with findings can still be laid out.
-/

namespace RegisterMap

inductive Finding where
  | overlap (register first second : Text)
  /-- A register, with the offset of the first one of its name and its own. -/
  | duplicate (name : Text) (first second : Word)
  deriving DecidableEq, Repr

def Finding.message : Finding → Text
  | .overlap register first second =>
    register ++ ": fields [".toList ++ first ++ "] and [".toList ++ second ++ "] overlap".toList
  | .duplicate name first second =>
    "register [".toList ++ name ++ "] is defined at ".toList ++ Text.hexadecimal first ++
      " and again at ".toList ++ Text.hexadecimal second

/-- Pairs of overlapping fields. In sorted order the fields that overlap `f`
directly follow it. -/
def overlappingPairs : List Field → List (Field × Field)
  | [] => []
  | f :: rest => (rest.takeWhile f.overlaps).map (f, ·) ++ overlappingPairs rest

def Register.overlapFindings (r : Register) : List Finding :=
  (overlappingPairs r.fields).map fun (f, g) => .overlap r.name f.name g.name

/-- The registers that have an earlier one of their name; `seen` comes before. -/
def duplicatesAfter (seen : List Register) : List Register → List Finding
  | [] => []
  | r :: rest =>
    match seen.find? (·.name = r.name) with
    | some first =>
      .duplicate r.name first.byteOffset r.byteOffset :: duplicatesAfter (seen ++ [r]) rest
    | none => duplicatesAfter (seen ++ [r]) rest

def Peripheral.findings (p : Peripheral) : List Finding :=
  p.registers.flatMap Register.overlapFindings ++ duplicatesAfter [] p.registers

end RegisterMap
