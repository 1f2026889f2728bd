import RegisterMap.Description

/-!
# Fields

A field is a named range of bits of a 32-bit word. `FieldSpec.field` builds one
from any numbers, or says which of them does not fit.
-/

namespace RegisterMap

abbrev wordBits : Nat := 32

abbrev wordBytes : Nat := 4

structure Field where
  name : Text
  bitOffset : Nat
  width : Nat
  description : Option Description
  width_pos : 0 < width
  end_le : bitOffset + width ≤ wordBits
  deriving DecidableEq

namespace Field

def bitEnd (f : Field) : Nat := f.bitOffset + f.width

def renamed (f : Field) (name : Text) : Field := { f with name }

def overlaps (f g : Field) : Bool := f.bitOffset < g.bitEnd && g.bitOffset < f.bitEnd

/-- What is left of a number that is cut to a byte, then stored as one of so many values. -/
def kept (values n : Nat) : Nat := n % 256 % values

theorem kept_of_lt {values n : Nat} (hvalues : values ≤ 256) (h : n < values) :
    kept values n = n := by
  rw [kept, Nat.mod_eq_of_lt (Nat.lt_of_lt_of_le h hvalues), Nat.mod_eq_of_lt h]

end Field

inductive FieldError where
  | bitOffset (bitOffset : Nat)
  | width (width : Nat)
  /-- The range starts inside the word and ends above it. -/
  | span (bitOffset width : Nat)
  deriving DecidableEq, Repr

def FieldError.message : FieldError → Text
  | .bitOffset n =>
    "bit offset ".toList ++ Text.decimal n ++ " is outside of a 32-bit word".toList
  | .width n => "width ".toList ++ Text.decimal n ++ " is not in 1..=32".toList
  | .span n w =>
    "bits ".toList ++ Text.decimal n ++ "..=".toList ++ Text.decimal (n + w - 1) ++
      " do not fit in a 32-bit word".toList

structure FieldSpec where
  name : Text
  bitOffset : Nat
  width : Nat
  description : Option Text
  deriving DecidableEq, Repr

/-- An offset is stored in five bits, a width in six. -/
def FieldSpec.field (s : FieldSpec) : Except FieldError Field :=
  if ho : s.bitOffset ≥ wordBits then .error (.bitOffset s.bitOffset)
  else if hw : s.width = 0 ∨ s.width > wordBits then .error (.width s.width)
  else if he : s.bitOffset + s.width > wordBits then .error (.span s.bitOffset s.width)
  else
    have hoffset : Field.kept 32 s.bitOffset = s.bitOffset :=
      Field.kept_of_lt (by decide) (Nat.lt_of_not_le ho)
    have hle : s.width ≤ wordBits := by omega
    have hwidth : Field.kept 64 s.width = s.width :=
      Field.kept_of_lt (by decide) (Nat.lt_of_le_of_lt hle (by decide))
    .ok {
      name := s.name
      bitOffset := Field.kept 32 s.bitOffset
      width := Field.kept 64 s.width
      description := Description.ofOption? s.description
      width_pos := by omega
      end_le := by omega }

end RegisterMap
