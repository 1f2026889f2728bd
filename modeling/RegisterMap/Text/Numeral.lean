import RegisterMap.Text.Basic

/-!
# Numerals

The numbers that runs of digits stand for, and reading a numeral that fits a
32-bit word.
-/

namespace RegisterMap

abbrev wordLimit : Nat := 4294967296

-- the zero is named because literals of `Fin` ask for this one
instance : @NeZero Nat Zero.ofOfNat0 wordLimit := ⟨Nat.succ_ne_zero _⟩

abbrev Word := Fin wordLimit

namespace Text

def digitValue (c : Char) : Nat :=
  if c.isDigit then c.toNat - '0'.toNat
  else if c.isLower then c.toNat - 'a'.toNat + 10
  else c.toNat - 'A'.toNat + 10

/-- The number that digits of a base stand for, the first digit counting most. -/
def numeralValue (base : Nat) (digits : Text) : Nat :=
  digits.foldl (fun n c => base * n + digitValue c) 0

/-- The longest run of digits at the front, if it is not empty and fits a word. -/
def numeral? (isDigit : Char → Bool) (base : Nat) (s : Text) : Option (Word × Text) :=
  let digits := s.takeWhile isDigit
  if digits = [] then none
  else if h : numeralValue base digits < wordLimit then some (⟨_, h⟩, s.dropWhile isDigit)
  else none

def decimal? : Text → Option (Word × Text) := numeral? Char.isDigit 10

def hexadecimal? : Text → Option (Word × Text) := numeral? Char.isHexDigit 16

theorem numeral?_suffix {isDigit : Char → Bool} {base : Nat} {s rest : Text} {n : Word}
    (h : numeral? isDigit base s = some (n, rest)) : rest <:+ s := by
  simp only [numeral?] at h
  split at h
  · cases h
  · split at h
    · cases h
      exact List.dropWhile_suffix _
    · cases h

end Text

end RegisterMap
