/-!
# Texts

A text is the list of its characters, so what is left of it at any place is a
text again. Numbers are written in decimal, or in lowercase hexadecimal after
`0x`.
-/

namespace RegisterMap

abbrev Text := List Char

namespace Text

def decimal (n : Nat) : Text := Nat.toDigits 10 n

def hexadecimal (n : Nat) : Text := '0' :: 'x' :: Nat.toDigits 16 n

/-- Lowercase of the ASCII letters; identifiers hold no other letters. -/
def lowercase (s : Text) : Text := s.map Char.toLower

def unlines (lines : List Text) : Text := lines.flatMap (· ++ ['\n'])

theorem unlines_append (xs ys : List Text) : unlines (xs ++ ys) = unlines xs ++ unlines ys := by
  simp [unlines]

end Text

end RegisterMap
