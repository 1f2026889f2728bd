import RegisterMap.Text.Numeral

/-!
# Indexed names

A name such as `ch12_ctrl` carries an index: the first run of digits behind its
letters. Names that differ only in the index belong to one family.
-/

namespace RegisterMap

structure IndexedName where
  stem : Text
  index : Option Nat
  tail : Text
  deriving DecidableEq, Repr

namespace IndexedName

def isStemChar (c : Char) : Bool := c.isAlpha || c = '_'

/-- None when no letter or underscore comes first, or the index does not fit a word. -/
def ofText? (name : Text) : Option IndexedName :=
  let stem := name.takeWhile isStemChar
  let rest := name.dropWhile isStemChar
  let digits := rest.takeWhile Char.isDigit
  if stem = [] then none
  else if digits = [] then some ⟨stem, none, rest⟩
  else if Text.numeralValue 10 digits < wordLimit then
    some ⟨stem, some (Text.numeralValue 10 digits), rest.dropWhile Char.isDigit⟩
  else none

def stripped (n : IndexedName) : Text := n.stem ++ n.tail

def sameFamily (a b : IndexedName) : Bool := a.stem = b.stem && a.tail = b.tail

end IndexedName

end RegisterMap
