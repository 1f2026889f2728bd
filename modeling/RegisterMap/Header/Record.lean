import RegisterMap.Text.Numeral

/-!
# Header records

What a vendor header says about a register and its fields, before any of it is
checked: names, numbers, descriptions and the lines they stand on.
-/

namespace RegisterMap.Header

inductive BitRange where
  | single (bit : Nat)
  | range (hi lo : Nat)
  deriving DecidableEq, Repr

/-- Lowest bit and width; none for a range that is upside down or wider than any word. -/
def BitRange.offsetAndWidth? : BitRange → Option (Nat × Nat)
  | .single bit => some (bit, 1)
  | .range hi lo => if lo ≤ hi ∧ hi - lo + 1 < wordLimit then some (lo, hi - lo + 1) else none

structure FieldRecord where
  name : Text
  bits : BitRange
  description : Option Text
  line : Nat
  deriving DecidableEq, Repr

structure RegisterRecord where
  name : Text
  offset : Word
  description : Option Text
  line : Nat
  fields : List FieldRecord
  deriving DecidableEq, Repr

end RegisterMap.Header
