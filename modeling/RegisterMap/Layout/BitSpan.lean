import RegisterMap.Register

/-!
# Bit spans

The fields of a register in bit order, every gap between them and the one up to
the top bit filled by a reserved span.
-/

namespace RegisterMap

inductive BitSpan where
  | reserved (width : Nat)
  | field (f : Field)
  deriving DecidableEq

def BitSpan.width : BitSpan → Nat
  | .reserved width => width
  | .field f => f.width

/-- The spans of fields, when all bits below `reached` are spoken for. -/
def bitSpansFrom (reached : Nat) : List Field → List BitSpan
  | [] => if reached < wordBits then [.reserved (wordBits - reached)] else []
  | f :: rest =>
    (if reached < f.bitOffset then [.reserved (f.bitOffset - reached)] else []) ++
      .field f :: bitSpansFrom (max reached f.bitEnd) rest

def Register.bitSpans (r : Register) : List BitSpan := bitSpansFrom 0 r.fields

end RegisterMap
