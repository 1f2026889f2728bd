import RegisterMap.Layout.BitSpan
import RegisterMap.Layout.Plan

/-!
# Declarations

The C declarations of a layout, as data: a type for each register that needs
one, and the aggregate that declares all members.
-/

namespace RegisterMap

inductive BitMember where
  | filler (width : Nat)
  | bits (comment : Option Description) (name : Text) (width : Nat)

/-- `typedef volatile struct { … } name;` -/
structure BitType where
  comment : Option Description
  members : List BitMember
  name : Text

/-- A member of the aggregate. A length makes it an array. -/
inductive Slot where
  | padding (index words : Nat)
  | word (comment : Option Description) (name : Text) (length : Option Nat)
  | inline (comment : Option Description) (members : List BitMember)
  | typed (comment : Option Description) (type name : Text) (length : Option Nat)

/-- `typedef struct { … } name;` -/
structure Aggregate where
  comment : Option Description
  slots : List Slot
  name : Text

/-! ## Registers -/

/-- `owner` goes before the name of a field. -/
def BitSpan.member (owner : Text) : BitSpan → BitMember
  | .reserved width => .filler width
  | .field f => .bits f.description (owner ++ f.name) f.width

namespace Register

def bitMembers (r : Register) (owner : Text) : List BitMember := r.bitSpans.map (·.member owner)

def typeName (r : Register) (peripheral : Text) : Text :=
  peripheral ++ '_' :: r.name ++ "_t".toList

/-- A single field of a register that is no array goes into the aggregate itself. -/
def isInline (r : Register) (length : Option Nat) : Bool := r.isCollapsible && length.isNone

def bitType? (r : Register) (peripheral : Text) (length : Option Nat) : Option BitType :=
  if r.isSimple || r.isInline length then none
  else some ⟨r.description, r.bitMembers [], r.typeName peripheral⟩

def slot (r : Register) (peripheral : Text) (length : Option Nat) : Slot :=
  if r.isSimple then .word (r.fields.head?.bind (·.description)) r.name length
  else if r.isInline length then .inline r.description (r.bitMembers (r.name ++ ['_']))
  else .typed r.description (r.typeName peripheral) r.name length

end Register

/-! ## Layouts -/

namespace Member

def bitType? (m : Member) (peripheral : Text) : Option BitType :=
  match m with
  | .padding .. => none
  | .register r => r.bitType? peripheral none
  | .array template length => template.bitType? peripheral (some length)

def slot (m : Member) (peripheral : Text) : Slot :=
  match m with
  | .padding index words => .padding index words
  | .register r => r.slot peripheral none
  | .array template length => template.slot peripheral (some length)

end Member

namespace Layout

def bitTypes (l : Layout) : List BitType := l.members.filterMap (·.bitType? l.name)

def aggregate (l : Layout) : Aggregate :=
  ⟨l.description, l.members.map (·.slot l.name), l.name ++ "_t".toList⟩

end Layout

end RegisterMap
