import RegisterMap.IndexedName
import RegisterMap.Register

/-!
# Runs

Registers such as `ch0_ctrl`, `ch1_ctrl`, … that differ in their index alone,
and stand as far apart as their indices say, are elements of one array.
-/

namespace RegisterMap

/-- The same bits, under names of one family. -/
def Field.alike (f g : Field) : Bool :=
  match IndexedName.ofText? f.name, IndexedName.ofText? g.name with
  | some m, some n => m.sameFamily n && f.bitOffset = g.bitOffset && f.width = g.width
  | _, _ => false

namespace Register

/-- As many words apart as the indices of the names say, upwards. -/
def indexedStep (a b : Register) : Bool :=
  match IndexedName.ofText? a.name, IndexedName.ofText? b.name with
  | some ⟨stem, some i, tail⟩, some ⟨stem', some j, tail'⟩ =>
    let stride := b.byteOffset.val - a.byteOffset.val
    stem = stem' && tail = tail' && a.byteOffset < b.byteOffset && stride % wordBytes = 0 &&
      i + stride / wordBytes = j
  | _, _ => false

def precedes (a b : Register) : Bool :=
  a.fields.length = b.fields.length && (a.fields.zip b.fields).all (fun (f, g) => f.alike g) &&
    a.indexedStep b

end Register

/-! ## Templates -/

/-- The name that a field has in every element of an array: without the index,
and without the whole stem if that is the one of the register with its index. -/
def IndexedName.memberName (register : IndexedName) (field : Text) : Text :=
  match ofText? field with
  | none => field
  | some n =>
    let bare := n.tail.dropWhile (· = '_')
    if n.stem = register.stem ∧ n.index = register.index ∧ bare ≠ [] then bare else n.stripped

/-- The register without its index, as the type of all elements of its array. -/
def Register.template (r : Register) : Register :=
  match IndexedName.ofText? r.name with
  | none => r
  | some n =>
    (Register.empty n.stripped r.byteOffset r.description).addAll
      (r.fields.map fun f => f.renamed (n.memberName f.name))

/-! ## Cutting into runs -/

structure Run where
  first : Register
  others : List Register
  deriving DecidableEq

namespace Run

def registers (r : Run) : List Register := r.first :: r.others

def length (r : Run) : Nat := r.others.length + 1

end Run

def runLength (registers : List Register) : Nat :=
  ((registers.zip registers.tail).takeWhile fun (a, b) => a.precedes b).length + 1

/-- The registers in order, cut behind the run at the front, then behind the next one, and so on. -/
def runs : List Register → List Run
  | [] => []
  | r :: rest =>
    let length := runLength (r :: rest)
    ⟨r, rest.take (length - 1)⟩ :: runs ((r :: rest).drop length)
termination_by registers => registers.length
decreasing_by
  simp only [runLength, List.length_drop, List.length_cons]
  omega

end RegisterMap
