import RegisterMap.Layout.Run
import RegisterMap.Log
import RegisterMap.Peripheral

/-!
# Plans

The members of the struct that maps a list of registers: registers and arrays
at their offsets, the gaps between them filled by padding.
-/

namespace RegisterMap

inductive Member where
  | padding (index words : Nat)
  | register (r : Register)
  | array (template : Register) (length : Nat)
  deriving DecidableEq

def Member.words : Member → Nat
  | .padding _ words => words
  | .register _ => 1
  | .array _ length => length

inductive LayoutError where
  /-- The register starts below the end of what comes before it. -/
  | overlap (register : Text) (offset : Word) (expected : Nat)
  | misaligned (register : Text) (offset : Word)
  deriving DecidableEq, Repr

def LayoutError.message : LayoutError → Text
  | .overlap register offset expected =>
    "register [".toList ++ register ++ "] at ".toList ++ Text.hexadecimal offset ++
      " overlaps the layout, expected an offset of at least ".toList ++ Text.hexadecimal expected
  | .misaligned register offset =>
    "register [".toList ++ register ++ "] at ".toList ++ Text.hexadecimal offset ++
      " is not aligned to 4 bytes".toList

structure Coalescence where
  first : Register
  length : Nat
  template : Register
  deriving DecidableEq

def Coalescence.log (c : Coalescence) : LogRecord where
  level := .info
  component := "regmodel_to_c_struct".toList
  message :=
    '[' :: c.first.name ++ "] at ".toList ++ Text.hexadecimal c.first.byteOffset ++ ": ".toList ++
      Text.decimal c.length ++ " registers coalesced into [".toList ++ c.template.name ++ [']']

namespace Run

def member (r : Run) : Member :=
  if r.others = [] then .register r.first else .array r.first.template r.length

def coalescences (r : Run) : List Coalescence :=
  if r.others = [] then [] else [⟨r.first, r.length, r.first.template⟩]

end Run

/-- Members, or the first error, with what was reported until then. -/
structure Plan where
  members : Except LayoutError (List Member)
  coalescences : List Coalescence

/-- Places runs from byte `reached` on, after so many paddings. Only the first
register of a run is checked, and a run takes one word per register. The words
of a gap are counted in 32 bits. -/
def place (reached paddings : Nat) : List Run → Plan
  | [] => ⟨.ok [], []⟩
  | run :: rest =>
    let r := run.first
    let offset := r.byteOffset.val
    if offset % wordBytes ≠ 0 then ⟨.error (.misaligned r.name r.byteOffset), []⟩
    else if offset < reached then ⟨.error (.overlap r.name r.byteOffset reached), []⟩
    else
      let words := (offset - reached) / wordBytes % wordLimit
      let gap := if reached < offset then [Member.padding paddings words] else []
      let behind := place (offset + wordBytes * run.length) (paddings + gap.length) rest
      { members := behind.members.map (gap ++ run.member :: ·)
        coalescences := run.coalescences ++ behind.coalescences }

/-- Registers are placed in the order given, which may be none that can be laid out. -/
def plan (registers : List Register) : Plan := place 0 0 (runs registers)

structure Layout where
  name : Text
  description : Option Description
  members : List Member

namespace Peripheral

def plan (p : Peripheral) : Plan := RegisterMap.plan p.registers

def layout (p : Peripheral) : Except LayoutError Layout :=
  p.plan.members.map fun members => ⟨p.name, p.description, members⟩

end Peripheral

end RegisterMap
