import RegisterMap.Peripheral

/-!
# Drafts

A peripheral under construction: registers are begun, given fields and
committed one at a time. An edit that cannot be made leaves the draft as it is.
-/

namespace RegisterMap

structure Draft where
  peripheral : Peripheral
  current : Option Register

namespace Draft

inductive Edit where
  /-- Begin a register; one that is not committed is dropped. -/
  | start (spec : RegisterSpec)
  | add (spec : FieldSpec)
  /-- Add a copy of a field of the current register under another name. -/
  | copy (index : Nat) (name : Text)
  | commit

inductive EditError where
  | field (e : FieldError)
  | noRegister
  | noField (index : Nat)

def empty (name : Text) (description : Option Text) : Draft where
  peripheral := .empty name (Description.ofOption? description)
  current := none

def apply (d : Draft) : Edit → Except EditError Draft
  | .start spec => (spec.register.mapError .field).map fun r => { d with current := some r }
  | .add spec =>
    match d.current with
    | none => .error .noRegister
    | some r => (spec.field.mapError .field).map fun f => { d with current := some (r.add f) }
  | .copy index name =>
    match d.current with
    | none => .error .noRegister
    | some r =>
      match r.fields[index]? with
      | none => .error (.noField index)
      | some f => .ok { d with current := some (r.add (f.renamed name)) }
  | .commit =>
    match d.current with
    | none => .error .noRegister
    | some r => .ok ⟨d.peripheral.add r, none⟩

/-- The draft after an edit, unchanged if the edit cannot be made. -/
def step (d : Draft) (e : Edit) : Draft :=
  match d.apply e with
  | .ok d' => d'
  | .error _ => d

end Draft

end RegisterMap
