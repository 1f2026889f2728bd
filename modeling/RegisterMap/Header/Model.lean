import RegisterMap.Header.Extract
import RegisterMap.Log
import RegisterMap.Peripheral

/-!
# Header model

The peripheral that a header describes. Every record becomes a register; fields
whose bits do not fit their word are left out, with a notice.
-/

namespace RegisterMap.Header

inductive Rejection where
  | inverted
  | invalid (e : FieldError)
  deriving DecidableEq, Repr

def FieldRecord.field (f : FieldRecord) : Except Rejection Field :=
  match f.bits.offsetAndWidth? with
  | none => .error .inverted
  | some (bitOffset, width) =>
    ({ name := f.name, bitOffset, width, description := f.description } : FieldSpec).field
      |>.mapError .invalid

/-! ## Notices -/

inductive Notice where
  | found (record : RegisterRecord)
  | skipped (register : Text) (record : FieldRecord) (reason : Rejection)

def BitRange.text : BitRange → Text
  | .single bit => "Single(".toList ++ Text.decimal bit ++ [')']
  | .range hi lo =>
    "Range \x7b hi: ".toList ++ Text.decimal hi ++ ", lo: ".toList ++ Text.decimal lo ++
      " \x7d".toList

def Notice.message : Notice → Text
  | .found r =>
    "line ".toList ++ Text.decimal r.line ++ ": register [".toList ++ r.name ++ "] at ".toList ++
      Text.hexadecimal r.offset ++ " with ".toList ++ Text.decimal r.fields.length ++
      " field(s)".toList
  | .skipped _ f .inverted =>
    "line ".toList ++ Text.decimal f.line ++ ": skipping field [".toList ++ f.name ++
      "], inverted bit range ".toList ++ f.bits.text
  | .skipped register f (.invalid e) =>
    "line ".toList ++ Text.decimal f.line ++ ": skipping field of [".toList ++ register ++
      "]: ".toList ++ e.message

def Notice.level : Notice → Level
  | .found _ => .debug
  | .skipped .. => .warn

def Notice.log (n : Notice) : LogRecord := ⟨n.level, "regmodel_from_esp_header".toList, n.message⟩

/-! ## Registers -/

namespace RegisterRecord

def register (r : RegisterRecord) : Register :=
  (Register.empty r.name r.offset (Description.ofOption? r.description)).addAll
    (r.fields.filterMap (·.field.toOption))

def notices (r : RegisterRecord) : List Notice :=
  .found r :: r.fields.filterMap fun f =>
    match f.field with
    | .error reason => some (.skipped r.name f reason)
    | .ok _ => none

end RegisterRecord

structure Reading where
  peripheral : Peripheral
  notices : List Notice

def read (text name : Text) (description : Option Text) (macroPrefix : Text) : Reading :=
  let records := extract text macroPrefix
  { peripheral :=
      (Peripheral.empty name (Description.ofOption? description)).addAll
        (records.map RegisterRecord.register)
    notices := records.flatMap RegisterRecord.notices }

end RegisterMap.Header
