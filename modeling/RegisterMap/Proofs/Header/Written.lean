import RegisterMap.Header.Comment
import RegisterMap.Header.Grammar

/-!
# Written headers

Headers in the vendor's format, as the data they are written from: paragraphs
behind empty lines, some of them registers with their fields. Beside the text of
each part stands the record that is to be read from it.
-/

namespace RegisterMap.Header

structure Identifier where
  text : Text
  nonempty : text ≠ []
  all_isWordChar : text.all isWordChar

structure Numeral (isDigit : Char → Bool) (base : Nat) where
  digits : Text
  nonempty : digits ≠ []
  all_isDigit : digits.all isDigit
  value_lt : Text.numeralValue base digits < wordLimit

abbrev Decimal := Numeral Char.isDigit 10

abbrev Hexadecimal := Numeral Char.isHexDigit 16

def Numeral.value {isDigit : Char → Bool} {base : Nat} (n : Numeral isDigit base) : Word :=
  ⟨Text.numeralValue base n.digits, n.value_lt⟩

/-- What a comment says, which must not close the comment. -/
structure Remark where
  text : Text
  not_closing : ¬ "*/".toList <:+: text

def Remark.isPlain (d : Remark) : Bool :=
  d.text ≠ [] ∧ '\n' ∉ d.text ∧ Text.trim d.text = d.text ∧ d.text.head? ≠ some '*'

/-! ## Fields -/

inductive BitPosition where
  | single (bit : Decimal)
  | range (hi lo : Decimal)

namespace BitPosition

def text : BitPosition → Text
  | single bit => bit.digits
  | range hi lo => hi.digits ++ [':'] ++ lo.digits

def bits : BitPosition → BitRange
  | single bit => .single bit.value
  | range hi lo => .range hi.value lo.value

end BitPosition

/-- What a `#define` line says behind the blank. -/
structure Definition where
  text : Text
  nonempty : text ≠ []
  on_one_line : '\n' ∉ text

def Definition.line (w : Definition) : Text := "\n#define ".toList ++ w.text

structure FieldEntry where
  name : Identifier
  position : BitPosition
  remark : Option Remark
  definitions : List Definition

namespace FieldEntry

variable (macroPrefix : Text) (f : FieldEntry)

def bitsComment : Text :=
  "/* ".toList ++ macroPrefix ++ f.name.text ++ " : R/W ;".toList ++ "bitpos:[".toList ++
    f.position.text ++ [']'] ++ " ;default: 1'b0 ; ".toList ++ "*/".toList

def remarkText : Text :=
  match f.remark with
  | none => []
  | some e => e.text ++ ['.']

def remarkComment : Text :=
  "/*".toList ++ "description:".toList ++ [' '] ++ f.remarkText ++ "*/".toList

/-- The text of a field, which starts by ending the line before it. -/
def text : Text :=
  ['\n'] ++ f.bitsComment macroPrefix ++ ['\n'] ++ f.remarkComment ++
    f.definitions.flatMap Definition.line

def description : Option Text :=
  f.remark.bind fun e =>
    let text := Text.trim (e.text.filter (· ≠ '\n'))
    if text = [] then none else some text

def record (line : Nat) : FieldRecord :=
  ⟨Text.lowercase f.name.text, f.position.bits, f.description, line⟩

def records : Nat → List FieldEntry → List FieldRecord
  | _, [] => []
  | line, f :: rest => f.record (line + 1) :: records (line + (f.text macroPrefix).count '\n') rest

end FieldEntry

/-! ## Registers -/

structure RegisterEntry where
  remark : Option Remark
  name : Identifier
  index : Option Identifier
  furtherSpaces : Nat
  stem : Identifier
  offset : Hexadecimal
  fields : List FieldEntry

namespace RegisterEntry

variable (macroPrefix : Text) (r : RegisterEntry)

def comment : Text :=
  match r.remark with
  | none => []
  | some d => "/*".toList ++ "* ".toList ++ d.text ++ [' '] ++ "*/".toList ++ ['\n']

def argument : Text :=
  match r.index with
  | none => []
  | some i => ['('] ++ i.text ++ [')']

def addressForm : Text :=
  r.name.text ++ "_REG".toList ++ r.argument ++ [' '] ++ List.replicate r.furtherSpaces ' ' ++ ['('] ++
    r.stem.text ++ "_BASE".toList ++ r.argument ++ [' '] ++ ['+'] ++ [' '] ++ "0x".toList ++
    r.offset.digits ++ [')']

def address : Text := "#define ".toList ++ macroPrefix ++ r.addressForm

def text : Text :=
  r.comment ++ r.address macroPrefix ++ r.fields.flatMap (FieldEntry.text macroPrefix)

def description : Option Text :=
  r.remark.bind fun d => if d.isPlain then some d.text else Comment.blockText? d.text

def record (line : Nat) : RegisterRecord where
  name := Text.lowercase r.name.text
  offset := r.offset.value
  description := r.description
  line := line + r.comment.count '\n'
  fields := FieldEntry.records macroPrefix
    (line + r.comment.count '\n' + (r.address macroPrefix).count '\n') r.fields

end RegisterEntry

/-! ## Documents -/

/-- A paragraph that starts like no register. -/
structure Noise where
  text : Text
  no_empty_line : ¬ "\n\n".toList <:+: text
  head?_ne : text.head? ≠ some '\n'
  getLast?_ne : text.getLast? ≠ some '\n'
  nonempty : text ≠ []
  no_comment : ¬ "/*".toList <+: text
  no_define : ¬ "#define ".toList <+: text

inductive Paragraph where
  | noise (n : Noise)
  | register (r : RegisterEntry)

namespace Paragraph

variable (macroPrefix : Text)

def text : Paragraph → Text
  | noise n => n.text
  | register r => r.text macroPrefix

def texts (ps : List Paragraph) : Text :=
  ps.flatMap (fun p => "\n\n".toList ++ p.text macroPrefix) ++ ['\n']

/-- The records of paragraphs, each behind an empty line, after a text that ends on `line`. -/
def records : Nat → List Paragraph → List RegisterRecord
  | _, [] => []
  | line, noise n :: rest => records (line + 2 + n.text.count '\n') rest
  | line, register r :: rest =>
    r.record macroPrefix (line + 2) ::
      records (line + 2 + (r.text macroPrefix).count '\n') rest

end Paragraph

structure Document where
  lead : Text
  no_empty_line : ¬ "\n\n".toList <:+: lead
  getLast?_ne : lead.getLast? ≠ some '\n'
  paragraphs : List Paragraph

namespace Document

variable (macroPrefix : Text) (doc : Document)

def text : Text := doc.lead ++ Paragraph.texts macroPrefix doc.paragraphs

def records : List RegisterRecord :=
  Paragraph.records macroPrefix (doc.lead.count '\n' + 1) doc.paragraphs

end Document

end RegisterMap.Header
