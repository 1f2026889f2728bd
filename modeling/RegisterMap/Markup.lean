import RegisterMap.Peripheral

/-!
# Markup

A peripheral as XML: names and numbers are attributes, descriptions are text,
an element without content closes itself.
-/

namespace RegisterMap

namespace Markup

def escapeTextChar : Char → Text
  | '<' => "&lt;".toList
  | '>' => "&gt;".toList
  | '&' => "&amp;".toList
  | c => [c]

def escapeAttributeChar (c : Char) : Text :=
  if c = '"' then "&quot;".toList else escapeTextChar c

def escapeText (s : Text) : Text := s.flatMap escapeTextChar

def escapeAttribute (s : Text) : Text := s.flatMap escapeAttributeChar

def nameValue (name value : Text) : Text :=
  ' ' :: name ++ "=\"".toList ++ escapeAttribute value ++ ['"']

def element (tag attributes content : Text) : Text :=
  if content = [] then '<' :: tag ++ attributes ++ "/>".toList
  else '<' :: tag ++ attributes ++ '>' :: content ++ "</".toList ++ tag ++ ['>']

def remark : Option Description → Text
  | none => []
  | some d => element "description".toList [] (escapeText d.text)

end Markup

open Markup

def Field.markup (f : Field) : Text :=
  element "field".toList
    (nameValue "name".toList f.name ++
      nameValue "bit_offset".toList (Text.decimal f.bitOffset) ++
      nameValue "width".toList (Text.decimal f.width))
    (remark f.description)

def Register.markup (r : Register) : Text :=
  element "register".toList
    (nameValue "name".toList r.name ++
      nameValue "byte_offset".toList (Text.decimal r.byteOffset))
    (remark r.description ++ r.fields.flatMap Field.markup)

def Peripheral.markup (p : Peripheral) : Text :=
  element "peripheral".toList (nameValue "name".toList p.name)
    (remark p.description ++ p.registers.flatMap Register.markup)

end RegisterMap
