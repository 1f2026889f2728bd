import RegisterMap.Layout.Declaration

/-!
# Printed declarations

The text of the declarations of a layout, line by line, and the header file
around it. Every description is a comment line of its own.
-/

namespace RegisterMap

def indent (level : Nat) : Text := List.replicate (4 * level) ' '

def commentLines (level : Nat) : Option Description → List Text
  | none => []
  | some d => [indent level ++ "// ".toList ++ d.text]

def dimension : Option Nat → Text
  | none => []
  | some n => '[' :: Text.decimal n ++ [']']

def BitMember.lines (level : Nat) : BitMember → List Text
  | .filler width => [indent level ++ "uint32_t : ".toList ++ Text.decimal width ++ [';']]
  | .bits comment name width =>
    commentLines level comment ++
      [indent level ++ "uint32_t ".toList ++ name ++ " : ".toList ++ Text.decimal width ++ [';']]

def BitType.lines (t : BitType) : List Text :=
  commentLines 0 t.comment ++ "typedef volatile struct \x7b".toList ::
    t.members.flatMap (·.lines 1) ++ ["\x7d ".toList ++ t.name ++ [';'], []]

def Slot.lines : Slot → List Text
  | .padding index words =>
    [indent 1 ++ "// Padding.".toList,
      indent 1 ++ "volatile uint32_t _padding".toList ++ Text.decimal index ++
        dimension (some words) ++ [';']]
  | .word comment name length =>
    commentLines 1 comment ++
      [indent 1 ++ "volatile uint32_t ".toList ++ name ++ dimension length ++ [';']]
  | .inline comment members =>
    commentLines 1 comment ++ (indent 1 ++ "volatile struct \x7b".toList) ::
      members.flatMap (·.lines 2) ++ [indent 1 ++ "\x7d;".toList]
  | .typed comment type name length =>
    commentLines 1 comment ++ [indent 1 ++ type ++ ' ' :: name ++ dimension length ++ [';']]

def Aggregate.lines (a : Aggregate) : List Text :=
  commentLines 0 a.comment ++ "typedef struct \x7b".toList ::
    a.slots.flatMap Slot.lines ++ ["\x7d ".toList ++ a.name ++ [';'], []]

namespace Layout

def types (l : Layout) : Text := Text.unlines (l.bitTypes.flatMap BitType.lines)

def body (l : Layout) : Text := Text.unlines l.aggregate.lines

def text (l : Layout) : Text := l.types ++ l.body

/-- A header file, which names the source that the layout was made from. -/
def header (l : Layout) (source : Text) : Text :=
  "\n// Generated from ESP-IDF: https://github.com/espressif/esp-idf\n// ".toList ++ source ++
    "\n\n#include <stdint.h>\n\n".toList ++ l.text

end Layout

end RegisterMap
