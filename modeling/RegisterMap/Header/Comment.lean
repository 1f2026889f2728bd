import RegisterMap.Text.Blank
import RegisterMap.Text.Line

/-!
# Comment bodies

The descriptions that comment bodies hold, freed of their decoration.
-/

namespace RegisterMap.Header.Comment

/-- A line of a block comment without its stars and the blanks around them. -/
def undecorated (line : Text) : Text :=
  Text.trim ((Text.trim line).dropWhile (· = '*'))

/-- The description in a block comment: its lines undecorated, the empty ones
left out, joined by spaces. -/
def blockText? (body : Text) : Option Text :=
  match (body.lines.map undecorated).filter (· ≠ []) with
  | [] => none
  | lines => some ([' '].intercalate lines)

def dropFullStop (s : Text) : Text := if s.getLast? = some '.' then s.dropLast else s

def fieldText? (body : Text) : Option Text :=
  let text := Text.trim (dropFullStop (Text.trimEnd (body.filter (· ≠ '\n'))))
  if text = [] then none else some text

end RegisterMap.Header.Comment
