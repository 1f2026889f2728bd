import RegisterMap.Text.Visible

/-!
# Quoted texts

A text between double quotes, in which everything that could be misread is
escaped. A single quote stays as it is.
-/

namespace RegisterMap.Text

def quotedChar (c : Char) : Text :=
  if c = '"' || c = '\\' then ['\\', c]
  else if c = '\n' then ['\\', 'n']
  else if c = '\r' then ['\\', 'r']
  else if c = '\t' then ['\\', 't']
  else if c.toNat = 0 then ['\\', '0']
  else if isVisible c then [c]
  else "\\u\x7b".toList ++ Nat.toDigits 16 c.toNat ++ "\x7d".toList

def quoted (s : Text) : Text := '"' :: s.flatMap quotedChar ++ ['"']

end RegisterMap.Text
