import RegisterMap.Text.Basic

/-!
# Lines

A line feed ends a line. Other line ends, `\r\n` and a lone `\r`, are made line
feeds first.
-/

namespace RegisterMap.Text

/-- Every `\r\n`, and every `\r` without a line feed behind it, becomes one line feed. -/
def unifyLineEnds : Text → Text
  | [] => []
  | '\r' :: '\n' :: rest => '\n' :: unifyLineEnds rest
  | c :: rest => (if c = '\r' then '\n' else c) :: unifyLineEnds rest

def lines (s : Text) : List Text := s.splitOn '\n'

def skipLineFeed : Text → Text
  | '\n' :: rest => rest
  | s => s

def atLineEnd : Text → Bool
  | '\n' :: _ => true
  | _ => false

theorem skipLineFeed_suffix (s : Text) : skipLineFeed s <:+ s := by
  unfold skipLineFeed
  split
  · exact List.suffix_cons ..
  · exact List.suffix_refl _

end RegisterMap.Text
