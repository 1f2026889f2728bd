import RegisterMap.Text.Line

/-!
# Line ends

Line ends are unified in two passes: every `\r\n` becomes a line feed, then every
`\r` that is left. A text without carriage returns comes back from both ways to
write its line ends otherwise, with a carriage return in front of any of its line
feeds, and with carriage returns in their place.
-/

namespace RegisterMap.Text

/-- Every `\r\n` becomes a line feed. -/
def joinLineEnds : Text → Text
  | [] => []
  | '\r' :: '\n' :: rest => '\n' :: joinLineEnds rest
  | c :: rest => c :: joinLineEnds rest

def replaceReturns (s : Text) : Text := s.map fun c => if c = '\r' then '\n' else c

theorem unifyLineEnds_eq_replaceReturns (s : Text) : unifyLineEnds s = replaceReturns (joinLineEnds s) := by
  fun_induction unifyLineEnds s with
  | case1 => rfl
  | case2 rest ih =>
    rw [ih]
    rfl
  | case3 c rest hc ih =>
    rw [ih, joinLineEnds]
    · rfl
    · exact hc

theorem return_not_mem_unifyLineEnds (s : Text) : '\r' ∉ unifyLineEnds s := by
  rw [unifyLineEnds_eq_replaceReturns, replaceReturns, List.mem_map]
  rintro ⟨c, -, hc⟩
  by_cases h : c = '\r'
  · simp [h] at hc
  · simp [h] at hc

theorem joinLineEnds_cons {c : Char} (hc : c ≠ '\r') (rest : Text) :
    joinLineEnds (c :: rest) = c :: joinLineEnds rest := by
  rw [joinLineEnds]
  intro rest' heq _
  exact hc heq

theorem joinLineEnds_of_not_mem {s : Text} (h : '\n' ∉ s) : joinLineEnds s = s := by
  fun_induction joinLineEnds s with
  | case1 => rfl
  | case2 rest ih => simp at h
  | case3 c rest _ ih =>
    rw [List.mem_cons, not_or] at h
    rw [ih h.2]

theorem replaceReturns_of_not_mem {s : Text} (h : '\r' ∉ s) : replaceReturns s = s := by
  induction s with
  | nil => rfl
  | cons c s ih =>
    rw [List.mem_cons, not_or] at h
    rw [replaceReturns, List.map_cons, if_neg (Ne.symm h.1)]
    exact congrArg (c :: ·) (ih h.2)

/-! ## Line ends written otherwise -/

/-- The text with a carriage return in front of some line feeds, chosen by their places. -/
def withReturnsFrom (chosen : Nat → Bool) (place : Nat) : Text → Text
  | [] => []
  | c :: rest =>
    (if c = '\n' ∧ chosen place then ['\r', '\n'] else [c]) ++ withReturnsFrom chosen (place + 1) rest

def withReturns (chosen : Nat → Bool) (s : Text) : Text := withReturnsFrom chosen 0 s

def returnsOnly (s : Text) : Text := s.map fun c => if c = '\n' then '\r' else c

section
variable {s : Text} (hs : '\r' ∉ s)
include hs

theorem joinLineEnds_withReturnsFrom (chosen : Nat → Bool) (place : Nat) :
    joinLineEnds (withReturnsFrom chosen place s) = s := by
  induction s generalizing place with
  | nil => rfl
  | cons c s ih =>
    rw [List.mem_cons, not_or] at hs
    rw [withReturnsFrom]
    split
    · rename_i hchosen
      rw [hchosen.1]
      exact congrArg ('\n' :: ·) (ih hs.2 (place + 1))
    · rw [List.singleton_append, joinLineEnds_cons (Ne.symm hs.1), ih hs.2]

theorem unifyLineEnds_of_not_mem : unifyLineEnds s = s := by
  fun_induction unifyLineEnds s with
  | case1 => rfl
  | case2 => simp at hs
  | case3 c rest _ ih =>
    rw [List.mem_cons, not_or] at hs
    rw [if_neg (Ne.symm hs.1), ih hs.2]

theorem unifyLineEnds_withReturns (chosen : Nat → Bool) : unifyLineEnds (withReturns chosen s) = s := by
  rw [unifyLineEnds_eq_replaceReturns, withReturns, joinLineEnds_withReturnsFrom hs, replaceReturns_of_not_mem hs]

theorem replaceReturns_returnsOnly : replaceReturns (returnsOnly s) = s := by
  induction s with
  | nil => rfl
  | cons c s ih =>
    rw [List.mem_cons, not_or] at hs
    have hc : (if (if c = '\n' then '\r' else c) = '\r' then '\n' else if c = '\n' then '\r' else c) = c := by
      by_cases h : c = '\n'
      · simp [h]
      · simp [h, Ne.symm hs.1]
    rw [returnsOnly, List.map_cons, replaceReturns, List.map_cons, hc]
    exact congrArg (c :: ·) (ih hs.2)

/-- There is no line feed left that a carriage return could be joined with. -/
theorem unifyLineEnds_returnsOnly : unifyLineEnds (returnsOnly s) = s := by
  have hfeed : '\n' ∉ returnsOnly s := by
    rw [returnsOnly, List.mem_map]
    rintro ⟨c, -, hc⟩
    by_cases h : c = '\n'
    · simp [h] at hc
    · simp [h] at hc
  rw [unifyLineEnds_eq_replaceReturns, joinLineEnds_of_not_mem hfeed, replaceReturns_returnsOnly hs]

end

end RegisterMap.Text
