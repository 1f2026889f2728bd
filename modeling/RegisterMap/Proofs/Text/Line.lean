import Mathlib
import RegisterMap.Text.Line

/-!
# Lines of a text

Line feeds cut a text into lines, one more than there are line feeds. What
stands above a line feed does not change the lines below it, so a place behind
a line feed starts the line that is counted there.
-/

namespace RegisterMap.Text

theorem lines_cons (c : Char) (s : Text) :
    lines (c :: s) = if c = '\n' then [] :: lines s else (lines s).modifyHead (c :: ·) := by
  simp only [lines, List.splitOn_cons_eq_if_modifyHead, beq_iff_eq]

theorem lines_append_lineFeed (s rest : Text) : lines (s ++ '\n' :: rest) = lines s ++ lines rest :=
  List.splitOn_append_cons_self s rest

theorem lines_of_not_mem {s : Text} (h : '\n' ∉ s) : lines s = [s] :=
  List.splitOn_eq_singleton h

theorem lineFeed_not_mem_of_mem_lines {s line : Text} (h : line ∈ lines s) : '\n' ∉ line := by
  induction s generalizing line with
  | nil =>
    rw [List.mem_singleton.mp h]
    exact List.not_mem_nil
  | cons c s ih =>
    rw [lines_cons] at h
    split at h
    · rcases List.mem_cons.mp h with rfl | h
      · exact List.not_mem_nil
      · exact ih h
    · rename_i hc
      cases hs : lines s with
      | nil => simp [hs] at h
      | cons first others =>
        rw [hs, List.modifyHead_cons] at h
        rcases List.mem_cons.mp h with rfl | h
        · have hfirst : '\n' ∉ first := ih (hs ▸ List.mem_cons_self ..)
          simp [hfirst, Ne.symm hc]
        · exact ih (hs ▸ List.mem_cons_of_mem first h)

theorem subset_intercalate (sep : Text) : ∀ {ls : List Text} {line : Text}, line ∈ ls → line ⊆ sep.intercalate ls
  | [only], line, h => by
    rw [List.mem_singleton.mp h, List.intercalate_singleton]
    exact List.Subset.refl only
  | first :: next :: ls, line, h => by
    rw [List.intercalate_cons_cons]
    rcases List.mem_cons.mp h with rfl | h
    · rw [List.append_assoc]
      exact List.subset_append_left _ _
    · exact List.Subset.trans (subset_intercalate sep h) (List.subset_append_right _ _)

theorem subset_of_mem_lines {s line : Text} (h : line ∈ lines s) : line ⊆ s := by
  have hsubset := subset_intercalate ['\n'] h
  rwa [lines, List.intercalate_splitOn] at hsubset

theorem lines_intercalate {ls : List Text} (h : ∀ line ∈ ls, '\n' ∉ line) (hne : ls ≠ []) :
    lines (['\n'].intercalate ls) = ls :=
  List.splitOn_intercalate '\n' h hne

theorem length_lines (s : Text) : (lines s).length = s.count '\n' + 1 := by
  induction s with
  | nil => rfl
  | cons c s ih =>
    rw [lines_cons]
    by_cases hc : c = '\n'
    · simp [hc, ih]
    · simp [hc, ih]

theorem lines_append_of_not_mem {ending : Text} (hending : '\n' ∉ ending) (s : Text) :
    ∃ front last, lines (s ++ ending) = front ++ [last ++ ending] := by
  induction s with
  | nil => exact ⟨[], [], lines_of_not_mem hending⟩
  | cons c s ih =>
    obtain ⟨front, last, hs⟩ := ih
    rw [List.cons_append, lines_cons, hs]
    by_cases hc : c = '\n'
    · exact ⟨[] :: front, last, by simp [hc]⟩
    · cases front with
      | nil => exact ⟨[], c :: last, by simp [hc]⟩
      | cons line front => exact ⟨(c :: line) :: front, last, by simp [hc]⟩

theorem lines_unlines (ls : List Text) : lines (unlines ls) = ls.flatMap lines ++ [[]] := by
  induction ls with
  | nil => rfl
  | cons line ls ih =>
    have hcons : unlines (line :: ls) = line ++ '\n' :: unlines ls := by simp [unlines]
    rw [hcons, lines_append_lineFeed, ih, List.flatMap_cons, List.append_assoc]

theorem lines_unlines_of_not_mem {ls : List Text} (h : ∀ line ∈ ls, '\n' ∉ line) :
    lines (unlines ls) = ls ++ [[]] := by
  have hsingle : ls.flatMap lines = ls.flatMap ([·]) :=
    List.flatMap_congr fun line hline => lines_of_not_mem (h line hline)
  rw [lines_unlines, hsingle, List.flatMap_singleton']

/-! ## Lines by their numbers -/

def firstLine (s : Text) : Text := s.takeWhile (· ≠ '\n')

theorem firstLine_append {front : Text} (h : '\n' ∉ front) (rest : Text) :
    firstLine (front ++ rest) = front ++ firstLine rest := by
  apply List.takeWhile_append_of_pos
  intro c hc
  apply decide_eq_true
  intro hfeed
  exact h (hfeed ▸ hc)

theorem eq_of_append_lineFeed {s t rest rest' : Text} (hs : '\n' ∉ s) (ht : '\n' ∉ t)
    (h : s ++ '\n' :: rest = t ++ '\n' :: rest') : s = t := by
  have hfirst := congrArg firstLine h
  rw [firstLine_append hs, firstLine_append ht] at hfirst
  exact List.append_cancel_right (show s ++ [] = t ++ [] from hfirst)

theorem firstLine_dropWhile (s : Text) : firstLine (s.dropWhile (· ≠ '\n')) = [] := by
  induction s with
  | nil => rfl
  | cons c s ih =>
    by_cases hc : c = '\n'
    · simp [firstLine, hc]
    · rwa [List.dropWhile_cons_of_pos (by simpa using hc)]

theorem eq_of_firstLine_eq_nil {s : Text} (h : firstLine s = []) : s = [] ∨ ∃ rest, s = '\n' :: rest := by
  cases s with
  | nil => exact .inl rfl
  | cons c rest =>
    by_cases hc : c = '\n'
    · exact .inr ⟨rest, by rw [hc]⟩
    · simp [firstLine, hc] at h

theorem lineFeed_not_mem_firstLine (s : Text) : '\n' ∉ firstLine s := fun h => by
  simpa using List.mem_takeWhile_imp h

theorem eq_firstLine_append {s : Text} (h : '\n' ∈ s) : ∃ rest, s = firstLine s ++ '\n' :: rest := by
  have hs : s = firstLine s ++ s.dropWhile (· ≠ '\n') := List.takeWhile_append_dropWhile.symm
  rcases eq_of_firstLine_eq_nil (firstLine_dropWhile s) with hdrop | ⟨rest, hdrop⟩
  · rw [hs, hdrop, List.append_nil] at h
    exact absurd h (lineFeed_not_mem_firstLine s)
  · exact ⟨rest, hdrop ▸ hs⟩

theorem skipLineFeed_eq_or (s : Text) : skipLineFeed s = s ∨ '\n' :: skipLineFeed s = s := by
  unfold skipLineFeed
  split
  · exact .inr rfl
  · exact .inl rfl

def line? (text : Text) : Nat → Option Text
  | 0 => none
  | n + 1 => text.lines[n]?

theorem getElem?_lines_zero (s : Text) : (lines s)[0]? = some (firstLine s) := by
  induction s with
  | nil => rfl
  | cons c s ih =>
    rw [lines_cons, firstLine, List.takeWhile_cons]
    by_cases hc : c = '\n'
    · simp [hc]
    · simp [hc, ih, firstLine]

theorem line?_below (above rest : Text) :
    (above ++ '\n' :: rest).line? (above.count '\n' + 2) = some (firstLine rest) := by
  have hlength := length_lines above
  rw [line?, lines_append_lineFeed, List.getElem?_append_right (by omega), hlength, Nat.sub_self,
    getElem?_lines_zero]

theorem line?_above {above rest last : Text} {front : List Text} (h : lines above = front ++ [last]) :
    (above ++ '\n' :: rest).line? (above.count '\n' + 1) = some last := by
  have hlength := length_lines above
  rw [h, List.length_append, List.length_singleton, Nat.add_right_cancel_iff] at hlength
  rw [line?, lines_append_lineFeed, h, ← hlength]
  simp

theorem line?_above_of_suffix {above ending : Text} (hending : '\n' ∉ ending) (h : ending <:+ above)
    (rest : Text) : ∃ line, (above ++ '\n' :: rest).line? (above.count '\n' + 1) = some line ∧
      ending <:+ line := by
  obtain ⟨s, rfl⟩ := h
  obtain ⟨front, last, hlines⟩ := lines_append_of_not_mem hending s
  exact ⟨last ++ ending, line?_above hlines, List.suffix_append ..⟩

theorem line?_above_of_lineFeed {above : Text} (h : ['\n'] <:+ above) (rest : Text) :
    (above ++ '\n' :: rest).line? (above.count '\n' + 1) = some [] := by
  obtain ⟨s, rfl⟩ := h
  exact line?_above (lines_append_lineFeed s [])

end RegisterMap.Text
