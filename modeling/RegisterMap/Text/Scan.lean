import RegisterMap.Text.Basic

/-!
# Scanning

Reading a mark, or the text up to a mark, from the front of a text. What is
read and what is left make up the text again.
-/

namespace RegisterMap.Text

def after? : Text → Text → Option Text
  | [], s => some s
  | _ :: _, [] => none
  | c :: mark, d :: s => if c = d then after? mark s else none

theorem after?_eq_some_iff {mark s rest : Text} : after? mark s = some rest ↔ s = mark ++ rest := by
  fun_induction after? mark s with
  | case1 => simp
  | case2 => simp
  | case3 _ _ _ ih => simp [ih]
  | case4 _ _ _ _ h => simp [Ne.symm h]

theorem after?_suffix {mark s rest : Text} (h : after? mark s = some rest) : rest <:+ s :=
  ⟨mark, (after?_eq_some_iff.1 h).symm⟩

/-- The text behind `mark`, or the whole text if it does not start with it. -/
def dropMark (mark s : Text) : Text := (after? mark s).getD s

theorem dropMark_suffix (mark s : Text) : dropMark mark s <:+ s := by
  unfold dropMark
  cases h : after? mark s with
  | none => exact List.suffix_refl _
  | some rest => exact after?_suffix h

/-- As `until?`, with the text already passed, its last character first. -/
def untilFrom? (mark passed : Text) : Text → Option (Text × Text)
  | [] => if mark = [] then some (passed.reverse, []) else none
  | c :: rest =>
    match after? mark (c :: rest) with
    | some behind => some (passed.reverse, behind)
    | none => untilFrom? mark (c :: passed) rest

/-- The text before the first `mark`, and the text behind that mark. -/
def until? (mark s : Text) : Option (Text × Text) := untilFrom? mark [] s

theorem untilFrom?_eq (mark passed s : Text) :
    untilFrom? mark passed s =
      (until? mark s).map fun (before, behind) => (passed.reverse ++ before, behind) := by
  unfold until?
  induction s generalizing passed with
  | nil => by_cases h : mark = [] <;> simp [untilFrom?, h]
  | cons c rest ih =>
    unfold untilFrom?
    split
    · simp
    · rw [ih (c :: passed), ih [c], Option.map_map]
      congr 1
      funext ⟨before, behind⟩
      simp

theorem until?_nil {mark : Text} (h : mark ≠ []) : until? mark [] = none := by
  simp [until?, untilFrom?, h]

theorem until?_cons (mark : Text) (c : Char) (rest : Text) :
    until? mark (c :: rest) =
      match after? mark (c :: rest) with
      | some behind => some ([], behind)
      | none => (until? mark rest).map fun (before, behind) => (c :: before, behind) := by
  conv => lhs; unfold until? untilFrom?
  split <;> simp [untilFrom?_eq]

theorem eq_append_of_until? {mark s before behind : Text}
    (h : until? mark s = some (before, behind)) : s = before ++ mark ++ behind := by
  induction s generalizing before with
  | nil =>
    simp only [until?, untilFrom?] at h
    split at h
    · cases h
      simpa using Eq.symm ‹mark = []›
    · cases h
  | cons c rest ih =>
    rw [until?_cons] at h
    split at h
    · rename_i hafter
      cases h
      exact after?_eq_some_iff.1 hafter
    · obtain ⟨⟨before', _⟩, h', heq⟩ := Option.map_eq_some_iff.1 h
      cases heq
      exact congrArg (c :: ·) (ih h')

theorem until?_suffix {mark s before behind : Text} (h : until? mark s = some (before, behind)) :
    behind <:+ s :=
  ⟨before ++ mark, (eq_append_of_until? h).symm⟩

theorem length_lt_of_until? {mark s before rest : Text} (hmark : mark ≠ [])
    (h : until? mark s = some (before, rest)) : rest.length < s.length := by
  have := List.length_pos_iff.2 hmark
  rw [eq_append_of_until? h]
  simp
  omega

/-- The text behind the first `mark`, if something stands before it and all of it on this line. -/
def skipTo? (mark s : Text) : Option Text :=
  match until? mark s with
  | some (before, rest) => if before ≠ [] ∧ '\n' ∉ before then some rest else none
  | none => none

theorem skipTo?_suffix {mark s rest : Text} (h : skipTo? mark s = some rest) : rest <:+ s := by
  unfold skipTo? at h
  split at h
  · rename_i before after heq
    split at h
    · cases h
      exact until?_suffix heq
    · cases h
  · cases h

end RegisterMap.Text
