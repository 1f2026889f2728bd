import Mathlib.Data.List.Infix
import RegisterMap.Text.Line
import RegisterMap.Text.Scan

/-!
# Scanning what was written

A mark that was written is read again, and reading up to a mark stops where
it was written, provided that it does not stand any earlier.
-/

namespace RegisterMap.Text

theorem after?_append (mark rest : Text) : after? mark (mark ++ rest) = some rest :=
  after?_eq_some_iff.mpr rfl

theorem dropMark_append (mark rest : Text) : dropMark mark (mark ++ rest) = rest := by
  rw [dropMark, after?_append, Option.getD_some]

theorem after?_append_cons {c : Char} : ∀ {mark : Text} (s rest : Text), c ∉ mark →
    after? mark (s ++ c :: rest) = (after? mark s).map (· ++ c :: rest)
  | [], _, _, _ => rfl
  | m :: mark, [], rest, h => by
    have hne : m ≠ c := fun heq => h (by simp [heq])
    rw [List.nil_append]
    exact if_neg hne
  | m :: mark, d :: s, rest, h => by
    rw [List.cons_append, after?, after?]
    by_cases hd : m = d
    · rw [if_pos hd, if_pos hd, after?_append_cons s rest fun hmem => h (List.mem_cons_of_mem m hmem)]
    · rw [if_neg hd, if_neg hd]
      rfl

/-- Whether a mark is dropped is decided in front of a character that the mark does not have. -/
theorem dropMark_append_cons {c : Char} {mark : Text} (h : c ∉ mark) (s rest : Text) :
    dropMark mark (s ++ c :: rest) = dropMark mark s ++ c :: rest := by
  rw [dropMark, dropMark, after?_append_cons s rest h]
  cases after? mark s with
  | none => rfl
  | some found => rfl

theorem after?_eq_none_iff {mark s : Text} : after? mark s = none ↔ ¬ mark <+: s := by
  rw [Option.eq_none_iff_forall_ne_some]
  constructor
  · rintro h ⟨rest, rfl⟩
    exact h rest (after?_append mark rest)
  · intro h rest hrest
    exact h ⟨rest, (after?_eq_some_iff.mp hrest).symm⟩

theorem after?_eq_none_of_line {mark s : Text} (hmark : '\n' ∉ mark) (h : ¬ mark <+: s) (rest : Text) :
    after? mark (s ++ '\n' :: rest) = none := by
  rw [after?_eq_none_iff]
  intro hfront
  have hline : s ++ ['\n'] <+: s ++ '\n' :: rest := ⟨rest, by simp⟩
  rcases List.prefix_or_prefix_of_prefix hfront hline with hmark' | hmark'
  · rcases List.prefix_concat_iff.mp hmark' with rfl | hs
    · exact hmark (by simp)
    · exact h hs
  · exact hmark (hmark'.subset (by simp))

theorem not_infix_dropLast {mark : Text} (hmark : mark ≠ []) : ¬ mark <:+: [] ++ mark.dropLast := by
  intro h
  have hlength := h.length_le
  have hpos := List.length_pos_iff.mpr hmark
  rw [List.nil_append, List.length_dropLast] at hlength
  omega

theorem until?_append {mark : Text} (hmark : mark ≠ []) : ∀ {before : Text} (rest : Text),
    ¬ mark <:+: before ++ mark.dropLast → until? mark (before ++ (mark ++ rest)) = some (before, rest)
  | [], rest, _ => by
    obtain ⟨c, mark, rfl⟩ := List.exists_cons_of_ne_nil hmark
    rw [List.nil_append, List.cons_append, until?_cons, ← List.cons_append, after?_append]
  | c :: before, rest, h => by
    have hbefore : ¬ mark <:+: before ++ mark.dropLast := fun hfound =>
      h (hfound.trans (List.suffix_cons c _).isInfix)
    have hnone : after? mark (c :: before ++ (mark ++ rest)) = none := by
      rw [after?_eq_none_iff]
      intro hfront
      have hend : c :: before ++ mark.dropLast <+: c :: before ++ (mark ++ rest) :=
        (List.prefix_append_right_inj _).mpr ((List.dropLast_prefix mark).trans (List.prefix_append ..))
      refine h (List.prefix_of_prefix_length_le hfront hend ?_).isInfix
      simp only [List.length_append, List.length_cons, List.length_dropLast]
      omega
    rw [List.cons_append] at hnone ⊢
    rw [until?_cons, hnone, until?_append hmark rest hbefore]
    rfl

theorem infix_of_until? {mark s before behind : Text} (h : until? mark s = some (before, behind)) :
    before <:+: s := by
  rw [eq_append_of_until? h, List.append_assoc]
  exact (List.prefix_append ..).isInfix

theorem prefix_of_until? {mark : Text} (hmark : mark ≠ []) {before behind rest : Text} : ∀ {x : Text},
    until? mark (x ++ (mark ++ rest)) = some (before, behind) → before <+: x
  | [], h => by
    have hread : until? mark ([] ++ (mark ++ rest)) = some ([], rest) :=
      until?_append hmark rest (not_infix_dropLast hmark)
    rw [hread] at h
    cases h
    exact List.nil_prefix
  | c :: x, h => by
    rw [List.cons_append, until?_cons] at h
    split at h
    · cases h
      exact List.nil_prefix
    · obtain ⟨⟨before', behind'⟩, hread, heq⟩ := Option.map_eq_some_iff.mp h
      cases heq
      exact (List.prefix_cons_inj c).mpr (prefix_of_until? hmark hread)

theorem until?_eq_none {mark : Text} (hmark : mark ≠ []) : ∀ {s : Text}, ¬ mark <:+: s →
    until? mark s = none
  | [], _ => until?_nil hmark
  | c :: rest, h => by
    rw [List.infix_cons_iff, not_or] at h
    rw [until?_cons, after?_eq_none_iff.mpr h.1, until?_eq_none hmark h.2]
    rfl

theorem skipTo?_append {mark before : Text} (hmark : mark ≠ []) (rest : Text) (hbefore : before ≠ [])
    (hline : '\n' ∉ before) (h : ¬ mark <:+: before ++ mark.dropLast) :
    skipTo? mark (before ++ (mark ++ rest)) = some rest := by
  rw [skipTo?, until?_append hmark rest h]
  exact if_pos ⟨hbefore, hline⟩

theorem eq_append_of_skipTo? {mark s rest : Text} (h : skipTo? mark s = some rest) :
    ∃ before, s = before ++ mark ++ rest ∧ '\n' ∉ before := by
  unfold skipTo? at h
  split at h
  · rename_i before behind huntil
    split at h
    · rename_i hbefore
      cases h
      exact ⟨before, eq_append_of_until? huntil, hbefore.2⟩
    · cases h
  · cases h

/-- A run of characters does not go on into `rest`. -/
def Stops (p : Char → Bool) (rest : Text) : Prop := ∀ c ∈ rest.head?, ¬ p c

theorem stops_cons {p : Char → Bool} {c : Char} (hc : ¬ p c) (rest : Text) : Stops p (c :: rest) := by
  intro d hd
  obtain rfl : c = d := Option.some_inj.mp hd
  exact hc

theorem stops_dropWhile (p : Char → Bool) (s : Text) : Stops p (s.dropWhile p) := by
  intro c hc
  have hnot := List.head?_dropWhile_not p s
  rw [hc] at hnot
  simp [hnot]

theorem Stops.append {p : Char → Bool} {s : Text} (h : Stops p s) (hs : s ≠ []) (rest : Text) :
    Stops p (s ++ rest) := by
  intro c hc
  rw [List.head?_append_of_ne_nil s hs] at hc
  exact h c hc

section
variable {p : Char → Bool} {run rest : Text} (hrun : run.all p) (hrest : Stops p rest)
include hrun hrest

theorem takeWhile_append_of_stops : (run ++ rest).takeWhile p = run := by
  rw [List.takeWhile_append_of_pos (List.all_eq_true.mp hrun)]
  cases rest with
  | nil => rw [List.takeWhile_nil, List.append_nil]
  | cons c rest => rw [List.takeWhile_cons_of_neg (hrest c rfl), List.append_nil]

theorem dropWhile_append_of_stops : (run ++ rest).dropWhile p = rest := by
  rw [List.dropWhile_append_of_pos (List.all_eq_true.mp hrun)]
  cases rest with
  | nil => rfl
  | cons c rest => exact List.dropWhile_cons_of_neg (hrest c rfl)

end

theorem not_infix_concat {a b c : Char} {s : Text} (hc : c ≠ b) (h : ¬ [a, b] <:+: s) :
    ¬ [a, b] <:+: s ++ [c] := by
  rw [List.infix_concat_iff, not_or]
  refine ⟨?_, h⟩
  rintro ⟨t, ht⟩
  have hlast := congrArg List.getLast? ht
  simp only [List.getLast?_append, List.getLast?_singleton, List.getLast?_cons_cons,
    Option.some_or, Option.some_inj] at hlast
  exact hc hlast.symm

theorem not_infix_cons {a b c : Char} {s : Text} (hc : c ≠ a) (h : ¬ [a, b] <:+: s) :
    ¬ [a, b] <:+: c :: s := by
  rw [List.infix_cons_iff, not_or, List.cons_prefix_cons]
  exact ⟨fun hfront => hc hfront.1.symm, h⟩

theorem not_infix_append {a b : Char} {front s : Text} (hfront : a ∉ front) (h : ¬ [a, b] <:+: s) :
    ¬ [a, b] <:+: front ++ s := by
  induction front with
  | nil => exact h
  | cons c front ih =>
    rw [List.mem_cons, not_or] at hfront
    exact not_infix_cons (Ne.symm hfront.1) (ih hfront.2)

theorem not_infix_concat_of_getLast?_ne {a b c : Char} {s : Text} (hs : s.getLast? ≠ some a)
    (h : ¬ [a, b] <:+: s) : ¬ [a, b] <:+: s ++ [c] := by
  rw [List.infix_concat_iff, not_or]
  refine ⟨?_, h⟩
  rintro ⟨t, ht⟩
  have hinit : t ++ [a] = s := by
    have hdrop := congrArg List.dropLast ht
    rwa [List.dropLast_concat, List.dropLast_append_of_ne_nil (List.cons_ne_nil a [b])] at hdrop
  rw [← hinit, List.getLast?_concat] at hs
  exact hs rfl

end RegisterMap.Text
