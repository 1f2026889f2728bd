import Mathlib
import RegisterMap.Text.Line

/-!
# Lines as C reads them

Before anything else C joins lines: a backslash at the end of a line is taken out
with the line end. So a text is read as it is written if none of its lines ends in
a backslash, and only then.
-/

namespace RegisterMap.Text

def Continues (line : Text) : Prop := line.getLast? = some '\\'

instance (line : Text) : Decidable line.Continues := inferInstanceAs (Decidable (_ = _))

def spliced : Text → Text
  | '\\' :: '\n' :: rest => spliced rest
  | c :: rest => c :: spliced rest
  | [] => []

theorem continues_append {s : Text} (hs : s ≠ []) (front : Text) : Continues (front ++ s) ↔ Continues s := by
  rw [Continues, Continues, List.getLast?_append_of_ne_nil front hs]

theorem not_continues_concat {c : Char} (hc : c ≠ '\\') (s : Text) : ¬ Continues (s ++ [c]) := by
  rw [Continues, List.getLast?_concat, Option.some_inj]
  exact hc

theorem spliced_cons_cons {c d : Char} (hd : d ≠ '\n') (rest : Text) :
    spliced (c :: d :: rest) = c :: spliced (d :: rest) := by
  rw [spliced]
  intro rest' _ heq
  exact hd (List.cons.inj heq).1

theorem spliced_line : ∀ {line : Text}, '\n' ∉ line → ∀ rest, spliced (line ++ '\n' :: rest) =
    if Continues line then line.dropLast ++ spliced rest else line ++ '\n' :: spliced rest
  | [], _, rest => rfl
  | [c], h, rest => by
    by_cases hc : c = '\\'
    · subst hc
      rfl
    · have hline : ¬ Continues [c] := not_continues_concat hc []
      rw [if_neg hline, List.singleton_append, spliced]
      · rfl
      · intro rest' hc' _
        exact hc hc'
  | c :: d :: line, h, rest => by
    have hd : d ≠ '\n' := fun heq => h (by simp [heq])
    have hline : Continues (c :: d :: line) ↔ Continues (d :: line) := continues_append (by simp) [c]
    have hmore : '\n' ∉ d :: line := fun hmem => h (List.mem_cons_of_mem c hmem)
    have ih := spliced_line hmore rest
    rw [List.cons_append, List.cons_append, spliced_cons_cons hd, ← List.cons_append, ih]
    by_cases hcontinues : Continues (d :: line)
    · rw [if_pos hcontinues, if_pos (hline.mpr hcontinues)]
      rfl
    · rw [if_neg hcontinues, if_neg (mt hline.mp hcontinues)]
      rfl

theorem length_spliced_le (s : Text) : (spliced s).length ≤ s.length := by
  fun_induction spliced s with
  | case1 rest ih => exact Nat.le_trans ih (Nat.le_add_right rest.length 2)
  | case2 c rest _ ih => exact Nat.succ_le_succ ih
  | case3 => exact Nat.le_refl _

theorem spliced_unlines_eq_self_iff : ∀ {ls : List Text}, (∀ line ∈ ls, '\n' ∉ line) →
    (spliced (unlines ls) = unlines ls ↔ ∀ line ∈ ls, ¬ Continues line)
  | [], _ => iff_of_true rfl (by simp)
  | line :: ls, h => by
    obtain ⟨hline, hls⟩ := List.forall_mem_cons.mp h
    have hcons : unlines (line :: ls) = line ++ '\n' :: unlines ls := by simp [unlines]
    rw [hcons, spliced_line hline, List.forall_mem_cons, ← spliced_unlines_eq_self_iff hls]
    by_cases hcontinues : Continues line
    · rw [if_pos hcontinues]
      refine iff_of_false (fun heq => ?_) (fun hnot => hnot.1 hcontinues)
      have hlength := congrArg List.length heq
      have hle := length_spliced_le (unlines ls)
      simp only [List.length_append, List.length_dropLast, List.length_cons] at hlength
      omega
    · rw [if_neg hcontinues, List.append_cancel_left_eq, List.cons.injEq]
      simp [hcontinues]

end RegisterMap.Text
