import Mathlib
import RegisterMap.Layout.Run

/-!
# Runs are the segments between breaks

The scan takes the longest run at the front and goes on behind it. What it
finds is the list cut at every neighbouring pair of which the first does not
precede the second, and nowhere else.
-/

namespace RegisterMap

theorem runLength_pos (registers : List Register) : 0 < runLength registers :=
  Nat.succ_pos _

theorem runLength_cons_cons (r s : Register) (rest : List Register) :
    runLength (r :: s :: rest) = if r.precedes s then runLength (s :: rest) + 1 else 1 := by
  unfold runLength
  rw [List.tail_cons, List.zip_cons_cons, List.takeWhile_cons]
  by_cases h : r.precedes s
  · simp [h]
  · simp [h]

theorem take_runLength_cons (r : Register) (rest : List Register) :
    (r :: rest).take (runLength (r :: rest)) = r :: rest.take (runLength (r :: rest) - 1) :=
  List.take_cons (runLength_pos _)

theorem isChain_take_runLength : ∀ registers : List Register,
    (registers.take (runLength registers)).IsChain (·.precedes ·)
  | [] => by simp
  | [r] => by simp [runLength]
  | r :: s :: rest => by
    have ih := isChain_take_runLength (s :: rest)
    rw [runLength_cons_cons]
    by_cases h : r.precedes s
    · rw [if_pos h, List.take_succ_cons]
      rw [take_runLength_cons] at ih ⊢
      exact List.isChain_cons_cons.mpr ⟨h, ih⟩
    · simp [h]

/-- The run at the front cannot be made longer. -/
theorem not_precedes_behind_runLength : ∀ registers : List Register,
    ∀ r ∈ (registers.take (runLength registers)).getLast?,
      ∀ s ∈ (registers.drop (runLength registers)).head?, ¬ r.precedes s
  | [] => by simp
  | [r] => by simp [runLength]
  | r :: s :: rest => by
    have ih := not_precedes_behind_runLength (s :: rest)
    rw [runLength_cons_cons]
    by_cases h : r.precedes s
    · rw [if_pos h, List.take_succ_cons, List.drop_succ_cons]
      rw [take_runLength_cons] at ih ⊢
      rwa [List.getLast?_cons_cons]
    · simp [h]

theorem runs_nil : runs [] = [] := by
  rw [runs]

theorem runs_cons (r : Register) (rest : List Register) :
    runs (r :: rest) =
      ⟨r, rest.take (runLength (r :: rest) - 1)⟩ :: runs ((r :: rest).drop (runLength (r :: rest))) := by
  rw [runs]

/-- **Runs are segments.** -/
theorem registers_runs (registers : List Register) :
    (runs registers).map Run.registers = registers.splitBy Register.precedes := by
  induction h : registers.length using Nat.strongRecOn generalizing registers with
  | ind n ih =>
    subst h
    cases registers with
    | nil => rw [runs_nil, List.map_nil, List.splitBy_nil]
    | cons r rest =>
      let front := (r :: rest).take (runLength (r :: rest))
      let behind := (r :: rest).drop (runLength (r :: rest))
      have hpos := runLength_pos (r :: rest)
      have hbehind : (runs behind).map Run.registers = behind.splitBy Register.precedes :=
        ih behind.length (by simp only [behind, List.length_drop, List.length_cons]; omega) behind rfl
      have hfront : front.splitBy Register.precedes = [front] :=
        List.splitBy_of_isChain (by simp [front, hpos.ne']) (isChain_take_runLength _)
      have hcut : (front ++ behind).splitBy Register.precedes =
          front.splitBy Register.precedes ++ behind.splitBy Register.precedes :=
        List.splitBy_append fun a ha b hb => by
          simpa using not_precedes_behind_runLength (r :: rest) a ha b hb
      rw [List.take_append_drop, hfront] at hcut
      rw [runs_cons, List.map_cons, hbehind, hcut, List.singleton_append]
      exact congrArg (· :: _) (take_runLength_cons r rest).symm

theorem flatMap_registers_runs (registers : List Register) :
    (runs registers).flatMap Run.registers = registers := by
  rw [List.flatMap_def, registers_runs, List.flatten_splitBy]

theorem isChain_registers_of_mem_runs {registers : List Register} {run : Run}
    (h : run ∈ runs registers) : run.registers.IsChain (·.precedes ·) := by
  apply List.isChain_of_mem_splitBy
  rw [← registers_runs]
  exact List.mem_map_of_mem h

end RegisterMap
