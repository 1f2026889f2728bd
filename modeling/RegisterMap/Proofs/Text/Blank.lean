import Mathlib.Data.List.DropRight
import RegisterMap.Proofs.Text.Scan
import RegisterMap.Text.Blank

/-!
# Blanks around a text

Trimming takes the blanks around a text, and all of them: what it leaves is the
same whatever blanks are put around the text, and is nothing only for a text of
blanks.
-/

namespace RegisterMap.Text

theorem trimEnd_eq_rdropWhile (s : Text) : trimEnd s = s.rdropWhile isBlank := rfl

theorem trim_cons_blank {c : Char} (hc : isBlank c) (s : Text) : trim (c :: s) = trim s := by
  rw [trim, trimStart, List.dropWhile_cons_of_pos hc]
  rfl

theorem trim_concat_blank {c : Char} (hc : isBlank c) (s : Text) : trim (s ++ [c]) = trim s := by
  rw [trim, trim, trimStart, trimStart, List.dropWhile_append]
  by_cases hs : (s.dropWhile isBlank).isEmpty
  · rw [if_pos hs, List.dropWhile_cons_of_pos hc, List.isEmpty_iff.mp hs]
    rfl
  · rw [if_neg hs, trimEnd_eq_rdropWhile, List.rdropWhile_concat_pos isBlank _ c hc]
    rfl

theorem trim_not_blank {s : Text} (h : trim s ≠ []) : ¬ (trim s).all isBlank := by
  intro hall
  rw [trim, trimEnd_eq_rdropWhile] at h hall
  exact List.rdropWhile_last_not isBlank _ h (List.all_eq_true.mp hall _ (List.getLast_mem h))

theorem trim_blanks_append {front : Text} (hfront : front.all isBlank) (s : Text) :
    trim (front ++ s) = trim s := by
  induction front with
  | nil => rfl
  | cons c front ih =>
    rw [List.all_cons, Bool.and_eq_true] at hfront
    rw [List.cons_append, trim_cons_blank hfront.1, ih hfront.2]

theorem trim_append_blanks {behind : Text} (hbehind : behind.all isBlank) (s : Text) :
    trim (s ++ behind) = trim s := by
  induction behind generalizing s with
  | nil => rw [List.append_nil]
  | cons c behind ih =>
    rw [List.all_cons, Bool.and_eq_true] at hbehind
    rw [List.append_cons, ih hbehind.2, trim_concat_blank hbehind.1]

theorem eq_append_trim (s : Text) :
    ∃ front behind, s = front ++ trim s ++ behind ∧ front.all isBlank ∧ behind.all isBlank := by
  refine ⟨s.takeWhile isBlank, (trimStart s).rtakeWhile isBlank, ?_, List.all_takeWhile, ?_⟩
  · rw [trim, trimEnd_eq_rdropWhile, List.append_assoc, List.rdropWhile_append_rtakeWhile, trimStart,
      List.takeWhile_append_dropWhile]
  · exact List.all_eq_true.mpr fun c hc => List.mem_rtakeWhile_imp hc

theorem trim_subset (s : Text) : trim s ⊆ s := by
  obtain ⟨front, behind, hs, -, -⟩ := eq_append_trim s
  intro c hc
  rw [hs]
  simp [hc]

theorem trim_eq_nil_iff {s : Text} : trim s = [] ↔ s.all isBlank := by
  constructor
  · intro h
    obtain ⟨front, behind, hs, hfront, hbehind⟩ := eq_append_trim s
    rw [hs, h, List.append_nil, List.all_append, hfront, hbehind]
    rfl
  · intro h
    rw [← List.append_nil s, trim_blanks_append h]
    rfl

structure Trimmed (s : Text) : Prop where
  head : ∀ c ∈ s.head?, ¬ isBlank c
  last : ∀ c ∈ s.getLast?, ¬ isBlank c

theorem trimmed_trim (s : Text) : Trimmed (trim s) := by
  constructor
  · intro c hc
    obtain ⟨behind, hbehind⟩ := List.rdropWhile_prefix isBlank (trimStart s)
    apply stops_dropWhile isBlank s c
    show (trimStart s).head? = some c
    rw [← hbehind, List.head?_append]
    rw [trim, trimEnd_eq_rdropWhile, Option.mem_def] at hc
    rw [hc]
    rfl
  · intro c hc
    obtain ⟨hne, rfl⟩ := List.mem_getLast?_eq_getLast hc
    exact List.rdropWhile_last_not isBlank (trimStart s) hne

theorem Trimmed.trim_eq {s : Text} (h : Trimmed s) : trim s = s := by
  have hstart : trimStart s = s := by
    cases s with
    | nil => rfl
    | cons c s => exact List.dropWhile_cons_of_neg (h.head c rfl)
  rw [trim, hstart, trimEnd_eq_rdropWhile, List.rdropWhile_eq_self_iff]
  intro hne
  exact h.last _ (List.getLast?_eq_some_getLast hne)

theorem trim_eq_self_iff {s : Text} : trim s = s ↔ Trimmed s :=
  ⟨fun h => h ▸ trimmed_trim s, Trimmed.trim_eq⟩

instance (s : Text) : Decidable (Trimmed s) := decidable_of_iff _ trim_eq_self_iff

theorem Trimmed.append {s t : Text} (hs : Trimmed s) (ht : Trimmed t) (hsne : s ≠ []) (htne : t ≠ [])
    (middle : Text) : Trimmed (s ++ middle ++ t) := by
  constructor
  · rw [List.append_assoc, List.head?_append_of_ne_nil _ hsne]
    exact hs.head
  · rw [List.getLast?_append_of_ne_nil _ htne]
    exact ht.last

end RegisterMap.Text
