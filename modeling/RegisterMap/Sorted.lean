/-!
# Insertion by key

A new element comes after every element whose key is not larger, so equal keys
keep the order of insertion.
-/

namespace RegisterMap

def insertByKey (key : α → Nat) (a : α) : List α → List α
  | [] => [a]
  | b :: bs => if key b ≤ key a then b :: insertByKey key a bs else a :: b :: bs

theorem insertByKey_perm (key : α → Nat) (a : α) (xs : List α) :
    (insertByKey key a xs).Perm (a :: xs) := by
  induction xs with
  | nil => exact .refl _
  | cons b bs ih =>
    unfold insertByKey
    split
    · exact (ih.cons b).trans (.swap ..)
    · exact .refl _

theorem mem_insertByKey {key : α → Nat} {a x : α} {xs : List α} :
    x ∈ insertByKey key a xs ↔ x = a ∨ x ∈ xs := by
  rw [(insertByKey_perm key a xs).mem_iff, List.mem_cons]

theorem insertByKey_sorted {key : α → Nat} (a : α) {xs : List α}
    (h : xs.Pairwise (key · ≤ key ·)) : (insertByKey key a xs).Pairwise (key · ≤ key ·) := by
  induction xs with
  | nil => simp [insertByKey]
  | cons b bs ih =>
    obtain ⟨hb, hbs⟩ := List.pairwise_cons.1 h
    unfold insertByKey
    split
    · rename_i hle
      refine List.pairwise_cons.2 ⟨fun x hx => ?_, ih hbs⟩
      rcases mem_insertByKey.1 hx with rfl | hx
      · exact hle
      · exact hb x hx
    · rename_i hlt
      refine List.pairwise_cons.2 ⟨fun x hx => ?_, h⟩
      rcases List.mem_cons.1 hx with rfl | hx
      · omega
      · have := hb x hx
        omega

end RegisterMap
