import Mathlib
import RegisterMap.Peripheral

/-!
# Insertion keeps a stable sort

A list that was filled by insertion is the stable sort of what was inserted, in
the order of insertion. A sorted list is known from its elements of each key in
their order, so it is enough to follow these through one insertion. In a sorted
list, the place of insertion is any index that parts it.
-/

namespace RegisterMap

section
variable {α : Type} {key : α → Nat}

def sortByKey (key : α → Nat) (xs : List α) : List α := xs.mergeSort (key · ≤ key ·)

theorem sortByKey_perm (key : α → Nat) (xs : List α) : (sortByKey key xs).Perm xs :=
  List.mergeSort_perm ..

theorem key_le_trans (a b c : α) (hab : decide (key a ≤ key b)) (hbc : decide (key b ≤ key c)) :
    decide (key a ≤ key c) :=
  decide_eq_true (Nat.le_trans (of_decide_eq_true hab) (of_decide_eq_true hbc))

theorem key_le_total (a b : α) : decide (key a ≤ key b) || decide (key b ≤ key a) := by
  simpa using Nat.le_total (key a) (key b)

theorem sortByKey_sorted (key : α → Nat) (xs : List α) :
    (sortByKey key xs).Pairwise (key · ≤ key ·) :=
  (List.pairwise_mergeSort key_le_trans key_le_total xs).imp of_decide_eq_true

theorem sortByKey_of_sorted {xs : List α} (h : xs.Pairwise (key · ≤ key ·)) :
    sortByKey key xs = xs :=
  List.mergeSort_of_pairwise (h.imp decide_eq_true)

theorem filter_sortByKey (k : Nat) (xs : List α) :
    (sortByKey key xs).filter (key · = k) = xs.filter (key · = k) := by
  have hlength := ((sortByKey_perm key xs).filter (key · = k)).length_eq
  have hsame : (xs.filter (key · = k)).Pairwise fun a b => decide (key a ≤ key b) := by
    apply List.pairwise_of_forall_mem_list
    intro a ha b hb
    have hak := of_decide_eq_true (List.mem_filter.mp ha).2
    have hbk := of_decide_eq_true (List.mem_filter.mp hb).2
    exact decide_eq_true (by omega)
  have hsub := (List.sublist_mergeSort key_le_trans key_le_total hsame List.filter_sublist).filter
    (key · = k)
  rw [List.filter_filter] at hsub
  simp only [Bool.and_self] at hsub
  exact (hsub.eq_of_length hlength.symm).symm

/-- The new element comes last among those of its key. -/
theorem filter_insertByKey (k : Nat) (a : α) : ∀ {xs : List α}, xs.Pairwise (key · ≤ key ·) →
    (insertByKey key a xs).filter (key · = k) =
      xs.filter (key · = k) ++ if key a = k then [a] else []
  | [], _ => by
    rw [insertByKey, List.filter_cons]
    simp only [decide_eq_true_eq, List.filter_nil, List.nil_append]
  | b :: bs, h => by
    obtain ⟨hb, hbs⟩ := List.pairwise_cons.mp h
    rw [insertByKey]
    split
    · rw [List.filter_cons, filter_insertByKey k a hbs, List.filter_cons]
      split <;> rfl
    · rename_i hlt
      by_cases hk : key a = k
      · have hnone : (b :: bs).filter (key · = k) = [] := by
          refine List.filter_eq_nil_iff.mpr fun x hx => ?_
          have hbx : key b ≤ key x := by
            rcases List.mem_cons.mp hx with rfl | hx
            · exact Nat.le_refl _
            · exact hb x hx
          simp only [decide_eq_true_eq]
          omega
        rw [List.filter_cons_of_pos (by simpa using hk), hnone, if_pos hk]
        rfl
      · rw [List.filter_cons_of_neg (by simpa using hk), if_neg hk, List.append_nil]

theorem mem_of_filter_eq {xs ys : List α}
    (h : ∀ k, xs.filter (key · = k) = ys.filter (key · = k)) {a : α} (ha : a ∈ xs) : a ∈ ys := by
  have hmem : a ∈ xs.filter (key · = key a) := List.mem_filter.mpr ⟨ha, decide_eq_true rfl⟩
  rw [h] at hmem
  exact (List.mem_filter.mp hmem).1

theorem eq_of_filter_eq : ∀ {xs ys : List α}, xs.Pairwise (key · ≤ key ·) →
    ys.Pairwise (key · ≤ key ·) → (∀ k, xs.filter (key · = k) = ys.filter (key · = k)) → xs = ys
  | [], [], _, _, _ => rfl
  | [], b :: ys, _, _, h => by cases mem_of_filter_eq (fun k => (h k).symm) (List.mem_cons_self ..)
  | a :: xs, [], _, _, h => by cases mem_of_filter_eq h (List.mem_cons_self ..)
  | a :: xs, b :: ys, hx, hy, h => by
    obtain ⟨ha, hxs⟩ := List.pairwise_cons.mp hx
    obtain ⟨hb, hys⟩ := List.pairwise_cons.mp hy
    have hkey : key a = key b := by
      apply Nat.le_antisymm
      · rcases List.mem_cons.mp (mem_of_filter_eq (fun k => (h k).symm) (List.mem_cons_self ..))
          with hba | hmem
        · exact Nat.le_of_eq (congrArg key hba.symm)
        · exact ha b hmem
      · rcases List.mem_cons.mp (mem_of_filter_eq h (List.mem_cons_self ..)) with hab | hmem
        · exact Nat.le_of_eq (congrArg key hab.symm)
        · exact hb a hmem
    have hhead := h (key a)
    rw [List.filter_cons_of_pos (by simp), List.filter_cons_of_pos (by simp [hkey])] at hhead
    obtain ⟨rfl, -⟩ := List.cons.inj hhead
    refine congrArg (a :: ·) (eq_of_filter_eq hxs hys fun k => ?_)
    have hk := h k
    rw [List.filter_cons, List.filter_cons] at hk
    split at hk
    · exact (List.cons.inj hk).2
    · exact hk

/-! ## Insertion -/

theorem sortByKey_concat (xs : List α) (a : α) :
    sortByKey key (xs ++ [a]) = insertByKey key a (sortByKey key xs) := by
  have hsorted := sortByKey_sorted key xs
  -- Sorted lists with the same elements of each key, in the same order, are equal.
  refine eq_of_filter_eq (sortByKey_sorted ..) (insertByKey_sorted a hsorted) fun k => ?_
  rw [filter_sortByKey, filter_insertByKey k a hsorted, filter_sortByKey, List.filter_append,
    List.filter_cons]
  simp only [decide_eq_true_eq, List.filter_nil]

theorem view_foldl_add {σ : Type} {view : σ → List α} {add : σ → α → σ}
    (hadd : ∀ s a, view (add s a) = insertByKey key a (view s)) {s : σ}
    (hs : (view s).Pairwise (key · ≤ key ·)) (as : List α) :
    view (as.foldl add s) = sortByKey key (view s ++ as) := by
  induction as using List.reverseRecOn with
  | nil => rw [List.foldl_nil, List.append_nil, sortByKey_of_sorted hs]
  | append_singleton as a ih =>
    rw [List.foldl_append, List.foldl_cons, List.foldl_nil, hadd, ih, ← sortByKey_concat, List.append_assoc]

theorem view_foldl_of_eq {σ β : Type} (view : σ → β) (add : σ → α → σ)
    (hadd : ∀ s a, view (add s a) = view s) : ∀ (as : List α) (s : σ), view (as.foldl add s) = view s
  | [], _ => rfl
  | a :: as, s => (view_foldl_of_eq view add hadd as (add s a)).trans (hadd s a)

theorem forall₂_insertByKey {β : Type} {key' : β → Nat} {R : α → β → Prop}
    (hkey : ∀ x y, R x y → key x = key' y) {a : α} {b : β} (hab : R a b) {xs : List α} {ys : List β}
    (h : List.Forall₂ R xs ys) : List.Forall₂ R (insertByKey key a xs) (insertByKey key' b ys) := by
  induction h with
  | nil => exact .cons hab .nil
  | @cons x y xs ys hxy h ih =>
    rw [insertByKey, insertByKey, hkey x y hxy, hkey a b hab]
    split
    · exact .cons hxy ih
    · exact .cons hab (.cons hxy h)

theorem forall₂_sortByKey_append {β : Type} {key' : β → Nat} {R : α → β → Prop}
    (hkey : ∀ x y, R x y → key x = key' y) {xs : List α} {ys : List β} (h : List.Forall₂ R xs ys)
    {front : List α} {front' : List β}
    (hfront : List.Forall₂ R (sortByKey key front) (sortByKey key' front')) :
    List.Forall₂ R (sortByKey key (front ++ xs)) (sortByKey key' (front' ++ ys)) := by
  induction h generalizing front front' with
  | nil => simpa using hfront
  | @cons x y xs ys hxy h ih =>
    have hnext : List.Forall₂ R (sortByKey key (front ++ [x])) (sortByKey key' (front' ++ [y])) := by
      rw [sortByKey_concat, sortByKey_concat]
      exact forall₂_insertByKey hkey hxy hfront
    simpa using ih hnext

theorem forall₂_sortByKey {β : Type} {key' : β → Nat} {R : α → β → Prop}
    (hkey : ∀ x y, R x y → key x = key' y) {xs : List α} {ys : List β} (h : List.Forall₂ R xs ys) :
    List.Forall₂ R (sortByKey key xs) (sortByKey key' ys) := by
  have hnil : List.Forall₂ R (sortByKey key []) (sortByKey key' []) := by
    rw [sortByKey_of_sorted .nil, sortByKey_of_sorted .nil]
    exact .nil
  simpa using forall₂_sortByKey_append hkey h hnil

/-- In front of index `i` everything satisfies `p`, from there on nothing does. -/
structure PartsAt (p : α → Bool) (xs : List α) (i : Nat) : Prop where
  le_length : i ≤ xs.length
  of_mem_take : ∀ a ∈ xs.take i, p a
  of_mem_drop : ∀ a ∈ xs.drop i, p a = false

theorem exists_partsAt (k : Nat) : ∀ {xs : List α}, xs.Pairwise (key · ≤ key ·) →
    ∃ i, PartsAt (key · ≤ k) xs i
  | [], _ => ⟨0, by simp, by simp, by simp⟩
  | b :: bs, h => by
    obtain ⟨hb, hbs⟩ := List.pairwise_cons.mp h
    by_cases hk : key b ≤ k
    · obtain ⟨i, hle, htake, hdrop⟩ := exists_partsAt k hbs
      refine ⟨i + 1, Nat.succ_le_succ hle, ?_, hdrop⟩
      rw [List.take_succ_cons]
      exact List.forall_mem_cons.mpr ⟨decide_eq_true hk, htake⟩
    · refine ⟨0, Nat.zero_le _, by simp, ?_⟩
      rw [List.drop_zero]
      refine List.forall_mem_cons.mpr ⟨decide_eq_false hk, fun x hx => decide_eq_false ?_⟩
      have := hb x hx
      omega

theorem insertByKey_eq_insertIdx {a : α} : ∀ {xs : List α} {i : Nat},
    PartsAt (key · ≤ key a) xs i → insertByKey key a xs = xs.insertIdx i a
  | [], i, h => by
    rw [Nat.le_zero.mp h.le_length]
    rfl
  | b :: bs, 0, h => by
    have hb := h.of_mem_drop b (List.mem_cons_self ..)
    rw [insertByKey, if_neg (of_decide_eq_false hb)]
    rfl
  | b :: bs, i + 1, h => by
    have htake := h.of_mem_take
    rw [List.take_succ_cons] at htake
    obtain ⟨hb, hbs⟩ := List.forall_mem_cons.mp htake
    rw [insertByKey, if_pos (of_decide_eq_true hb), List.insertIdx_succ_cons,
      insertByKey_eq_insertIdx ⟨Nat.le_of_succ_le_succ h.le_length, hbs, h.of_mem_drop⟩]

end

/-! ## Registers and peripherals -/

namespace Register
variable (r : Register) (fields : List Field)

theorem fields_addAll : (r.addAll fields).fields = sortByKey Field.bitOffset (r.fields ++ fields) :=
  view_foldl_add (fun _ _ => rfl) r.sorted fields

theorem name_addAll : (r.addAll fields).name = r.name :=
  view_foldl_of_eq name add (fun _ _ => rfl) fields r

theorem byteOffset_addAll : (r.addAll fields).byteOffset = r.byteOffset :=
  view_foldl_of_eq byteOffset add (fun _ _ => rfl) fields r

theorem description_addAll : (r.addAll fields).description = r.description :=
  view_foldl_of_eq description add (fun _ _ => rfl) fields r

theorem eq_of_parts {a b : Register} (hname : a.name = b.name) (hoffset : a.byteOffset = b.byteOffset)
    (hdescription : a.description = b.description) (hfields : a.fields = b.fields) : a = b := by
  cases a
  cases b
  simp_all

theorem addAll_empty : (empty r.name r.byteOffset r.description).addAll r.fields = r := by
  apply eq_of_parts
  · exact name_addAll ..
  · exact byteOffset_addAll ..
  · exact description_addAll ..
  · exact (fields_addAll ..).trans (sortByKey_of_sorted r.sorted)

end Register

namespace Peripheral
variable (p : Peripheral) (registers : List Register)

theorem registers_addAll :
    (p.addAll registers).registers = sortByKey (·.byteOffset.val) (p.registers ++ registers) :=
  view_foldl_add (fun _ _ => rfl) p.sorted registers

theorem name_addAll : (p.addAll registers).name = p.name :=
  view_foldl_of_eq name add (fun _ _ => rfl) registers p

theorem description_addAll : (p.addAll registers).description = p.description :=
  view_foldl_of_eq description add (fun _ _ => rfl) registers p

theorem eq_of_parts {p q : Peripheral} (hname : p.name = q.name) (hdescription : p.description = q.description)
    (hregisters : p.registers = q.registers) : p = q := by
  cases p
  cases q
  simp_all

theorem addAll_empty : (empty p.name p.description).addAll p.registers = p := by
  apply eq_of_parts
  · exact name_addAll ..
  · exact description_addAll ..
  · exact (registers_addAll ..).trans (sortByKey_of_sorted p.sorted)

end Peripheral

end RegisterMap
