import RegisterMap.Proofs.Layout.Coverage

/-!
# Findings are exact

Looking ahead from a field stops at the first field that does not overlap it. In
sorted order none behind that one does either, so every two fields that share a
bit are found, once, in the order of their places. A name is reported for each
register that repeats it, against the first register that has it.
-/

namespace RegisterMap

/-- One entry for each place of which `At` holds, in ascending order of the places. -/
def ListsInOrder {ι α : Type} (lt : ι → ι → Prop) (At : ι → Prop) (Entry : ι → α → Prop)
    (entries : List α) : Prop :=
  ∃ places : List ι, places.Pairwise lt ∧ (∀ i, i ∈ places ↔ At i) ∧ List.Forall₂ Entry places entries

namespace ListsInOrder

variable {ι α β : Type} {lt : ι → ι → Prop} {At : ι → Prop} {Entry : ι → α → Prop} {entries : List α}

theorem eq_nil_iff (h : ListsInOrder lt At Entry entries) : entries = [] ↔ ∀ i, ¬ At i := by
  obtain ⟨places, -, hmem, hentries⟩ := h
  have hplaces : entries = [] ↔ places = [] := by
    rw [← List.length_eq_zero_iff, ← hentries.length_eq, List.length_eq_zero_iff]
  rw [hplaces, List.eq_nil_iff_forall_not_mem]
  exact forall_congr' fun i => not_congr (hmem i)

theorem map {Entry' : ι → β → Prop} {f : α → β} (h : ListsInOrder lt At Entry entries)
    (hf : ∀ i a, Entry i a → Entry' i (f a)) : ListsInOrder lt At Entry' (entries.map f) := by
  obtain ⟨places, hascending, hmem, hentries⟩ := h
  exact ⟨places, hascending, hmem, List.forall₂_map_right_iff.mpr (hentries.imp hf)⟩

end ListsInOrder

/-! ## Overlapping fields -/

/-- Some bit of the word lies in both fields. -/
def Field.SharesBit (f g : Field) : Prop := ∃ bit < wordBits, f.covers bit ∧ g.covers bit

theorem Field.overlaps_iff {f g : Field} :
    f.overlaps g ↔ f.bitOffset < g.bitOffset + g.width ∧ g.bitOffset < f.bitOffset + f.width := by
  rw [overlaps, Bool.and_eq_true, decide_eq_true_eq, decide_eq_true_eq, bitEnd, bitEnd]

theorem Field.covers_iff {f : Field} {bit : Nat} :
    f.covers bit ↔ f.bitOffset ≤ bit ∧ bit < f.bitOffset + f.width := by
  rw [covers, Bool.and_eq_true, decide_eq_true_eq, decide_eq_true_eq, bitEnd]

theorem Field.overlaps_iff_sharesBit {f g : Field} : f.overlaps g ↔ f.SharesBit g := by
  have hf := f.width_pos
  have hg := g.width_pos
  have hend := f.end_le
  have hend' := g.end_le
  simp only [SharesBit, overlaps_iff, covers_iff]
  constructor
  · rintro ⟨hfg, hgf⟩
    exact ⟨max f.bitOffset g.bitOffset, by omega, by omega, by omega⟩
  · rintro ⟨bit, -, hbit, hbit'⟩
    omega

theorem Field.overlaps_of_between {f g h : Field} (hfg : f.bitOffset ≤ g.bitOffset)
    (hgh : g.bitOffset ≤ h.bitOffset) (hoverlap : f.overlaps h) : f.overlaps g := by
  have hg := g.width_pos
  rw [overlaps_iff] at hoverlap ⊢
  omega

theorem lt_length_takeWhile_iff {α : Type} {p : α → Bool} : ∀ {xs : List α} {j : Nat} {x : α},
    xs.Pairwise (fun a b => p b → p a) → xs[j]? = some x → (j < (xs.takeWhile p).length ↔ p x)
  | [], _, _, _, hj => by cases hj
  | a :: xs, j, x, h, hj => by
    obtain ⟨ha, hxs⟩ := List.pairwise_cons.mp h
    rw [List.takeWhile_cons]
    cases j with
    | zero =>
      cases hj
      by_cases hp : p a <;> simp [hp]
    | succ j =>
      rw [List.getElem?_cons_succ] at hj
      have hx := ha x (List.mem_of_getElem? hj)
      by_cases hp : p a
      · simpa [hp] using lt_length_takeWhile_iff hxs hj
      · simpa [hp] using fun hpx => hp (hx hpx)

/-- The fields stand at these places, the first before the second, and share a bit. -/
structure OverlapAt (fields : List Field) (place : Nat × Nat) (pair : Field × Field) : Prop where
  lt : place.1 < place.2
  first : fields[place.1]? = some pair.1
  second : fields[place.2]? = some pair.2
  sharesBit : pair.1.SharesBit pair.2

/-- In the order of the first places, for one first place in that of the second ones. -/
abbrev LexLt : Nat × Nat → Nat × Nat → Prop := Prod.Lex (· < ·) (· < ·)

def behindOne (place : Nat × Nat) : Nat × Nat := (place.1 + 1, place.2 + 1)

theorem OverlapAt.behindOne {fields : List Field} {place : Nat × Nat} {pair : Field × Field}
    (h : OverlapAt fields place pair) (f : Field) : OverlapAt (f :: fields) (behindOne place) pair :=
  ⟨Nat.succ_lt_succ h.lt, h.first, h.second, h.sharesBit⟩

section
variable {f : Field} {rest : List Field} (hsorted : (f :: rest).Pairwise (·.bitOffset ≤ ·.bitOffset))
include hsorted

theorem lt_length_takeWhile_overlaps_iff {j : Nat} {g : Field} (hj : rest[j]? = some g) :
    j < (rest.takeWhile f.overlaps).length ↔ f.SharesBit g := by
  obtain ⟨hf, hrest⟩ := List.pairwise_cons.mp hsorted
  have hahead : rest.Pairwise fun g h => f.overlaps h → f.overlaps g :=
    hrest.imp_of_mem fun hg _ hle => Field.overlaps_of_between (hf _ hg) hle
  rw [lt_length_takeWhile_iff hahead hj, Field.overlaps_iff_sharesBit]

theorem overlapAt_front {j : Nat} (hj : j < (rest.takeWhile f.overlaps).length) :
    OverlapAt (f :: rest) (0, j + 1) (f, (rest.takeWhile f.overlaps)[j]) := by
  have hget : rest[j]? = some (rest.takeWhile f.overlaps)[j] :=
    List.prefix_iff_getElem?.mp (List.takeWhile_prefix _) j hj
  exact ⟨j.succ_pos, rfl, hget, (lt_length_takeWhile_overlaps_iff hsorted hget).mp hj⟩

theorem exists_overlapAt_cons_iff {place : Nat × Nat} :
    (∃ pair, OverlapAt (f :: rest) place pair) ↔
      (∃ j < (rest.takeWhile f.overlaps).length, (0, j + 1) = place) ∨
        ∃ inner, (∃ pair, OverlapAt rest inner pair) ∧ behindOne inner = place := by
  obtain ⟨i, j⟩ := place
  constructor
  · rintro ⟨pair, hlt, hfirst, hsecond, hshares⟩
    obtain ⟨j, rfl⟩ := Nat.exists_eq_succ_of_ne_zero (Nat.ne_zero_of_lt hlt)
    cases i with
    | zero =>
      obtain rfl := Option.some_inj.mp hfirst
      exact .inl ⟨j, (lt_length_takeWhile_overlaps_iff hsorted hsecond).mpr hshares, rfl⟩
    | succ i => exact .inr ⟨(i, j), ⟨pair, Nat.lt_of_succ_lt_succ hlt, hfirst, hsecond, hshares⟩, rfl⟩
  · rintro (⟨j, hj, heq⟩ | ⟨inner, ⟨pair, hpair⟩, heq⟩)
    · exact ⟨_, heq ▸ overlapAt_front hsorted hj⟩
    · exact ⟨pair, heq ▸ hpair.behindOne f⟩

end

theorem overlappingPairs_inOrder : ∀ {fields : List Field}, fields.Pairwise (·.bitOffset ≤ ·.bitOffset) →
    ListsInOrder LexLt (fun place => ∃ pair, OverlapAt fields place pair) (OverlapAt fields)
      (overlappingPairs fields)
  | [], _ => ⟨[], .nil, by simpa using fun _ _ _ _ h => (nomatch h.first), .nil⟩
  | f :: rest, hsorted => by
    obtain ⟨inner, hascending, hmem, hpairs⟩ := overlappingPairs_inOrder (List.pairwise_cons.mp hsorted).2
    -- Pairs with the field at the front come first, and those of the other fields stand one place further.
    let found := rest.takeWhile f.overlaps
    refine ⟨(List.range found.length).map (0, · + 1) ++ inner.map behindOne, ?_, ?_, ?_⟩
    · refine List.pairwise_append.mpr ⟨?_, ?_, ?_⟩
      · rw [List.pairwise_map]
        exact List.pairwise_lt_range.imp fun h => .right _ (Nat.succ_lt_succ h)
      · rw [List.pairwise_map]
        refine hascending.imp fun h => ?_
        cases h with
        | left _ _ h => exact .left _ _ (Nat.succ_lt_succ h)
        | right _ h => exact .right _ (Nat.succ_lt_succ h)
      · intro place hplace place' hplace'
        obtain ⟨_, -, rfl⟩ := List.mem_map.mp hplace
        obtain ⟨_, -, rfl⟩ := List.mem_map.mp hplace'
        exact .left _ _ (Nat.succ_pos _)
    · intro place
      simp only [List.mem_append, List.mem_map, List.mem_range, hmem, found,
        exists_overlapAt_cons_iff hsorted]
    · rw [overlappingPairs]
      refine List.rel_append ?_ ?_
      · rw [List.forall₂_map_left_iff, List.forall₂_map_right_iff]
        refine List.forall₂_iff_get.mpr ⟨List.length_range, fun j hj _ => ?_⟩
        rw [List.length_range] at hj
        simpa using overlapAt_front hsorted hj
      · rw [List.forall₂_map_left_iff]
        exact hpairs.imp fun _ _ h => h.behindOne f

/-- One entry for every two fields that share a bit, in the order of their places. -/
def Register.ListsOverlaps (r : Register) (entries : List Finding) : Prop :=
  ListsInOrder LexLt (fun place => ∃ pair, OverlapAt r.fields place pair)
    (fun place entry => ∃ f g, OverlapAt r.fields place (f, g) ∧ entry = .overlap r.name f.name g.name)
    entries

theorem Register.overlapFindings_listed (r : Register) : r.ListsOverlaps r.overlapFindings :=
  (overlappingPairs_inOrder r.sorted).map fun _ (f, g) h => ⟨f, g, h, rfl⟩

/-! ## Repeated names -/

def RepeatsName (registers : List Register) (place : Nat) : Prop :=
  ∃ r, registers[place]? = some r ∧ ∃ s ∈ registers.take place, s.name = r.name

/-- Of the registers of a name, this one comes first, and none of them has a smaller offset. -/
structure FirstNamed (registers : List Register) (name : Text) (first : Register) : Prop where
  name_eq : first.name = name
  split : ∃ before after, registers = before ++ first :: after ∧ ∀ s ∈ before, s.name ≠ name
  smallest : ∀ s ∈ registers, s.name = name → first.byteOffset ≤ s.byteOffset

def RepetitionAt (registers : List Register) (place : Nat) (entry : Finding) : Prop :=
  ∃ r first, registers[place]? = some r ∧ FirstNamed registers r.name first ∧
    entry = .duplicate r.name first.byteOffset r.byteOffset

theorem firstNamed_of_find? {seen rest : List Register} {name : Text} {first : Register}
    (hsorted : (seen ++ rest).Pairwise (·.byteOffset.val ≤ ·.byteOffset.val))
    (h : seen.find? (·.name = name) = some first) : FirstNamed (seen ++ rest) name first := by
  obtain ⟨hname, before, after, rfl, hbefore⟩ := List.find?_eq_some_iff_append.mp h
  have hothers : ∀ s ∈ before, s.name ≠ name := fun s hs => by simpa using hbefore s hs
  have hsplit : before ++ first :: after ++ rest = before ++ first :: (after ++ rest) := by simp
  rw [hsplit] at hsorted ⊢
  refine ⟨of_decide_eq_true hname, ⟨before, after ++ rest, rfl, hothers⟩, fun s hs hs' => ?_⟩
  rcases List.mem_append.mp hs with hs | hs
  · exact absurd hs' (hothers s hs)
  · have hbehind := (List.pairwise_cons.mp (List.pairwise_append.mp hsorted).2.1).1
    rcases List.mem_cons.mp hs with rfl | hs
    · exact Nat.le_refl _
    · exact hbehind s hs

theorem repeatsName_length_iff (seen rest : List Register) (r : Register) :
    RepeatsName (seen ++ r :: rest) seen.length ↔ ∃ s ∈ seen, s.name = r.name := by
  simp [RepeatsName]

theorem duplicatesAfter_inOrder : ∀ {rest seen : List Register},
    (seen ++ rest).Pairwise (·.byteOffset.val ≤ ·.byteOffset.val) →
    ListsInOrder (· < ·) (fun place => seen.length ≤ place ∧ RepeatsName (seen ++ rest) place)
      (RepetitionAt (seen ++ rest)) (duplicatesAfter seen rest)
  | [], seen, _ => by
    refine ⟨[], .nil, fun place => iff_of_false List.not_mem_nil ?_, .nil⟩
    rintro ⟨hle, r, hr, -⟩
    rw [List.append_nil, List.getElem?_eq_none hle] at hr
    cases hr
  | r :: rest, seen, hsorted => by
    have hall : seen ++ [r] ++ rest = seen ++ r :: rest := by simp
    -- The induction is on what is left: the register at hand counts as seen for the rest.
    obtain ⟨places, hascending, hmem, hentries⟩ := duplicatesAfter_inOrder (hall ▸ hsorted)
    rw [hall] at hmem hentries
    simp only [List.length_append, List.length_singleton, Nat.succ_le_iff] at hmem
    have hhere := repeatsName_length_iff seen rest r
    rw [duplicatesAfter]
    cases hfind : seen.find? (·.name = r.name) with
    | some first =>
      have hrepeats : RepeatsName (seen ++ r :: rest) seen.length :=
        hhere.mpr ⟨first, List.mem_of_find?_eq_some hfind, by simpa using List.find?_some hfind⟩
      have hlater : ∀ place ∈ places, seen.length < place := fun place hplace => ((hmem place).mp hplace).1
      refine ⟨seen.length :: places, List.pairwise_cons.mpr ⟨hlater, hascending⟩, fun place => ?_, ?_⟩
      · rw [List.mem_cons, hmem]
        constructor
        · rintro (rfl | ⟨hlt, h⟩)
          · exact ⟨Nat.le_refl _, hrepeats⟩
          · exact ⟨Nat.le_of_lt hlt, h⟩
        · rintro ⟨hle, h⟩
          rcases Nat.eq_or_lt_of_le hle with heq | hlt
          · exact .inl heq.symm
          · exact .inr ⟨hlt, h⟩
      · exact .cons ⟨r, first, by simp, firstNamed_of_find? hsorted hfind, rfl⟩ hentries
    | none =>
      have hnone : ¬ RepeatsName (seen ++ r :: rest) seen.length := by
        rw [hhere]
        simpa using hfind
      refine ⟨places, hascending, fun place => ?_, hentries⟩
      rw [hmem]
      refine and_congr_left fun h => ⟨Nat.le_of_lt, fun hle => Nat.lt_of_le_of_ne hle ?_⟩
      rintro rfl
      exact hnone h

/-! ## Peripherals -/

theorem forall_not_overlapAt_iff {fields : List Field} :
    (∀ place, ¬ ∃ pair, OverlapAt fields place pair) ↔ fields.Pairwise fun f g => ¬ f.SharesBit g := by
  rw [List.pairwise_iff_getElem]
  constructor
  · intro h i j hi hj hlt hshares
    exact h (i, j) ⟨(fields[i], fields[j]), hlt, List.getElem?_eq_getElem hi,
      List.getElem?_eq_getElem hj, hshares⟩
  · rintro h ⟨i, j⟩ ⟨⟨f, g⟩, hlt, hfirst, hsecond, hshares⟩
    obtain ⟨hi, rfl⟩ := List.getElem?_eq_some_iff.mp hfirst
    obtain ⟨hj, rfl⟩ := List.getElem?_eq_some_iff.mp hsecond
    exact h i j hi hj hlt hshares

theorem forall_not_repeatsName_iff {registers : List Register} :
    (∀ place, ¬ RepeatsName registers place) ↔ (registers.map Register.name).Nodup := by
  rw [List.Nodup, List.pairwise_map, List.pairwise_iff_getElem]
  constructor
  · intro h i j hi hj hlt heq
    refine h j ⟨registers[j], List.getElem?_eq_getElem hj, registers[i], ?_, heq⟩
    exact List.mem_take_iff_getElem.mpr ⟨i, by omega, rfl⟩
  · rintro h j ⟨r, hr, s, hs, heq⟩
    obtain ⟨hj, rfl⟩ := List.getElem?_eq_some_iff.mp hr
    obtain ⟨i, hi, rfl⟩ := List.mem_take_iff_getElem.mp hs
    exact h i j (by omega) hj (by omega) heq

/-- One entry for each register that has the name of an earlier one, in the order of the registers. -/
def ListsRepetitions (registers : List Register) (entries : List Finding) : Prop :=
  ListsInOrder (· < ·) (RepeatsName registers) (RepetitionAt registers) entries

theorem Peripheral.duplicatesAfter_listed (p : Peripheral) :
    ListsRepetitions p.registers (duplicatesAfter [] p.registers) := by
  have hlisted := @duplicatesAfter_inOrder p.registers [] p.sorted
  simpa [ListsRepetitions] using hlisted

/-- **Findings are exact.** First the overlaps, register by register, then the repeated names. -/
theorem Peripheral.findings_exact (p : Peripheral) :
    (∃ overlaps repetitions, p.findings = overlaps.flatten ++ repetitions ∧
      List.Forall₂ Register.ListsOverlaps p.registers overlaps ∧
      ListsRepetitions p.registers repetitions) ∧
    (p.findings = [] ↔ (∀ r ∈ p.registers, r.fields.Pairwise fun f g => ¬ f.SharesBit g) ∧
      (p.registers.map Register.name).Nodup) := by
  constructor
  · refine ⟨p.registers.map Register.overlapFindings, _, ?_, ?_, p.duplicatesAfter_listed⟩
    · rw [← List.flatMap_def]
      rfl
    · rw [List.forall₂_map_right_iff, List.forall₂_same]
      exact fun r _ => r.overlapFindings_listed
  · rw [findings, List.append_eq_nil_iff, List.flatMap_eq_nil_iff]
    refine and_congr (forall₂_congr fun r _ => ?_) ?_
    · rw [r.overlapFindings_listed.eq_nil_iff, forall_not_overlapAt_iff]
    · rw [p.duplicatesAfter_listed.eq_nil_iff, forall_not_repeatsName_iff]

end RegisterMap
