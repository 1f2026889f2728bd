import Mathlib
import RegisterMap.Finding
import RegisterMap.Layout.BitSpan

/-!
# Bit spans cover the word

The spans of a register fill its word exactly when no two fields share a bit,
which is also when nothing is found to overlap. Both amount to `Separated`:
every field starts where all fields before it have ended. Whatever the fields,
the reserved spans measure the bits that no field covers.
-/

namespace RegisterMap

namespace BitSpan

def isReserved : BitSpan → Bool
  | .reserved _ => true
  | .field _ => false

def field? : BitSpan → Option Field
  | .reserved _ => none
  | .field f => some f

end BitSpan

def totalWidth (spans : List BitSpan) : Nat := (spans.map BitSpan.width).sum

def reservedWidth (spans : List BitSpan) : Nat := totalWidth (spans.filter BitSpan.isReserved)

theorem totalWidth_cons (s : BitSpan) (spans : List BitSpan) :
    totalWidth (s :: spans) = s.width + totalWidth spans := by
  simp [totalWidth]

theorem totalWidth_append (xs ys : List BitSpan) :
    totalWidth (xs ++ ys) = totalWidth xs + totalWidth ys := by
  simp [totalWidth]

theorem reservedWidth_append (xs ys : List BitSpan) :
    reservedWidth (xs ++ ys) = reservedWidth xs + reservedWidth ys := by
  simp [reservedWidth, totalWidth_append]

theorem reservedWidth_field (f : Field) (spans : List BitSpan) :
    reservedWidth (.field f :: spans) = reservedWidth spans := rfl

def gapSpans (lo hi : Nat) : List BitSpan := if lo < hi then [.reserved (hi - lo)] else []

theorem bitSpansFrom_nil (reached : Nat) : bitSpansFrom reached [] = gapSpans reached wordBits := rfl

theorem bitSpansFrom_cons (reached : Nat) (f : Field) (rest : List Field) :
    bitSpansFrom reached (f :: rest) =
      gapSpans reached f.bitOffset ++ .field f :: bitSpansFrom (max reached f.bitEnd) rest := rfl

theorem totalWidth_gapSpans (lo hi : Nat) : totalWidth (gapSpans lo hi) = hi - lo := by
  unfold gapSpans
  split
  · simp [totalWidth, BitSpan.width]
  · simp only [totalWidth, List.map_nil, List.sum_nil]
    omega

theorem filter_isReserved_gapSpans (lo hi : Nat) :
    (gapSpans lo hi).filter BitSpan.isReserved = gapSpans lo hi := by
  unfold gapSpans
  split <;> rfl

theorem filterMap_field?_gapSpans (lo hi : Nat) :
    (gapSpans lo hi).filterMap BitSpan.field? = [] := by
  unfold gapSpans
  split <;> rfl

theorem pos_of_mem_gapSpans {lo hi width : Nat} (h : .reserved width ∈ gapSpans lo hi) :
    0 < width := by
  unfold gapSpans at h
  split at h
  · cases List.mem_singleton.mp h
    omega
  · cases h

theorem field_notMem_gapSpans (f : Field) (lo hi : Nat) : .field f ∉ gapSpans lo hi := by
  unfold gapSpans
  split <;> simp

theorem filterMap_field?_bitSpansFrom : ∀ (fields : List Field) (reached : Nat),
    (bitSpansFrom reached fields).filterMap BitSpan.field? = fields
  | [], reached => by rw [bitSpansFrom_nil, filterMap_field?_gapSpans]
  | f :: rest, reached => by
    rw [bitSpansFrom_cons, List.filterMap_append, filterMap_field?_gapSpans, List.nil_append,
      List.filterMap_cons_some (rfl : (BitSpan.field f).field? = some f), filterMap_field?_bitSpansFrom]

theorem pos_of_reserved_mem {width : Nat} : ∀ {fields : List Field} {reached : Nat},
    .reserved width ∈ bitSpansFrom reached fields → 0 < width
  | [], _, h => pos_of_mem_gapSpans h
  | f :: rest, reached, h => by
    rw [bitSpansFrom_cons, List.mem_append, List.mem_cons] at h
    rcases h with h | h | h
    · exact pos_of_mem_gapSpans h
    · cases h
    · exact pos_of_reserved_mem h

/-- The spans fill all bits from `reached` on, and more where fields overlap. -/
theorem wordBits_le_reached_add : ∀ (fields : List Field) (reached : Nat),
    wordBits ≤ reached + totalWidth (bitSpansFrom reached fields)
  | [], reached => by
    rw [bitSpansFrom_nil, totalWidth_gapSpans]
    omega
  | f :: rest, reached => by
    have ih := wordBits_le_reached_add rest (max reached f.bitEnd)
    rw [bitSpansFrom_cons, totalWidth_append, totalWidth_cons, totalWidth_gapSpans]
    simp only [BitSpan.width, Field.bitEnd] at *
    omega

/-! ## Separated fields -/

/-- Each field starts at or behind the end of the one before it, the first at or behind `reached`. -/
def Separated : Nat → List Field → Prop
  | _, [] => True
  | reached, f :: rest => reached ≤ f.bitOffset ∧ Separated f.bitEnd rest

theorem Field.max_bitEnd {f : Field} {reached : Nat} (h : reached ≤ f.bitOffset) :
    max reached f.bitEnd = f.bitEnd :=
  Nat.max_eq_right (Nat.le_trans h (Nat.le_add_right ..))

theorem reached_add_eq_iff_separated : ∀ {fields : List Field} {reached : Nat}, reached ≤ wordBits →
    (reached + totalWidth (bitSpansFrom reached fields) = wordBits ↔ Separated reached fields)
  | [], reached, h => by
    rw [bitSpansFrom_nil, totalWidth_gapSpans, Nat.add_sub_cancel' h]
    exact ⟨fun _ => trivial, fun _ => rfl⟩
  | f :: rest, reached, h => by
    rw [bitSpansFrom_cons, totalWidth_append, totalWidth_cons, totalWidth_gapSpans]
    have hpos := f.width_pos
    have hmore := wordBits_le_reached_add rest (max reached f.bitEnd)
    have ih : f.bitEnd + totalWidth (bitSpansFrom f.bitEnd rest) = wordBits ↔
        Separated f.bitEnd rest :=
      reached_add_eq_iff_separated f.end_le
    by_cases hreached : reached ≤ f.bitOffset
    · rw [Field.max_bitEnd hreached, Separated, and_iff_right hreached, ← ih]
      simp only [BitSpan.width, Field.bitEnd]
      omega
    -- The field reaches below `reached`: its width comes on top of what fills the word.
    · refine iff_of_false ?_ fun hsep => hreached hsep.1
      simp only [BitSpan.width, Field.bitEnd] at *
      omega

theorem Separated.reached_add_before {f : Field} {after : List BitSpan} :
    ∀ {fields : List Field} {reached : Nat} {before : List BitSpan}, Separated reached fields →
      bitSpansFrom reached fields = before ++ .field f :: after →
      reached + totalWidth before = f.bitOffset
  | [], _, _, _, h => by
    exact absurd (h ▸ List.mem_append_right _ (List.mem_cons_self ..)) (field_notMem_gapSpans f _ _)
  | g :: rest, reached, before, hsep, h => by
    rw [bitSpansFrom_cons, Field.max_bitEnd hsep.1] at h
    have hgap := totalWidth_gapSpans reached g.bitOffset
    rcases List.append_eq_append_iff.mp h with ⟨more, rfl, hmore⟩ | ⟨more, hbefore, hmore⟩
    · rcases List.cons_eq_append_iff.mp hmore with ⟨rfl, hcons⟩ | ⟨more, rfl, hrest⟩
      · cases hcons
        rw [List.append_nil, hgap]
        exact Nat.add_sub_cancel' hsep.1
      · have ih := hsep.2.reached_add_before hrest
        rw [totalWidth_append, totalWidth_cons, hgap, ← ih]
        have := hsep.1
        simp only [BitSpan.width, Field.bitEnd]
        omega
    · cases more with
      | nil =>
        cases hmore
        rw [List.append_nil] at hbefore
        rw [← hbefore, hgap]
        exact Nat.add_sub_cancel' hsep.1
      | cons s more =>
        cases hmore
        exact absurd (hbefore ▸ List.mem_append_right _ (List.mem_cons_self ..))
          (field_notMem_gapSpans f _ _)

theorem Field.overlaps_eq_false {f g : Field} (h : f.bitOffset ≤ g.bitOffset) :
    f.overlaps g = false ↔ f.bitEnd ≤ g.bitOffset := by
  have hlt : f.bitOffset < g.bitEnd :=
    Nat.lt_of_le_of_lt h (Nat.lt_add_of_pos_right g.width_pos)
  simp [Field.overlaps, hlt]

/-- In sorted order, a field that overlaps no next one overlaps none that follows. -/
theorem overlappingPairs_eq_nil_iff : ∀ {fields : List Field} {reached : Nat},
    fields.Pairwise (·.bitOffset ≤ ·.bitOffset) → (∀ f ∈ fields, reached ≤ f.bitOffset) →
      (overlappingPairs fields = [] ↔ Separated reached fields)
  | [], _, _, _ => iff_of_true rfl trivial
  | [f], _, _, hreached => iff_of_true rfl ⟨hreached f (by simp), trivial⟩
  | f :: g :: rest, reached, hsorted, hreached => by
    obtain ⟨hf, hrest⟩ := List.pairwise_cons.mp hsorted
    have hg := (List.pairwise_cons.mp hrest).1
    have hle := hf g (by simp)
    rw [overlappingPairs, List.append_eq_nil_iff, List.map_eq_nil_iff, Separated,
      and_iff_right (hreached f (by simp)), List.takeWhile_cons]
    by_cases hend : f.bitEnd ≤ g.bitOffset
    · have hbehind : ∀ x ∈ g :: rest, f.bitEnd ≤ x.bitOffset :=
        List.forall_mem_cons.mpr ⟨hend, fun x hx => Nat.le_trans hend (hg x hx)⟩
      rw [(Field.overlaps_eq_false hle).mpr hend, ← overlappingPairs_eq_nil_iff hrest hbehind]
      simp
    · have hoverlap : f.overlaps g = true :=
        Bool.of_not_eq_false fun h => hend ((Field.overlaps_eq_false hle).mp h)
      refine iff_of_false (fun h => ?_) fun hsep => hend hsep.1
      rw [hoverlap] at h
      cases h.1

theorem overlapFindings_eq_nil_iff (r : Register) : r.overlapFindings = [] ↔ Separated 0 r.fields := by
  rw [Register.overlapFindings, List.map_eq_nil_iff]
  exact overlappingPairs_eq_nil_iff r.sorted fun _ _ => Nat.zero_le _

/-! ## Bits of no field -/

def Field.covers (f : Field) (bit : Nat) : Bool := f.bitOffset ≤ bit && bit < f.bitEnd

def uncovered (fields : List Field) (bit : Nat) : Bool := fields.all (!·.covers bit)

theorem countP_lt_range' (k : Nat) : ∀ start length,
    (List.range' start length).countP (· < k) = min length (k - start)
  | _, 0 => by simp
  | start, length + 1 => by
    rw [List.range'_succ, List.countP_cons, countP_lt_range' k (start + 1) length]
    split <;> simp only [decide_eq_true_eq] at * <;> omega

theorem range'_append_of_le {lo mid hi : Nat} (hlo : lo ≤ mid) (hhi : mid ≤ hi) :
    List.range' lo (hi - lo) = List.range' lo (mid - lo) ++ List.range' mid (hi - mid) := by
  have h := List.range'_append_1 (s := lo) (m := mid - lo) (n := hi - mid)
  rw [Nat.add_sub_cancel' hlo] at h
  rw [h]
  congr 1
  omega

theorem uncovered_cons_below {f : Field} {rest : List Field} {reached bit : Nat}
    (hsorted : ∀ g ∈ rest, f.bitOffset ≤ g.bitOffset) (hlo : reached ≤ bit)
    (hhi : bit < max reached f.bitEnd) : uncovered (f :: rest) bit = decide (bit < f.bitOffset) := by
  rw [Bool.eq_iff_iff]
  simp only [uncovered, Field.covers, List.all_cons, List.all_eq_true, Bool.and_eq_true,
    Bool.not_eq_true', Bool.and_eq_false_iff, decide_eq_true_eq, decide_eq_false_iff_not]
  constructor
  · rintro ⟨h, -⟩
    omega
  · intro h
    refine ⟨.inl (by omega), fun g hg => .inl ?_⟩
    have := hsorted g hg
    omega

theorem uncovered_cons_above {f : Field} {bit : Nat} (rest : List Field) (h : f.bitEnd ≤ bit) :
    uncovered (f :: rest) bit = uncovered rest bit := by
  have hcovers : f.covers bit = false := by
    simp [Field.covers, Nat.not_lt.mpr h]
  rw [uncovered, List.all_cons, hcovers]
  rfl

theorem reservedWidth_bitSpansFrom : ∀ {fields : List Field} {reached : Nat}, reached ≤ wordBits →
    fields.Pairwise (·.bitOffset ≤ ·.bitOffset) →
    reservedWidth (bitSpansFrom reached fields) =
      (List.range' reached (wordBits - reached)).countP (uncovered fields)
  | [], reached, _, _ => by
    have hall : (List.range' reached (wordBits - reached)).countP (uncovered []) = _ :=
      List.countP_eq_length.mpr fun _ _ => rfl
    rw [bitSpansFrom_nil, reservedWidth, filter_isReserved_gapSpans, totalWidth_gapSpans, hall,
      List.length_range']
  | f :: rest, reached, hreached, hsorted => by
    obtain ⟨hf, hrest⟩ := List.pairwise_cons.mp hsorted
    have hmax : max reached f.bitEnd ≤ wordBits := Nat.max_le.mpr ⟨hreached, f.end_le⟩
    -- Up to the end of the field only the bits before it are of no field, above it the field makes no difference.
    have hbelow : (List.range' reached (max reached f.bitEnd - reached)).countP
        (uncovered (f :: rest)) = f.bitOffset - reached := by
      rw [List.countP_congr (q := (· < f.bitOffset)), countP_lt_range']
      · simp only [Field.bitEnd]
        omega
      · intro bit hbit
        obtain ⟨hlo, hhi⟩ := List.mem_range'_1.mp hbit
        rw [uncovered_cons_below hf hlo (by omega)]
    have habove : (List.range' (max reached f.bitEnd) (wordBits - max reached f.bitEnd)).countP
        (uncovered (f :: rest)) =
        (List.range' (max reached f.bitEnd) (wordBits - max reached f.bitEnd)).countP
          (uncovered rest) := by
      apply List.countP_congr
      intro bit hbit
      rw [uncovered_cons_above rest (Nat.le_trans (Nat.le_max_right ..) (List.mem_range'_1.mp hbit).1)]
    rw [range'_append_of_le (Nat.le_max_left reached f.bitEnd) hmax, List.countP_append, hbelow, habove,
      ← reservedWidth_bitSpansFrom hmax hrest, bitSpansFrom_cons, reservedWidth_append,
      reservedWidth_field]
    rw [reservedWidth, filter_isReserved_gapSpans, totalWidth_gapSpans]

/-! ## Registers -/

theorem totalWidth_bitSpans_eq_iff (r : Register) :
    totalWidth r.bitSpans = wordBits ↔ r.overlapFindings = [] := by
  rw [overlapFindings_eq_nil_iff, ← reached_add_eq_iff_separated (Nat.zero_le _), Nat.zero_add]
  rfl

theorem name_eq_of_overlap_mem {r : Register} {name first second : Text}
    (h : .overlap name first second ∈ r.overlapFindings) : r.name = name := by
  obtain ⟨_, _, heq⟩ := List.mem_map.mp h
  cases heq
  rfl

theorem overlap_notMem_duplicatesAfter {name first second : Text} :
    ∀ {registers seen : List Register}, .overlap name first second ∉ duplicatesAfter seen registers
  | [], _ => by simp [duplicatesAfter]
  | r :: rest, seen => by
    rw [duplicatesAfter]
    have ih := @overlap_notMem_duplicatesAfter name first second rest (seen ++ [r])
    split
    · simpa using ih
    · exact ih

theorem overlap_mem_findings {p : Peripheral} {name first second : Text} :
    .overlap name first second ∈ p.findings ↔
      ∃ r ∈ p.registers, .overlap name first second ∈ r.overlapFindings := by
  rw [Peripheral.findings, List.mem_append, List.mem_flatMap]
  exact or_iff_left overlap_notMem_duplicatesAfter

/-- What the spans of a register say of its bits. -/
structure Register.CoverageAgrees (r : Register) : Prop where
  total_iff : totalWidth r.bitSpans = wordBits ↔ r.overlapFindings = []
  start_eq : r.overlapFindings = [] → ∀ before f after,
    r.bitSpans = before ++ .field f :: after → totalWidth before = f.bitOffset
  reserved_eq : reservedWidth r.bitSpans = (List.range wordBits).countP (uncovered r.fields)
  reserved_pos : ∀ width, .reserved width ∈ r.bitSpans → 0 < width
  fields_eq : r.bitSpans.filterMap BitSpan.field? = r.fields

theorem Register.coverageAgrees (r : Register) : r.CoverageAgrees where
  total_iff := totalWidth_bitSpans_eq_iff r
  start_eq := fun h before f after hspans => by
    have hstart := ((overlapFindings_eq_nil_iff r).mp h).reached_add_before hspans
    rwa [Nat.zero_add] at hstart
  reserved_eq := by
    rw [List.range_eq_range']
    exact reservedWidth_bitSpansFrom (Nat.zero_le _) r.sorted
  reserved_pos := fun _ => pos_of_reserved_mem
  fields_eq := filterMap_field?_bitSpansFrom ..

/-- **Spans and findings agree.** What is found of a register stands at its place among the
findings, under its name. -/
theorem bitSpans_agree_findings :
    (∀ r : Register, r.CoverageAgrees) ∧
    (∀ (p : Peripheral) (before : List Register) (r : Register) (after : List Register),
      p.registers = before ++ r :: after →
      p.findings = before.flatMap Register.overlapFindings ++ r.overlapFindings ++
        (after.flatMap Register.overlapFindings ++ duplicatesAfter [] p.registers)) ∧
    ∀ (p : Peripheral) (name : Text),
      (∀ r ∈ p.registers, r.name = name → totalWidth r.bitSpans = wordBits) ↔
        ∀ first second, Finding.overlap name first second ∉ p.findings := by
  refine ⟨Register.coverageAgrees, ?_, ?_⟩
  · intro p before r after hcut
    simp only [Peripheral.findings, hcut, List.flatMap_append, List.flatMap_cons, List.append_assoc]
  · intro p name
    constructor
    · intro h first second hmem
      obtain ⟨r, hr, hfinding⟩ := overlap_mem_findings.mp hmem
      have htotal := h r hr (name_eq_of_overlap_mem hfinding)
      rw [(totalWidth_bitSpans_eq_iff r).mp htotal] at hfinding
      cases hfinding
    · intro h r hr hname
      rw [totalWidth_bitSpans_eq_iff, List.eq_nil_iff_forall_not_mem]
      intro finding hfinding
      obtain ⟨⟨f, g⟩, -, rfl⟩ := List.mem_map.mp hfinding
      refine h f.name g.name (overlap_mem_findings.mpr ⟨r, hr, ?_⟩)
      rwa [← hname]

def enableAndReady (byteOffset : Word) : Register :=
  Register.addAll (.empty "ctrl".toList byteOffset none)
    (List.filterMap (fun s : FieldSpec => s.field.toOption)
      [⟨"ready".toList, 31, 1, none⟩, ⟨"enable".toList, 0, 4, none⟩])

theorem bitSpans_agree_findings_hole :
    (enableAndReady 8).overlapFindings = [] ∧
    (enableAndReady 8).bitSpans =
      [.field ⟨"enable".toList, 0, 4, none, by decide, by decide⟩, .reserved 27] ++
        .field ⟨"ready".toList, 31, 1, none, by decide, by decide⟩ :: [] ∧
    totalWidth [.field ⟨"enable".toList, 0, 4, none, by decide, by decide⟩, .reserved 27] = 31 ∧
    (Peripheral.add (.empty "dev".toList none) (enableAndReady 8)).registers =
      [] ++ (enableAndReady 8) :: [] ∧
    (Peripheral.add (.empty "dev".toList none) (enableAndReady 8)).findings =
      [] ++ (enableAndReady 8).overlapFindings ++ ([] ++ duplicatesAfter [] [enableAndReady 8]) := by
  have hspans : (enableAndReady 8).bitSpans =
      [.field ⟨"enable".toList, 0, 4, none, by decide, by decide⟩, .reserved 27] ++
        .field ⟨"ready".toList, 31, 1, none, by decide, by decide⟩ :: [] := by
    decide
  have hnone : (enableAndReady 8).overlapFindings = [] := by decide
  exact ⟨hnone, hspans, (bitSpans_agree_findings.1 _).start_eq hnone _ _ _ hspans, rfl,
    bitSpans_agree_findings.2.1 _ [] _ [] rfl⟩

end RegisterMap
