import RegisterMap.Proofs.Layout.Runs

/-!
# Precedence is a strict order

One register stands before another in an array if both have the same bits under
names of one family, and the other is as many words further up as its index is.
Families and bits are equivalences and indices are numbers, so precedence is a
strict order. A scan compares neighbours only, yet any two registers of a run
stand in that order, and as far apart as their indices.
-/

namespace RegisterMap

theorem Field.alike_iff {f g : Field} : f.alike g ↔
    ∃ m n, IndexedName.ofText? f.name = some m ∧ IndexedName.ofText? g.name = some n ∧
      m.stem = n.stem ∧ m.tail = n.tail ∧ f.bitOffset = g.bitOffset ∧ f.width = g.width := by
  unfold alike
  cases hm : IndexedName.ofText? f.name with
  | none => simp
  | some m =>
    cases hn : IndexedName.ofText? g.name with
    | none => simp
    | some n => simp [IndexedName.sameFamily, and_assoc]

namespace Register

def index? (r : Register) : Option Nat :=
  (IndexedName.ofText? r.name).bind (·.index)

theorem indexedStep_iff {a b : Register} : a.indexedStep b ↔
    ∃ stem tail i j, IndexedName.ofText? a.name = some ⟨stem, some i, tail⟩ ∧
      IndexedName.ofText? b.name = some ⟨stem, some j, tail⟩ ∧ i < j ∧
      b.byteOffset.val = a.byteOffset.val + wordBytes * (j - i) := by
  constructor
  · intro h
    unfold indexedStep at h
    split at h
    · rename_i stem i tail stem' j tail' ha hb
      simp only [Bool.and_eq_true, decide_eq_true_eq] at h
      obtain ⟨⟨⟨⟨rfl, rfl⟩, hlt⟩, hstride⟩, hj⟩ := h
      have hwords := Nat.mul_div_cancel' (Nat.dvd_of_mod_eq_zero hstride)
      have hlt' : a.byteOffset.val < b.byteOffset.val := hlt
      have hpos : 0 < (b.byteOffset.val - a.byteOffset.val) / wordBytes := by
        apply Nat.pos_of_ne_zero
        intro hzero
        rw [hzero] at hwords
        omega
      refine ⟨stem, tail, i, j, ha, hb, by omega, ?_⟩
      rw [← hj, Nat.add_sub_cancel_left, hwords]
      omega
    · cases h
  · rintro ⟨stem, tail, i, j, ha, hb, hij, hoffset⟩
    have hlt : a.byteOffset < b.byteOffset := by
      rw [Fin.lt_def, hoffset]
      simp only [wordBytes]
      omega
    unfold indexedStep
    simp only [ha, hb, hoffset, Nat.add_sub_cancel_left, Nat.mul_mod_right, Bool.and_eq_true, decide_eq_true_eq]
    refine ⟨⟨⟨⟨trivial, trivial⟩, hlt⟩, trivial⟩, ?_⟩
    rw [Nat.mul_div_cancel_left _ (by decide)]
    omega

theorem precedes_iff {a b : Register} : a.precedes b ↔
    List.Forall₂ (fun f g => f.alike g) a.fields b.fields ∧ a.indexedStep b := by
  rw [precedes, Bool.and_eq_true, Bool.and_eq_true, decide_eq_true_eq, List.forall₂_iff_zip, List.all_eq_true]
  simp

theorem precedes_step {a b : Register} (h : a.precedes b) :
    ∃ i j, a.index? = some i ∧ b.index? = some j ∧ i < j ∧
      b.byteOffset.val = a.byteOffset.val + wordBytes * (j - i) := by
  obtain ⟨stem, tail, i, j, ha, hb, hij, hoffset⟩ := indexedStep_iff.mp (precedes_iff.mp h).2
  exact ⟨i, j, by rw [index?, ha]; rfl, by rw [index?, hb]; rfl, hij, hoffset⟩

end Register

/-! ## The order -/

theorem Field.alike_trans {f g h : Field} (hfg : f.alike g) (hgh : g.alike h) : f.alike h := by
  obtain ⟨l, m, hl, hm, hstem, htail, hoffset, hwidth⟩ := alike_iff.mp hfg
  obtain ⟨m', n, hm', hn, hstem', htail', hoffset', hwidth'⟩ := alike_iff.mp hgh
  obtain rfl : m = m' := Option.some_inj.mp (hm.symm.trans hm')
  exact alike_iff.mpr ⟨l, n, hl, hn, hstem.trans hstem', htail.trans htail', hoffset.trans hoffset',
    hwidth.trans hwidth'⟩

theorem forall₂_alike_trans : ∀ {fs gs hs : List Field}, List.Forall₂ (fun f g => f.alike g) fs gs →
    List.Forall₂ (fun f g => f.alike g) gs hs → List.Forall₂ (fun f g => f.alike g) fs hs
  | [], [], [], .nil, .nil => .nil
  | _ :: _, _ :: _, _ :: _, .cons hfg hfgs, .cons hgh hghs =>
    .cons (Field.alike_trans hfg hgh) (forall₂_alike_trans hfgs hghs)

namespace Register

theorem precedes_irrefl (a : Register) : ¬ a.precedes a := by
  intro h
  obtain ⟨i, j, hi, hj, hlt, -⟩ := precedes_step h
  obtain rfl : i = j := Option.some_inj.mp (hi.symm.trans hj)
  exact Nat.lt_irrefl i hlt

theorem indexedStep_trans {a b c : Register} (hab : a.indexedStep b) (hbc : b.indexedStep c) :
    a.indexedStep c := by
  obtain ⟨stem, tail, i, j, ha, hb, hij, hoffset⟩ := indexedStep_iff.mp hab
  obtain ⟨stem', tail', j', k, hb', hc, hjk, hoffset'⟩ := indexedStep_iff.mp hbc
  rw [hb] at hb'
  cases hb'
  refine indexedStep_iff.mpr ⟨stem, tail, i, k, ha, hc, hij.trans hjk, ?_⟩
  rw [hoffset', hoffset, Nat.add_assoc, ← Nat.mul_add]
  congr 2
  omega

theorem precedes_trans {a b c : Register} (hab : a.precedes b) (hbc : b.precedes c) : a.precedes c := by
  obtain ⟨hfields, hstep⟩ := precedes_iff.mp hab
  obtain ⟨hfields', hstep'⟩ := precedes_iff.mp hbc
  exact precedes_iff.mpr ⟨forall₂_alike_trans hfields hfields', indexedStep_trans hstep hstep'⟩

instance : IsStrictOrder Register (fun a b => a.precedes b) where
  irrefl := precedes_irrefl
  trans _ _ _ := precedes_trans

end Register

theorem pairwise_precedes_run (registers : List Register) :
    (registers.take (runLength registers)).Pairwise (fun a b => a.precedes b) :=
  (isChain_take_runLength registers).pairwise

/-- **Precedence is a strict order.** So each register of a run precedes all that follow it there,
and they are as many words apart as their indices. -/
theorem precedes_strict_in_runs :
    (∀ a : Register, ¬ a.precedes a) ∧
    (∀ a b : Register, a.precedes b → ¬ b.precedes a) ∧
    (∀ a b c : Register, a.precedes b → b.precedes c → a.precedes c) ∧
    ∀ (registers : List Register) (m n : Nat) (a b : Register), m < n → n < runLength registers →
      registers[m]? = some a → registers[n]? = some b →
      a.precedes b ∧ ∃ i j, a.index? = some i ∧ b.index? = some j ∧ i < j ∧
        a.byteOffset.val < b.byteOffset.val ∧
        j - i = (b.byteOffset.val - a.byteOffset.val) / wordBytes := by
  refine ⟨Register.precedes_irrefl, ?_, fun _ _ _ => Register.precedes_trans, ?_⟩
  · intro a b hab hba
    exact Register.precedes_irrefl a (Register.precedes_trans hab hba)
  · intro registers m n a b hmn hn ha hb
    rw [← List.getElem?_take_of_lt (hmn.trans hn)] at ha
    rw [← List.getElem?_take_of_lt hn] at hb
    obtain ⟨hm', rfl⟩ := List.getElem?_eq_some_iff.mp ha
    obtain ⟨hn', rfl⟩ := List.getElem?_eq_some_iff.mp hb
    have hprecedes := List.pairwise_iff_getElem.mp (pairwise_precedes_run registers) m n hm' hn' hmn
    obtain ⟨i, j, hi, hj, hij, hoffset⟩ := Register.precedes_step hprecedes
    refine ⟨hprecedes, i, j, hi, hj, hij, ?_, ?_⟩
    · rw [hoffset]
      simp only [wordBytes]
      omega
    · rw [hoffset, Nat.add_sub_cancel_left, Nat.mul_div_cancel_left _ (by decide)]

def sensor (index : Text) (byteOffset : Word) : Register :=
  Register.addAll (.empty ("sensor".toList ++ index) byteOffset none)
    (List.filterMap (fun s : FieldSpec => s.field.toOption) [⟨"raw".toList ++ index, 0, 12, none⟩])

theorem precedes_strict_in_runs_sensors :
    let registers := [sensor "0".toList 0, sensor "2".toList 8, sensor "3".toList 12, sensor "9".toList 16]
    runLength registers = 3 ∧ (sensor "0".toList 0).precedes (sensor "3".toList 12) ∧
      ∃ i j, (sensor "0".toList 0).index? = some i ∧ (sensor "3".toList 12).index? = some j ∧ i < j ∧
        0 < 12 ∧ j - i = (12 - 0) / wordBytes := by
  intro registers
  have hlength : runLength registers = 3 := by cbv
  obtain ⟨-, -, -, hruns⟩ := precedes_strict_in_runs
  exact ⟨hlength, hruns registers 0 2 _ _ (by decide) (by rw [hlength]; decide) rfl rfl⟩

end RegisterMap
