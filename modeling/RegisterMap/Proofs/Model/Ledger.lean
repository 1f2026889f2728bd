import Mathlib
import RegisterMap.Draft
import RegisterMap.Proofs.Model.StableOrder

/-!
# Drafts keep their ledger in order

The ledger of a draft takes down what was asked for, as it was asked for: every
entry goes to the end of its list. A draft holds what its ledger lists, put in
order by a stable sort. One edit keeps it so (`Ledger.Describes.step`), and so
does any run of edits.
-/

namespace RegisterMap

/-- A text is stored as it is unless it is blank, then not at all. -/
structure Description.Keeps (asked : Option Text) (stored : Option Description) : Prop where
  text_eq : stored.map (·.text) = asked.filter fun t => !t.all Text.isBlank
  not_blank : ∀ d ∈ stored, ¬ d.text.all Text.isBlank

theorem Description.keeps_ofOption? (asked : Option Text) :
    Description.Keeps asked (Description.ofOption? asked) where
  text_eq := by
    cases asked with
    | none => rfl
    | some t =>
      simp only [ofOption?, Option.bind_some, ofText?]
      split
      · rename_i h
        simp [Option.filter, h]
      · rename_i h
        simp [Option.filter, h]
  not_blank := fun d _ => d.not_blank

namespace FieldSpec

def Fits (s : FieldSpec) : Prop := 1 ≤ s.width ∧ s.bitOffset + s.width ≤ wordBits

instance (s : FieldSpec) : Decidable s.Fits := inferInstanceAs (Decidable (_ ∧ _))

/-- The field is the one asked for, and its numbers lost nothing by being stored in few bits. -/
structure Describes (s : FieldSpec) (f : Field) : Prop where
  name_eq : f.name = s.name
  bitOffset_eq : f.bitOffset = s.bitOffset
  width_eq : f.width = s.width
  description : Description.Keeps s.description f.description
  width_pos : 1 ≤ f.width
  end_le : f.bitOffset + f.width ≤ wordBits
  bitOffset_kept : Field.kept 32 s.bitOffset = s.bitOffset
  width_kept : Field.kept 64 s.width = s.width

theorem Fits.field {s : FieldSpec} (h : s.Fits) : ∃ f, s.field = .ok f ∧ s.Describes f := by
  obtain ⟨hwidth, hend⟩ := h
  have hlt : s.bitOffset < wordBits := by omega
  have hle : s.width ≤ wordBits := by omega
  have hbitOffset : Field.kept 32 s.bitOffset = s.bitOffset := Field.kept_of_lt (by decide) hlt
  have hkept : Field.kept 64 s.width = s.width :=
    Field.kept_of_lt (by decide) (Nat.lt_of_le_of_lt hle (by decide))
  refine ⟨⟨s.name, Field.kept 32 s.bitOffset, Field.kept 64 s.width,
    Description.ofOption? s.description, by omega, by omega⟩, ?_, ?_⟩
  · rw [FieldSpec.field, dif_neg (Nat.not_le.mpr hlt), dif_neg (by omega), dif_neg (by omega)]
  · exact {
      name_eq := rfl
      bitOffset_eq := hbitOffset
      width_eq := hkept
      description := Description.keeps_ofOption? _
      width_pos := by
        show 1 ≤ Field.kept 64 s.width
        rw [hkept]
        exact hwidth
      end_le := by
        show Field.kept 32 s.bitOffset + Field.kept 64 s.width ≤ wordBits
        rw [hbitOffset, hkept]
        exact hend
      bitOffset_kept := hbitOffset
      width_kept := hkept }

theorem field_of_not_fits {s : FieldSpec} (h : ¬ s.Fits) : ∃ e, s.field = .error e := by
  unfold FieldSpec.field
  split
  · exact ⟨_, rfl⟩
  split
  · exact ⟨_, rfl⟩
  split
  · exact ⟨_, rfl⟩
  · exact absurd ⟨by omega, by omega⟩ h

theorem Describes.renamed {s : FieldSpec} {f : Field} (h : s.Describes f) (name : Text) :
    ({ s with name } : FieldSpec).Describes (f.renamed name) where
  name_eq := rfl
  bitOffset_eq := h.bitOffset_eq
  width_eq := h.width_eq
  description := h.description
  width_pos := h.width_pos
  end_le := h.end_le
  bitOffset_kept := h.bitOffset_kept
  width_kept := h.width_kept

theorem mapM_field : ∀ {specs : List FieldSpec}, (∀ s ∈ specs, s.Fits) →
    ∃ fields, specs.mapM FieldSpec.field = .ok fields ∧ List.Forall₂ Describes specs fields
  | [], _ => ⟨[], rfl, .nil⟩
  | s :: specs, h => by
    obtain ⟨hs, hspecs⟩ := List.forall_mem_cons.mp h
    obtain ⟨f, hf, hdescribes⟩ := hs.field
    obtain ⟨fields, hfields, hall⟩ := mapM_field hspecs
    refine ⟨f :: fields, ?_, .cons hdescribes hall⟩
    rw [List.mapM_cons, hf, hfields]
    rfl

theorem mapM_field_of_not_fits : ∀ {specs : List FieldSpec}, (¬ ∀ s ∈ specs, s.Fits) →
    ∃ e, specs.mapM FieldSpec.field = .error e
  | [], h => absurd (by simp) h
  | s :: specs, h => by
    rw [List.mapM_cons]
    by_cases hs : s.Fits
    · obtain ⟨f, hf, -⟩ := hs.field
      obtain ⟨e, he⟩ := mapM_field_of_not_fits fun hspecs =>
        h (List.forall_mem_cons.mpr ⟨hs, hspecs⟩)
      rw [hf, he]
      exact ⟨e, rfl⟩
    · obtain ⟨e, he⟩ := field_of_not_fits hs
      rw [he]
      exact ⟨e, rfl⟩

end FieldSpec

namespace RegisterSpec

def add (s : RegisterSpec) (f : FieldSpec) : RegisterSpec := { s with fields := s.fields ++ [f] }

def sortedFields (s : RegisterSpec) : List FieldSpec := sortByKey FieldSpec.bitOffset s.fields

structure Describes (s : RegisterSpec) (r : Register) : Prop where
  name_eq : r.name = s.name
  byteOffset_eq : r.byteOffset = s.byteOffset
  description : Description.Keeps s.description r.description
  fields : List.Forall₂ FieldSpec.Describes s.sortedFields r.fields

theorem Describes.add {s : RegisterSpec} {r : Register} {fs : FieldSpec} {f : Field}
    (h : s.Describes r) (hf : fs.Describes f) : (s.add fs).Describes (r.add f) where
  name_eq := h.name_eq
  byteOffset_eq := h.byteOffset_eq
  description := h.description
  fields := by
    rw [sortedFields, RegisterSpec.add, sortByKey_concat]
    exact forall₂_insertByKey (fun _ _ hd => hd.bitOffset_eq.symm) hf h.fields

theorem Describes.addAll {s : RegisterSpec} {r : Register} {specs : List FieldSpec}
    {fields : List Field} (h : s.Describes r) (hfields : List.Forall₂ FieldSpec.Describes specs fields) :
    ({ s with fields := s.fields ++ specs } : RegisterSpec).Describes (r.addAll fields) := by
  induction hfields generalizing s r with
  | nil => simpa [Register.addAll] using h
  | @cons fs f specs fields hf _ ih =>
    have hrest := ih (h.add hf)
    simp only [RegisterSpec.add, List.append_assoc, List.singleton_append] at hrest
    exact hrest

theorem describes_empty (s : RegisterSpec) :
    ({ s with fields := [] } : RegisterSpec).Describes
      (.empty s.name s.byteOffset (Description.ofOption? s.description)) where
  name_eq := rfl
  byteOffset_eq := rfl
  description := Description.keeps_ofOption? _
  fields := by
    rw [sortedFields, sortByKey_of_sorted .nil]
    exact .nil

theorem register_of_fits {s : RegisterSpec} (h : ∀ f ∈ s.fields, f.Fits) :
    ∃ r, s.register = .ok r ∧ s.Describes r := by
  obtain ⟨fields, hfields, hdescribes⟩ := FieldSpec.mapM_field h
  refine ⟨_, ?_, s.describes_empty.addAll hdescribes⟩
  rw [RegisterSpec.register, hfields]
  rfl

theorem register_of_not_fits {s : RegisterSpec} (h : ¬ ∀ f ∈ s.fields, f.Fits) :
    ∃ e, s.register = .error e := by
  obtain ⟨e, he⟩ := FieldSpec.mapM_field_of_not_fits h
  refine ⟨e, ?_⟩
  rw [RegisterSpec.register, he]
  rfl

end RegisterSpec

/-! ## Ledgers -/

structure Ledger where
  name : Text
  description : Option Text
  committed : List RegisterSpec
  current : Option RegisterSpec

namespace Ledger

def empty (name : Text) (description : Option Text) : Ledger := ⟨name, description, [], none⟩

/-- Takes down an edit, unless a field does not fit or there is nothing to edit. -/
def record (l : Ledger) : Draft.Edit → Ledger
  | .start spec => if ∀ f ∈ spec.fields, f.Fits then { l with current := some spec } else l
  | .add spec => if spec.Fits then { l with current := l.current.map (·.add spec) } else l
  | .copy index name =>
    { l with
      current := l.current.map fun s =>
        match s.sortedFields[index]? with
        | none => s
        | some f => s.add { f with name } }
  | .commit =>
    match l.current with
    | none => l
    | some s => { l with committed := l.committed ++ [s], current := none }

/-- The draft holds what the ledger lists, in order. -/
structure Describes (l : Ledger) (d : Draft) : Prop where
  name_eq : d.peripheral.name = l.name
  description : Description.Keeps l.description d.peripheral.description
  registers : List.Forall₂ RegisterSpec.Describes (sortByKey (·.byteOffset.val) l.committed)
    d.peripheral.registers
  current : Option.Rel RegisterSpec.Describes l.current d.current

theorem describes_empty (name : Text) (description : Option Text) :
    (Ledger.empty name description).Describes (.empty name description) where
  name_eq := rfl
  description := Description.keeps_ofOption? _
  registers := by
    rw [Ledger.empty, sortByKey_of_sorted .nil]
    exact .nil
  current := .none

theorem Describes.step {l : Ledger} {d : Draft} (h : l.Describes d) (e : Draft.Edit) :
    (l.record e).Describes (d.step e) := by
  obtain ⟨name, description, committed, listed⟩ := l
  obtain ⟨peripheral, current⟩ := d
  obtain ⟨hname, hdescription, hregisters, hcurrent⟩ := h
  cases e with
  | start spec =>
    by_cases hfits : ∀ f ∈ spec.fields, f.Fits
    · obtain ⟨r, hr, hdescribes⟩ := RegisterSpec.register_of_fits hfits
      rw [record, if_pos hfits, Draft.step, Draft.apply, hr]
      exact ⟨hname, hdescription, hregisters, .some hdescribes⟩
    · obtain ⟨error, herror⟩ := RegisterSpec.register_of_not_fits hfits
      rw [record, if_neg hfits, Draft.step, Draft.apply, herror]
      exact ⟨hname, hdescription, hregisters, hcurrent⟩
  | add spec =>
    by_cases hfits : spec.Fits
    · obtain ⟨f, hf, hdescribes⟩ := hfits.field
      rw [record, if_pos hfits]
      cases hcurrent with
      | none => exact ⟨hname, hdescription, hregisters, .none⟩
      | some hr =>
        simp only [Draft.step, Draft.apply, hf]
        exact ⟨hname, hdescription, hregisters, .some (hr.add hdescribes)⟩
    · obtain ⟨error, herror⟩ := FieldSpec.field_of_not_fits hfits
      rw [record, if_neg hfits]
      cases hcurrent with
      | none => exact ⟨hname, hdescription, hregisters, .none⟩
      | some hr =>
        simp only [Draft.step, Draft.apply, herror]
        exact ⟨hname, hdescription, hregisters, .some hr⟩
  | copy index copyName =>
    cases hcurrent with
    | none => exact ⟨hname, hdescription, hregisters, .none⟩
    | @some s r hr =>
      simp only [record, Draft.step, Draft.apply, Option.map_some]
      have hlength := hr.fields.length_eq
      by_cases hindex : index < r.fields.length
      · have hindex' : index < s.sortedFields.length := hlength ▸ hindex
        have hf : (s.sortedFields[index]).Describes r.fields[index] :=
          (List.forall₂_iff_get.mp hr.fields).2 index hindex' hindex
        rw [List.getElem?_eq_getElem hindex, List.getElem?_eq_getElem hindex']
        exact ⟨hname, hdescription, hregisters, .some (hr.add (hf.renamed copyName))⟩
      · rw [List.getElem?_eq_none (Nat.le_of_not_lt hindex),
          List.getElem?_eq_none (hlength ▸ Nat.le_of_not_lt hindex)]
        exact ⟨hname, hdescription, hregisters, .some hr⟩
  | commit =>
    cases hcurrent with
    | none => exact ⟨hname, hdescription, hregisters, .none⟩
    | @some s r hr =>
      refine ⟨hname, hdescription, ?_, .none⟩
      simp only [record]
      -- The ledger is sorted at the end, the peripheral at each commit.
      rw [sortByKey_concat]
      exact forall₂_insertByKey (fun s r hd => by rw [hd.byteOffset_eq]) hr hregisters

theorem Describes.foldl {l : Ledger} {d : Draft} (h : l.Describes d) (edits : List Draft.Edit) :
    (edits.foldl record l).Describes (edits.foldl Draft.step d) := by
  induction edits generalizing l d with
  | nil => exact h
  | cons e edits ih => exact ih (h.step e)

theorem Describes.record_of_error {l : Ledger} {d : Draft} (h : l.Describes d) {e : Draft.Edit}
    {error : Draft.EditError} (he : d.apply e = .error error) : l.record e = l := by
  obtain ⟨name, description, committed, listed⟩ := l
  obtain ⟨peripheral, current⟩ := d
  have hcurrent : Option.Rel RegisterSpec.Describes listed current := h.current
  cases e with
  | start spec =>
    refine if_neg fun hfits => ?_
    obtain ⟨r, hr, -⟩ := RegisterSpec.register_of_fits hfits
    rw [Draft.apply, hr] at he
    cases he
  | add spec =>
    cases hcurrent with
    | none => simp only [record, Option.map_none, ite_self]
    | some hr =>
      refine if_neg fun hfits => ?_
      obtain ⟨f, hf, -⟩ := hfits.field
      simp only [Draft.apply, hf] at he
      cases he
  | copy index copyName =>
    cases hcurrent with
    | none => rfl
    | @some s r hr =>
      simp only [Draft.apply] at he
      split at he
      · rename_i hnone
        have hle := List.getElem?_eq_none_iff.mp hnone
        rw [← hr.fields.length_eq] at hle
        simp only [record, Option.map_some, List.getElem?_eq_none hle]
      · cases he
  | commit =>
    cases hcurrent with
    | none => rfl
    | some hr => cases he

end Ledger

/-! ## Reachable drafts -/

theorem Draft.step_of_error {d : Draft} {e : Edit} {error : EditError} (he : d.apply e = .error error) :
    d.step e = d := by
  rw [Draft.step, he]

/-- **Drafts are in order.** After any edits, a draft holds what its ledger lists. The last two
parts are about where an element is put: at any index that parts the list, and there is one. -/
theorem drafts_in_order (name : Text) (description : Option Text) (edits : List Draft.Edit) :
    let d := edits.foldl Draft.step (.empty name description)
    let l := edits.foldl Ledger.record (.empty name description)
    l.Describes d ∧
    (∀ e error, d.apply e = .error (.field error) → d.step e = d ∧ l.record e = l) ∧
    (∀ (r : Register) (f : Field), (∃ i, PartsAt (·.bitOffset ≤ f.bitOffset) r.fields i) ∧
      ∀ i, PartsAt (·.bitOffset ≤ f.bitOffset) r.fields i →
        (r.add f).fields = r.fields.insertIdx i f) ∧
    ∀ (p : Peripheral) (r : Register),
      (∃ i, PartsAt (·.byteOffset.val ≤ r.byteOffset.val) p.registers i) ∧
      ∀ i, PartsAt (·.byteOffset.val ≤ r.byteOffset.val) p.registers i →
        (p.add r).registers = p.registers.insertIdx i r := by
  intro d l
  have h : l.Describes d := (Ledger.describes_empty name description).foldl edits
  refine ⟨h, ?_, ?_, ?_⟩
  · intro e error he
    exact ⟨Draft.step_of_error he, h.record_of_error he⟩
  · intro r f
    exact ⟨exists_partsAt _ r.sorted, fun i => insertByKey_eq_insertIdx⟩
  · intro p r
    exact ⟨exists_partsAt _ p.sorted, fun i => insertByKey_eq_insertIdx⟩

def modeAndReady (byteOffset : Word) : List Draft.Edit :=
  [.start ⟨"ctrl".toList, byteOffset, some " ".toList, []⟩, .add ⟨"mode".toList, 4, 2, none⟩,
    .add ⟨"ready".toList, 4, 1, none⟩, .copy 0 "shadow".toList]

theorem drafts_in_order_misfit :
    ((modeAndReady 8).foldl Draft.step (.empty "dev".toList none)).current.map
        (·.fields.map Field.name) = some ["mode".toList, "ready".toList, "shadow".toList] ∧
    ((modeAndReady 8).foldl Draft.step (.empty "dev".toList none)).apply
        (.add ⟨"wide".toList, 30, 4, none⟩) = .error (.field (.span 30 4)) ∧
    ((modeAndReady 8).foldl Draft.step (.empty "dev".toList none)).step
        (.add ⟨"wide".toList, 30, 4, none⟩) =
      (modeAndReady 8).foldl Draft.step (.empty "dev".toList none) := by
  have herror : ((modeAndReady 8).foldl Draft.step (.empty "dev".toList none)).apply
      (.add ⟨"wide".toList, 30, 4, none⟩) = .error (.field (.span 30 4)) := by
    rfl
  exact ⟨by decide, herror, ((drafts_in_order "dev".toList none (modeAndReady 8)).2.1 _ _ herror).1⟩

end RegisterMap
