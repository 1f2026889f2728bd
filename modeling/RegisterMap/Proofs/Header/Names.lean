import Mathlib
import RegisterMap.Header.Model
import RegisterMap.Proofs.Header.Origins
import RegisterMap.Proofs.Layout.Names
import RegisterMap.Proofs.Model.Ledger

/-!
# Names read from headers

Registers and fields are named by what was read as an identifier, in lowercase.
So all names of a peripheral that was read from a header are words, except for
its own, whatever stands in the header and in front of the names.
-/

namespace RegisterMap.Header

theorem isWordChar_toLower {c : Char} (h : isWordChar c) : isWordChar c.toLower := by
  by_cases hupper : c.isUpper
  · have hlower : c.toLower.isLower := by
      rw [Char.isLower_toLower_eq_isAlpha]
      simp [Char.isAlpha, hupper]
    simp [isWordChar, Char.isAlphanum, Char.isAlpha, hlower]
  · rwa [Char.toLower_eq_of_not_isUpper (by simpa using hupper)]

theorem isWord_lowercase {word : Text} (h : IsWord word) : IsWord (Text.lowercase word) := by
  refine ⟨?_, ?_⟩
  · intro hnil
    exact h.nonempty (List.map_eq_nil_iff.mp hnil)
  · rw [Text.lowercase, List.all_map]
    apply List.all_eq_true.mpr
    intro c hc
    exact isWordChar_toLower (List.all_eq_true.mp h.all_isWordChar c hc)

theorem isWord_registerName {word : Text} (h : IsWord word) : IsWord (registerName word) := by
  simp only [registerName]
  split
  · rename_i hstem
    exact isWord_lowercase (h.of_subset hstem.1 (List.take_subset ..))
  · exact isWord_lowercase h

theorem isWord_of_fieldComment? {macroPrefix s name rest : Text} {bits : BitRange}
    (h : fieldComment? macroPrefix s = some ((name, bits), rest)) : IsWord name := by
  obtain ⟨word, passed, hword, rfl, -⟩ := eq_append_of_fieldComment? h
  exact isWord_lowercase ⟨hword.nonempty, hword.all_isWordChar⟩

theorem isWord_of_address? {macroPrefix s rest : Text} {a : Address}
    (h : address? macroPrefix s = some (a, rest)) : IsWord a.name := by
  obtain ⟨⟨word, hword, hname⟩, -⟩ := address?_startsWith h
  rw [hname]
  exact isWord_registerName ⟨hword.nonempty, hword.all_isWordChar⟩

structure RegisterRecord.WellNamed (r : RegisterRecord) : Prop where
  name : IsWord r.name
  fields : ∀ f ∈ r.fields, IsWord f.name

theorem RegisterRecord.ReadIn.wellNamed {text macroPrefix : Text} {r : RegisterRecord}
    (h : r.ReadIn text macroPrefix) : r.WellNamed := by
  obtain ⟨start, rest, -, -, -, haddress, hfields⟩ := h
  refine ⟨isWord_of_address? haddress, fun f hf => ?_⟩
  obtain ⟨place, below, behind, -, -, hbits, -⟩ := hfields f hf
  exact isWord_of_fieldComment? hbits

theorem FieldRecord.describes_of_field {r : FieldRecord} {f : Field} (h : r.field.toOption = some f) :
    ∃ bitOffset width, FieldSpec.Describes ⟨r.name, bitOffset, width, r.description⟩ f := by
  unfold FieldRecord.field at h
  split at h
  · cases h
  · rename_i bitOffset width hbits
    refine ⟨bitOffset, width, ?_⟩
    by_cases hfits : FieldSpec.Fits ⟨r.name, bitOffset, width, r.description⟩
    · obtain ⟨g, hg, hdescribes⟩ := hfits.field
      rw [hg] at h
      cases h
      exact hdescribes
    · obtain ⟨e, he⟩ := FieldSpec.field_of_not_fits hfits
      rw [he] at h
      cases h

theorem RegisterRecord.exists_of_mem_fields_register {r : RegisterRecord} {f : Field} (h : f ∈ r.register.fields) :
    ∃ record ∈ r.fields, ∃ bitOffset width,
      FieldSpec.Describes ⟨record.name, bitOffset, width, record.description⟩ f := by
  rw [RegisterRecord.register, Register.fields_addAll] at h
  have hmem := (sortByKey_perm _ _).mem_iff.mp h
  obtain ⟨record, hrecord, hfield⟩ := List.mem_filterMap.mp hmem
  exact ⟨record, hrecord, FieldRecord.describes_of_field hfield⟩

theorem RegisterRecord.WellNamed.register {r : RegisterRecord} (h : r.WellNamed) : r.register.WellNamed := by
  constructor
  · rw [RegisterRecord.register, Register.name_addAll]
    exact h.name
  · intro f hf
    obtain ⟨record, hrecord, _, _, hdescribes⟩ := exists_of_mem_fields_register hf
    rw [hdescribes.name_eq]
    exact h.fields record hrecord

theorem exists_of_mem_registers_read {text name macroPrefix : Text} {description : Option Text} {r : Register}
    (h : r ∈ (read text name description macroPrefix).peripheral.registers) :
    ∃ record ∈ extract text macroPrefix, record.register = r := by
  simp only [read, Peripheral.registers_addAll] at h
  exact List.mem_map.mp ((sortByKey_perm _ _).mem_iff.mp h)

theorem read_wellNamed (text name : Text) (description : Option Text) (macroPrefix : Text) :
    ∀ r ∈ (read text name description macroPrefix).peripheral.registers, r.WellNamed := by
  intro r hr
  obtain ⟨record, hrecord, rfl⟩ := exists_of_mem_registers_read hr
  exact ((extract_read text macroPrefix).readIn record hrecord).wellNamed.register

end RegisterMap.Header
