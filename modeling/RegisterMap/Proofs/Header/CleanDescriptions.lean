import RegisterMap.Proofs.Header.CommentLines
import RegisterMap.Proofs.Text.LineEnds

/-!
# Clean descriptions

Whatever a comment looks like, its description is one line without blanks around it,
and it is never empty. So what was extracted is what is stored: the model has a
description just where the record has one.
-/

namespace RegisterMap.Header

open Text (Trimmed)

theorem trimmed_intercalate (sep : Text) : ∀ {lines : List Text}, (∀ line ∈ lines, Trimmed line ∧ line ≠ []) →
    Trimmed (sep.intercalate lines)
  | [], _ => Text.trimmed_trim []
  | [line], h => by
    rw [List.intercalate_singleton]
    exact (h line (List.mem_singleton_self line)).1
  | line :: next :: lines, h => by
    obtain ⟨⟨hline, hlineNe⟩, hrest⟩ := List.forall_mem_cons.mp h
    have hne : sep.intercalate (next :: lines) ≠ [] := by
      intro hnil
      have hnext := Text.subset_intercalate sep (List.mem_cons_self (a := next) (l := lines))
      rw [hnil] at hnext
      exact (hrest next (List.mem_cons_self ..)).2 (List.eq_nil_of_subset_nil hnext)
    rw [List.intercalate_cons_cons]
    exact hline.append (trimmed_intercalate sep hrest) hlineNe hne sep

/-- One line that says something, and neither starts nor ends in a blank. -/
structure IsClean (d : Text) : Prop where
  not_blank : ¬ d.all Text.isBlank
  no_lineFeed : '\n' ∉ d
  no_return : '\r' ∉ d
  trimmed : Trimmed d

namespace Comment

theorem blockText?_trimmed {body d : Text} (h : blockText? body = some d) : Trimmed d := by
  unfold blockText? at h
  split at h
  · cases h
  · rename_i lines hlines
    cases h
    apply trimmed_intercalate
    intro line hline
    obtain ⟨hmap, hne⟩ := List.mem_filter.mp hline
    obtain ⟨raw, -, rfl⟩ := List.mem_map.mp hmap
    exact ⟨Text.trimmed_trim _, of_decide_eq_true hne⟩

theorem fieldText?_trimmed {body d : Text} (h : fieldText? body = some d) : Trimmed d := by
  simp only [fieldText?] at h
  split at h
  · cases h
  · cases h
    exact Text.trimmed_trim _

section
variable {body d : Text} (hreturn : '\r' ∉ body)
include hreturn

theorem blockText?_isClean (h : blockText? body = some d) : IsClean d := by
  refine ⟨blockText?_not_blank h, blockText?_oneLine h, fun hmem => ?_, blockText?_trimmed h⟩
  rcases mem_of_blockText? h hmem with hblank | ⟨line, hline, hmem⟩
  · exact absurd hblank (by decide)
  · exact hreturn (Text.subset_of_mem_lines hline hmem)

theorem fieldText?_isClean (h : fieldText? body = some d) : IsClean d := by
  refine ⟨fieldText?_not_blank h, fieldText?_oneLine h, fun hmem => ?_, fieldText?_trimmed h⟩
  exact hreturn (List.mem_of_mem_filter (fieldText?_subset h hmem))

end

end Comment

theorem extract_isClean {text macroPrefix : Text} : ∀ r ∈ extract text macroPrefix, ∀ d ∈ r.descriptions,
    IsClean d := by
  intro r hr d hd
  obtain ⟨body, hbody, hread⟩ := ((extract_read text macroPrefix).readIn r hr).exists_body d hd
  have hreturn : '\r' ∉ body := fun hmem => Text.return_not_mem_unifyLineEnds text (hbody.subset hmem)
  rcases hread with hblock | hfield
  · exact Comment.blockText?_isClean hreturn hblock
  · exact Comment.fieldText?_isClean hreturn hfield

section
variable (text name macroPrefix : Text) (description : Option Text)

theorem registers_read : (read text name description macroPrefix).peripheral.registers =
    sortByKey (·.byteOffset.val) ((extract text macroPrefix).map RegisterRecord.register) :=
  Peripheral.registers_addAll _ _

/-- **Clean descriptions.** Each description of a register or a field is one line that says something,
without blanks around it. The model has the descriptions of the records, in the order of the
addresses and of the bits, and has none where the record has none. -/
theorem read_cleanDescriptions :
    (∀ r ∈ extract text macroPrefix, ∀ d ∈ r.descriptions, IsClean d) ∧
    (∀ r ∈ (read text name description macroPrefix).peripheral.registers, ∀ d ∈ r.descriptions,
      IsClean d.text) ∧
    List.Forall₂ RegisterRecord.Describes (sortByKey (·.offset.val) (extract text macroPrefix))
      (read text name description macroPrefix).peripheral.registers := by
  refine ⟨extract_isClean, fun r hr d hd => ?_, ?_⟩
  · obtain ⟨record, hrecord, rfl⟩ := exists_of_mem_registers_read hr
    exact extract_isClean record hrecord d.text (record.descriptions_register d hd)
  · rw [registers_read]
    apply forall₂_sortByKey (fun _ _ hd => by rw [hd.byteOffset_eq])
    rw [List.forall₂_map_right_iff, List.forall₂_same]
    intro record hrecord
    exact RegisterRecord.register_describes (registerRecords_notBlank _ _ _ record hrecord)

end

end RegisterMap.Header
