import Mathlib
import RegisterMap.Layout.Print
import RegisterMap.Proofs.Layout.Undescribed
import RegisterMap.Proofs.Text.Line

/-!
# Descriptions are comments only

A declaration prints its comments on lines of their own. Whichever of its
descriptions a register takes for a comment, the lines of code are those that
it has without any description.
-/

namespace RegisterMap

namespace Text

/-- Behind its spaces, the line starts with two slashes. -/
def isCommentLine (line : Text) : Bool := "//".toList.isPrefixOf (line.dropWhile (· = ' '))

def codeLines (text : Text) : List Text := text.lines.filter (!isCommentLine ·)

def withoutComments (text : Text) : Text := ['\n'].intercalate text.codeLines

theorem codeLines_unlines (ls : List Text) : codeLines (unlines ls) = ls.flatMap codeLines ++ [[]] := by
  have hempty : [([] : Text)].filter (!isCommentLine ·) = [[]] := rfl
  rw [codeLines, lines_unlines, List.filter_append, hempty, List.filter_flatMap]
  rfl

end Text

open Text (codeLines)

def OnOneLine (descriptions : List Description) : Prop := ∀ d ∈ descriptions, '\n' ∉ d.text

theorem onOneLine_append {ds es : List Description} :
    OnOneLine (ds ++ es) ↔ OnOneLine ds ∧ OnOneLine es :=
  List.forall_mem_append

section
variable {α : Type} {parts : List α} {descriptions : α → List Description}

theorem OnOneLine.of_flatMap (h : OnOneLine (parts.flatMap descriptions)) {a : α} (ha : a ∈ parts) :
    OnOneLine (descriptions a) :=
  fun d hd => h d (List.mem_flatMap.mpr ⟨a, ha, hd⟩)

end

@[simp] theorem lineFeed_not_mem_indent (level : Nat) : '\n' ∉ indent level := by
  simp [indent]

theorem codeLines_comment (level : Nat) {d : Description} (h : '\n' ∉ d.text) :
    codeLines (indent level ++ "// ".toList ++ d.text) = [] := by
  have hline : '\n' ∉ indent level ++ "// ".toList ++ d.text := by
    simp [h]
  have hcomment : Text.isCommentLine (indent level ++ "// ".toList ++ d.text) := by
    rw [Text.isCommentLine, List.append_assoc, List.dropWhile_append_of_pos]
    · simp
    · intro c hc
      simp [List.eq_of_mem_replicate hc]
  rw [codeLines, Text.lines_of_not_mem hline, List.filter_singleton, hcomment]
  rfl

theorem codeLines_commentLines (level : Nat) {comment : Option Description}
    (h : OnOneLine comment.toList) : (commentLines level comment).flatMap codeLines = [] := by
  cases comment with
  | none => rfl
  | some d =>
    simp only [commentLines, List.flatMap_singleton]
    exact codeLines_comment level (h d (by simp))

/-! ## Printed declarations -/

def BitMember.comments : BitMember → List Description
  | .filler _ => []
  | .bits comment _ _ => comment.toList

def BitType.comments (t : BitType) : List Description :=
  t.comment.toList ++ t.members.flatMap BitMember.comments

def Slot.comments : Slot → List Description
  | .padding .. => []
  | .word comment .. => comment.toList
  | .inline comment members => comment.toList ++ members.flatMap BitMember.comments
  | .typed comment .. => comment.toList

def Aggregate.comments (a : Aggregate) : List Description :=
  a.comment.toList ++ a.slots.flatMap Slot.comments

theorem codeLines_flatMap {α : Type} {lines : α → List Text} {comments : α → List Description}
    {strip : α → α} (hpart : ∀ a, OnOneLine (comments a) →
      (lines a).flatMap codeLines = (lines (strip a)).flatMap codeLines) :
    ∀ {parts : List α}, OnOneLine (parts.flatMap comments) →
      (parts.flatMap lines).flatMap codeLines = ((parts.map strip).flatMap lines).flatMap codeLines
  | [], _ => rfl
  | a :: parts, h => by
    rw [List.flatMap_cons, onOneLine_append] at h
    simp only [List.map_cons, List.flatMap_cons, List.flatMap_append]
    rw [hpart a h.1, codeLines_flatMap hpart h.2]

theorem BitMember.codeLines_lines (level : Nat) (m : BitMember) (h : OnOneLine m.comments) :
    (m.lines level).flatMap codeLines = (m.uncommented.lines level).flatMap codeLines := by
  cases m with
  | filler width => rfl
  | bits comment name width =>
    simp only [lines, uncommented, List.flatMap_append]
    rw [codeLines_commentLines level h]
    rfl

theorem BitType.codeLines_lines (t : BitType) (h : OnOneLine t.comments) :
    t.lines.flatMap codeLines = t.uncommented.lines.flatMap codeLines := by
  obtain ⟨hcomment, hmembers⟩ := onOneLine_append.mp h
  simp only [lines, uncommented, List.flatMap_append, List.flatMap_cons]
  rw [codeLines_commentLines 0 hcomment, codeLines_flatMap (BitMember.codeLines_lines 1) hmembers]
  rfl

theorem Slot.codeLines_lines (s : Slot) (h : OnOneLine s.comments) :
    s.lines.flatMap codeLines = s.uncommented.lines.flatMap codeLines := by
  cases s with
  | padding => rfl
  | word comment name length =>
    simp only [lines, uncommented, List.flatMap_append]
    rw [codeLines_commentLines 1 h]
    rfl
  | inline comment members =>
    obtain ⟨hcomment, hmembers⟩ := onOneLine_append.mp h
    simp only [lines, uncommented, List.flatMap_append, List.flatMap_cons]
    rw [codeLines_commentLines 1 hcomment, codeLines_flatMap (BitMember.codeLines_lines 2) hmembers]
    rfl
  | typed comment type name length =>
    simp only [lines, uncommented, List.flatMap_append]
    rw [codeLines_commentLines 1 h]
    rfl

theorem Aggregate.codeLines_lines (a : Aggregate) (h : OnOneLine a.comments) :
    a.lines.flatMap codeLines = a.uncommented.lines.flatMap codeLines := by
  obtain ⟨hcomment, hslots⟩ := onOneLine_append.mp h
  simp only [lines, uncommented, List.flatMap_append, List.flatMap_cons]
  rw [codeLines_commentLines 0 hcomment, codeLines_flatMap Slot.codeLines_lines hslots]
  rfl

/-! ## Comments come from descriptions -/

namespace Register

def descriptions (r : Register) : List Description :=
  r.description.toList ++ r.fields.filterMap (·.description)

theorem descriptions_template (r : Register) : r.template.descriptions = r.descriptions := by
  cases hn : IndexedName.ofText? r.name with
  | none => simp only [template, hn]
  | some n =>
    have hdescription : r.template.description = r.description := by
      simp only [template, hn, description_addAll]
      rfl
    rw [descriptions, hdescription, fields_template hn, List.filterMap_map]
    rfl

theorem comments_bitSpansFrom (owner : Text) : ∀ (fields : List Field) (reached : Nat),
    ((bitSpansFrom reached fields).map (·.member owner)).flatMap BitMember.comments =
      fields.filterMap (·.description)
  | [], reached => by
    simp only [bitSpansFrom]
    split <;> rfl
  | f :: fields, reached => by
    have hgap : ((if reached < f.bitOffset then [BitSpan.reserved (f.bitOffset - reached)] else []).map
        (·.member owner)).flatMap BitMember.comments = [] := by
      split <;> rfl
    rw [bitSpansFrom, List.map_append, List.flatMap_append, hgap, List.map_cons, List.flatMap_cons,
      comments_bitSpansFrom owner fields, List.filterMap_cons]
    cases h : f.description <;> simp [BitSpan.member, BitMember.comments, h]

theorem comments_bitMembers (r : Register) (owner : Text) :
    (r.bitMembers owner).flatMap BitMember.comments = r.fields.filterMap (·.description) :=
  comments_bitSpansFrom owner r.fields 0

theorem comments_bitType? {r : Register} {peripheral : Text} {length : Option Nat} {t : BitType}
    (h : r.bitType? peripheral length = some t) : t.comments = r.descriptions := by
  unfold bitType? at h
  split at h
  · cases h
  · cases h
    rw [BitType.comments, comments_bitMembers]
    rfl

theorem comments_slot (r : Register) (peripheral : Text) (length : Option Nat) :
    (r.slot peripheral length).comments ⊆ r.descriptions := by
  unfold slot
  split
  · intro d hd
    obtain ⟨f, hf, hdescription⟩ := Option.bind_eq_some_iff.mp (Option.mem_toList.mp hd)
    exact List.mem_append_right _ (List.mem_filterMap.mpr ⟨f, List.mem_of_mem_head? hf, hdescription⟩)
  split
  · rw [Slot.comments, comments_bitMembers]
    exact List.Subset.refl _
  · exact List.subset_append_left ..

end Register

namespace Layout

variable {l : Layout}

theorem comments_bitTypes_subset {ds : List Description}
    (h : ∀ m ∈ l.members, ∀ r ∈ m.register?, r.descriptions ⊆ ds) : l.bitTypes.flatMap BitType.comments ⊆ ds := by
  refine List.forall_mem_flatMap.mpr (forall_bitTypes (Q := fun t => t.comments ⊆ ds) h ?_)
  intro r hr length t ht
  rwa [Register.comments_bitType? ht]

theorem comments_aggregate_subset {ds : List Description} (hdescription : l.description.toList ⊆ ds)
    (h : ∀ m ∈ l.members, ∀ r ∈ m.register?, r.descriptions ⊆ ds) : l.aggregate.comments ⊆ ds := by
  have hslots : ∀ s ∈ l.aggregate.slots, s.comments ⊆ ds := by
    refine forall_slots (Q := fun s => s.comments ⊆ ds) h (fun _ _ => List.nil_subset ds) ?_
    exact fun r hr length => List.Subset.trans (r.comments_slot l.name length) hr
  exact List.append_subset.mpr ⟨hdescription, List.forall_mem_flatMap.mpr hslots⟩

theorem codeLines_types (h : OnOneLine (l.bitTypes.flatMap BitType.comments)) :
    codeLines l.types = codeLines l.undescribed.types := by
  rw [types, types, Text.codeLines_unlines, Text.codeLines_unlines, bitTypes_undescribed,
    codeLines_flatMap BitType.codeLines_lines h]

theorem codeLines_body (h : OnOneLine l.aggregate.comments) :
    codeLines l.body = codeLines l.undescribed.body := by
  rw [body, body, Text.codeLines_unlines, Text.codeLines_unlines, aggregate_undescribed,
    Aggregate.codeLines_lines _ h]

theorem codeLines_text (htypes : OnOneLine (l.bitTypes.flatMap BitType.comments))
    (hbody : OnOneLine l.aggregate.comments) : codeLines l.text = codeLines l.undescribed.text := by
  rw [text, text, types, types, body, body, ← Text.unlines_append, ← Text.unlines_append,
    Text.codeLines_unlines, Text.codeLines_unlines, List.flatMap_append, List.flatMap_append,
    bitTypes_undescribed, aggregate_undescribed, codeLines_flatMap BitType.codeLines_lines htypes,
    Aggregate.codeLines_lines _ hbody]

end Layout

namespace Peripheral

def descriptions (p : Peripheral) : List Description :=
  p.description.toList ++ p.registers.flatMap Register.descriptions

theorem comments_subset_of_layout {p : Peripheral} {l : Layout} (hl : p.layout = .ok l) :
    l.bitTypes.flatMap BitType.comments ⊆ p.descriptions ∧ l.aggregate.comments ⊆ p.descriptions := by
  obtain ⟨-, hdescription, hplan⟩ := layout_eq_ok hl
  have hmembers : ∀ m ∈ l.members, ∀ r ∈ m.register?, r.descriptions ⊆ p.descriptions := by
    refine forall_register?_of_plan (P := fun r => r.descriptions ⊆ p.descriptions) ?_ ?_ hplan
    · intro r hr
      rwa [r.descriptions_template]
    · intro r hr d hd
      exact List.mem_append_right _ (List.mem_flatMap.mpr ⟨r, hr, hd⟩)
  exact ⟨Layout.comments_bitTypes_subset hmembers,
    Layout.comments_aggregate_subset (hdescription ▸ List.subset_append_left ..) hmembers⟩

theorem onOneLine_of_layout {p : Peripheral} {l : Layout} (hlines : OnOneLine p.descriptions)
    (hl : p.layout = .ok l) :
    OnOneLine (l.bitTypes.flatMap BitType.comments) ∧ OnOneLine l.aggregate.comments := by
  obtain ⟨htypes, hbody⟩ := comments_subset_of_layout hl
  exact ⟨fun d hd => hlines d (htypes hd), fun d hd => hlines d (hbody hd)⟩

/-- **Descriptions are comments only.** Without its descriptions a peripheral has the
same layout, or fails likewise, and the text differs in comment lines alone. -/
theorem layout_ignores_descriptions {p : Peripheral} (hlines : OnOneLine p.descriptions) :
    p.undescribed.layout = p.layout.map Layout.undescribed ∧
    ∀ l, p.layout = .ok l →
      l.undescribed.bitTypes = l.bitTypes.map BitType.uncommented ∧
      l.undescribed.aggregate = l.aggregate.uncommented ∧
      l.types.withoutComments = l.undescribed.types.withoutComments ∧
      l.body.withoutComments = l.undescribed.body.withoutComments ∧
      l.text.withoutComments = l.undescribed.text.withoutComments := by
  refine ⟨p.layout_undescribed, ?_⟩
  intro l hl
  obtain ⟨htypes, hbody⟩ := onOneLine_of_layout hlines hl
  refine ⟨l.bitTypes_undescribed, l.aggregate_undescribed, ?_, ?_, ?_⟩
  · rw [Text.withoutComments, Layout.codeLines_types htypes]
    rfl
  · rw [Text.withoutComments, Layout.codeLines_body hbody]
    rfl
  · rw [Text.withoutComments, Layout.codeLines_text htypes hbody]
    rfl

def describedSample : Peripheral :=
  addAll (.empty "dev".toList (Description.ofText? "A device.".toList))
    (List.filterMap (fun s : RegisterSpec => s.register.toOption)
      [⟨"count".toList, 0, "Not printed.".toList, [⟨"count".toList, 0, 32, "Events.".toList⟩]⟩,
        ⟨"ctrl".toList, 4, "Control.".toList, [⟨"en".toList, 0, 1, "Enable.".toList⟩]⟩,
        ⟨"ch0_ctrl".toList, 8, "Channel 0.".toList,
          [⟨"ch0_en".toList, 0, 1, "Enable 0.".toList⟩, ⟨"mode".toList, 4, 2, "Mode 0.".toList⟩]⟩,
        ⟨"ch1_ctrl".toList, 12, none, [⟨"ch1_en".toList, 0, 1, none⟩, ⟨"mode".toList, 4, 2, none⟩]⟩,
        ⟨"mode".toList, 20, "Mode.".toList,
          [⟨"low".toList, 0, 4, "Low.".toList⟩, ⟨"high".toList, 8, 4, "High.".toList⟩]⟩])

theorem layout_ignores_descriptions_sample :
    OnOneLine describedSample.descriptions ∧
    ∃ l, describedSample.layout = .ok l ∧ l.text ≠ l.undescribed.text ∧
      describedSample.undescribed.layout = describedSample.layout.map Layout.undescribed ∧
      l.text.withoutComments = l.undescribed.text.withoutComments := by
  have hlines : OnOneLine describedSample.descriptions := by
    unfold OnOneLine
    decide +kernel
  cases hl : describedSample.layout with
  | error e =>
    have hok : describedSample.layout.isOk = true := by decide +kernel
    rw [hl] at hok
    cases hok
  | ok l =>
    obtain ⟨hcommutes, htexts⟩ := layout_ignores_descriptions hlines
    obtain ⟨-, -, -, -, htext⟩ := htexts l hl
    have hdiffer : describedSample.layout.toOption.map (fun l => (l.text = l.undescribed.text : Bool)) =
        some false := by
      decide +kernel
    rw [hl] at hdiffer
    refine ⟨hlines, l, rfl, ?_, hl ▸ hcommutes, htext⟩
    simpa [Except.toOption] using hdiffer

end Peripheral

end RegisterMap
