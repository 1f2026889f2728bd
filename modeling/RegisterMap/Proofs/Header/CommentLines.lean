import RegisterMap.Proofs.Header.Kept
import RegisterMap.Proofs.Header.Names
import RegisterMap.Proofs.Layout.Splicing

/-!
# Comments from headers, as C reads them

Whatever a comment of a header looks like, its description is one line. Blanks are
taken off its end, and a full stop, but a backslash is not.
-/

namespace RegisterMap.Header

open Text (Continues spliced)

namespace Comment

theorem fieldText?_subset {body d : Text} (h : fieldText? body = some d) : d ⊆ body.filter (· ≠ '\n') := by
  simp only [fieldText?] at h
  split at h
  · cases h
  · cases h
    have hstop (s : Text) : dropFullStop s ⊆ s := by
      unfold dropFullStop
      split
      · exact List.dropLast_subset s
      · exact List.Subset.refl s
    intro c hc
    exact (List.rdropWhile_prefix Text.isBlank _).subset (hstop _ (Text.trim_subset _ hc))

theorem fieldText?_oneLine {body d : Text} (h : fieldText? body = some d) : '\n' ∉ d := fun hmem =>
  absurd (List.mem_filter.mp (fieldText?_subset h hmem)).2 (by decide)

theorem mem_of_mem_intercalate {c : Char} {sep : Text} : ∀ {ls : List Text}, c ∈ sep.intercalate ls →
    c ∈ sep ∨ ∃ line ∈ ls, c ∈ line
  | [], h => by simp at h
  | [line], h => by
    rw [List.intercalate_singleton] at h
    exact .inr ⟨line, List.mem_singleton_self line, h⟩
  | line :: next :: ls, h => by
    rw [List.intercalate_cons_cons, List.append_assoc, List.mem_append, List.mem_append] at h
    rcases h with h | h | h
    · exact .inr ⟨line, List.mem_cons_self .., h⟩
    · exact .inl h
    · rcases mem_of_mem_intercalate h with h | ⟨other, hother, h⟩
      · exact .inl h
      · exact .inr ⟨other, List.mem_cons_of_mem line hother, h⟩

theorem undecorated_subset (line : Text) : undecorated line ⊆ line :=
  List.Subset.trans (Text.trim_subset _) (List.Subset.trans (List.dropWhile_subset _) (Text.trim_subset line))

theorem mem_of_blockText? {body d : Text} (h : blockText? body = some d) {c : Char} (hc : c ∈ d) :
    c = ' ' ∨ ∃ line ∈ body.lines, c ∈ line := by
  unfold blockText? at h
  split at h
  · cases h
  · rename_i lines hlines
    cases h
    rcases mem_of_mem_intercalate hc with hblank | ⟨line, hline, hmem⟩
    · exact .inl (List.mem_singleton.mp hblank)
    · obtain ⟨raw, hraw, rfl⟩ := List.mem_map.mp (List.mem_filter.mp hline).1
      exact .inr ⟨raw, hraw, undecorated_subset raw hmem⟩

theorem blockText?_oneLine {body d : Text} (h : blockText? body = some d) : '\n' ∉ d := by
  intro hmem
  rcases mem_of_blockText? h hmem with hblank | ⟨line, hline, hmem⟩
  · exact absurd hblank (by decide)
  · exact Text.lineFeed_not_mem_of_mem_lines hline hmem

end Comment

/-! ## Records -/

def RegisterRecord.descriptions (r : RegisterRecord) : List Text :=
  r.description.toList ++ r.fields.filterMap (·.description)

theorem RegisterRecord.ReadIn.exists_body {text macroPrefix : Text} {r : RegisterRecord}
    (h : r.ReadIn text macroPrefix) : ∀ d ∈ r.descriptions,
      ∃ body, body <:+: text ∧ (Comment.blockText? body = some d ∨ Comment.fieldText? body = some d) := by
  obtain ⟨start, rest, hstart, hdescription, -, -, hfields⟩ := h
  refine List.forall_mem_append.mpr ⟨fun d hd => ?_, fun d hd => ?_⟩
  · rw [hdescription, Option.mem_toList] at hd
    obtain ⟨body, hbody, hread⟩ := leadingComment_body hd
    exact ⟨body, hbody.trans ((List.suffix_append ..).trans hstart).isInfix, .inl hread⟩
  · obtain ⟨f, hf, hd⟩ := List.mem_filterMap.mp hd
    obtain ⟨place, below, behind, hplace, -, hbits, hread⟩ := hfields f hf
    obtain ⟨body, hbody, hdescription⟩ := fieldDescription?_body hread
    have hbelow : below <:+ text :=
      ((List.suffix_cons ..).trans (fieldComment?_suffix hbits)).trans ((List.suffix_cons ..).trans hplace)
    exact ⟨body, hbody.trans hbelow.isInfix, .inr (hdescription.symm.trans hd)⟩

theorem RegisterRecord.ReadIn.oneLine {text macroPrefix : Text} {r : RegisterRecord} (h : r.ReadIn text macroPrefix) :
    ∀ d ∈ r.descriptions, '\n' ∉ d := by
  intro d hd
  obtain ⟨body, -, hblock | hfield⟩ := h.exists_body d hd
  · exact Comment.blockText?_oneLine hblock
  · exact Comment.fieldText?_oneLine hfield

theorem text_eq_of_keeps {asked : Option Text} {d : Description} (h : Description.Keeps asked (some d)) :
    asked = some d.text := by
  have htext := h.text_eq
  rw [Option.map_some, eq_comm, Option.filter_eq_some_iff] at htext
  exact htext.1

theorem text_eq_of_ofOption? {asked : Option Text} {d : Description} (h : Description.ofOption? asked = some d) :
    asked = some d.text := by
  have hkeeps := Description.keeps_ofOption? asked
  rw [h] at hkeeps
  exact text_eq_of_keeps hkeeps

theorem RegisterRecord.descriptions_register (r : RegisterRecord) :
    ∀ d ∈ r.register.descriptions, d.text ∈ r.descriptions := by
  refine List.forall_mem_append.mpr ⟨fun d hd => List.mem_append_left _ ?_, fun d hd => List.mem_append_right _ ?_⟩
  · rw [Option.mem_toList, register, Register.description_addAll] at hd
    exact Option.mem_toList.mpr (text_eq_of_ofOption? hd)
  · obtain ⟨f, hf, hd⟩ := List.mem_filterMap.mp hd
    obtain ⟨record, hrecord, _, _, hdescribes⟩ := exists_of_mem_fields_register hf
    have hkeeps := hdescribes.description
    rw [hd] at hkeeps
    exact List.mem_filterMap.mpr ⟨record, hrecord, text_eq_of_keeps hkeeps⟩

/-! ## The peripheral -/

section
variable {text name macroPrefix : Text} {description : Option Text}

theorem descriptions_read : ∀ d ∈ (read text name description macroPrefix).peripheral.descriptions,
    description = some d.text ∨ ∃ r ∈ extract text macroPrefix, d.text ∈ r.descriptions := by
  refine List.forall_mem_append.mpr ⟨fun d hd => .inl ?_, List.forall_mem_flatMap.mpr fun r hr d hd => .inr ?_⟩
  · rw [Option.mem_toList, read, Peripheral.description_addAll] at hd
    exact text_eq_of_ofOption? hd
  · obtain ⟨record, hrecord, rfl⟩ := exists_of_mem_registers_read hr
    exact ⟨record, hrecord, record.descriptions_register d hd⟩

theorem onOneLine_read (hdescription : ∀ d ∈ description, '\n' ∉ d) :
    OnOneLine (read text name description macroPrefix).peripheral.descriptions := by
  intro d hd
  rcases descriptions_read d hd with hown | ⟨r, hr, hd⟩
  · exact hdescription d.text hown
  · exact ((extract_read text macroPrefix).readIn r hr).oneLine d.text hd

theorem wellNamed_of_layout_read {l : Layout}
    (hl : (read text name description macroPrefix).peripheral.layout = .ok l) :
    l.name = name ∧ ∀ m ∈ l.members, ∀ r ∈ m.register?, r.WellNamed := by
  obtain ⟨hown, -, hplan⟩ := Peripheral.layout_eq_ok hl
  refine ⟨hown.trans (Peripheral.name_addAll _ _), ?_⟩
  exact forall_register?_of_plan (P := Register.WellNamed) (fun _ h => h.template)
    (read_wellNamed text name description macroPrefix) hplan

section
variable (hdescription : ∀ d ∈ description, ¬ Continues d) {comments : List Description}
  (hcomments : comments ⊆ (read text name description macroPrefix).peripheral.descriptions)
include hdescription hcomments

theorem exists_record_of_continues {d : Description} (hd : d ∈ comments) (hgoes : Continues d.text) :
    ∃ r ∈ extract text macroPrefix, d.text ∈ r.descriptions :=
  (descriptions_read d (hcomments hd)).resolve_left fun hown => hdescription d.text hown hgoes

theorem exists_record_of_line {lines : List Text} (hgo : GoOnIn comments lines) : ∀ line ∈ lines, Continues line →
    ∃ r ∈ extract text macroPrefix, ∃ d ∈ r.descriptions, Continues d ∧
      ∃ level, line = indent level ++ "// ".toList ++ d := by
  intro line hline hgoes
  obtain ⟨d, hd, hprinted⟩ := hgo.comment line hline hgoes
  have hdgoes := hprinted.continues_iff.mp hgoes
  obtain ⟨r, hr, hdr⟩ := exists_record_of_continues hdescription hcomments hd hdgoes
  exact ⟨r, hr, d.text, hdr, hdgoes, hprinted⟩

theorem not_continues_of_records
    (hnone : ∀ r ∈ extract text macroPrefix, ∀ d ∈ r.descriptions, ¬ Continues d) :
    ∀ d ∈ comments, ¬ Continues d.text := by
  intro d hd hgoes
  obtain ⟨r, hr, hdr⟩ := exists_record_of_continues hdescription hcomments hd hgoes
  exact hnone r hr d.text hdr hgoes

end

end

/-- **Which lines go on.** Of the declarations read from a header, C joins a line with the next one
just where it is the comment of a description that ends in a backslash. As long as none of the
header's descriptions does, the declarations are read as they are written. -/
theorem read_spliced (text : Text) {name : Text} {description : Option Text} (macroPrefix : Text)
    (hname : '\n' ∉ name) (hdescription : ∀ d ∈ description, '\n' ∉ d ∧ ¬ Continues d) {l : Layout}
    (hl : (read text name description macroPrefix).peripheral.layout = .ok l) :
    (∀ line ∈ l.types.lines ++ l.body.lines, Continues line →
      ∃ r ∈ extract text macroPrefix, ∃ d ∈ r.descriptions, Continues d ∧
        ∃ level, line = indent level ++ "// ".toList ++ d) ∧
      (spliced l.types = l.types ↔ ∀ d ∈ l.bitTypes.flatMap BitType.comments, ¬ Continues d.text) ∧
      (spliced l.body = l.body ↔ ∀ d ∈ l.aggregate.comments, ¬ Continues d.text) ∧
      ((∀ r ∈ extract text macroPrefix, ∀ d ∈ r.descriptions, ¬ Continues d) →
        spliced l.types = l.types ∧ spliced l.body = l.body) := by
  obtain ⟨rfl, hmembers⟩ := wellNamed_of_layout_read hl
  obtain ⟨htypes, hbody⟩ := Peripheral.onOneLine_of_layout (onOneLine_read fun d hd => (hdescription d hd).1) hl
  obtain ⟨htypesIn, hbodyIn⟩ := Peripheral.comments_subset_of_layout hl
  obtain ⟨hgoTypes, htypesIff⟩ := Layout.goOnIn_types hname hmembers htypes
  obtain ⟨hgoBody, hbodyIff⟩ := Layout.goOnIn_body hname hmembers hbody
  have hsilent : ∀ d ∈ description, ¬ Continues d := fun d hd => (hdescription d hd).2
  refine ⟨List.forall_mem_append.mpr ⟨?_, ?_⟩, htypesIff, hbodyIff,
    fun hnone => ⟨htypesIff.mpr ?_, hbodyIff.mpr ?_⟩⟩
  · exact exists_record_of_line hsilent htypesIn hgoTypes
  · exact exists_record_of_line hsilent hbodyIn hgoBody
  · exact not_continues_of_records hsilent htypesIn hnone
  · exact not_continues_of_records hsilent hbodyIn hnone

/-- The description of the first field ends in the character that it is about. -/
def escapeText : Text :=
  ("\n\n#define UART_ESC_REG (UART_BASE + 0x0)\n/* UART_BYTE : bitpos:[7:0] ; */\n" ++
    "/*description: Escapes, as does \\*/\n/* UART_EN : bitpos:[8] ; */\n/*description: Enable.*/\n").toList

def escapeReading : Reading := read escapeText "uart".toList (some "A UART.".toList) "UART_".toList

def escapeTypes : Text :=
  ("typedef volatile struct \x7b\n    // Escapes, as does \\\n    uint32_t byte : 8;\n" ++
    "    // Enable\n    uint32_t en : 1;\n    uint32_t : 23;\n\x7d uart_esc_t;\n\n").toList

theorem layout_escapeReading : ∃ l, escapeReading.peripheral.layout = .ok l ∧ l.types = escapeTypes := by
  have htypes : escapeReading.peripheral.layout.toOption.map Layout.types = some escapeTypes := by decide +kernel
  cases hl : escapeReading.peripheral.layout with
  | error e =>
    rw [hl] at htypes
    cases htypes
  | ok l =>
    rw [hl] at htypes
    exact ⟨l, rfl, Option.some_inj.mp htypes⟩

theorem read_spliced_escape :
    '\n' ∉ "uart".toList ∧ (∀ d ∈ some "A UART.".toList, '\n' ∉ d ∧ ¬ Continues d) ∧
      ∃ l, escapeReading.peripheral.layout = .ok l ∧
        (∀ line ∈ l.types.lines ++ l.body.lines, Continues line →
          ∃ r ∈ extract escapeText "UART_".toList, ∃ d ∈ r.descriptions, Continues d ∧
            ∃ level, line = indent level ++ "// ".toList ++ d) ∧
        ¬ ∀ d ∈ l.bitTypes.flatMap BitType.comments, ¬ Continues d.text := by
  have hname : '\n' ∉ "uart".toList := by decide
  have hdescription : ∀ d ∈ some "A UART.".toList, '\n' ∉ d ∧ ¬ Continues d := by
    rintro d ⟨⟩
    decide
  obtain ⟨l, hl, htypes⟩ := layout_escapeReading
  obtain ⟨hgo, hsame, -, -⟩ := read_spliced escapeText "UART_".toList hname hdescription hl
  refine ⟨hname, hdescription, l, hl, hgo, ?_⟩
  rw [← hsame, htypes]
  decide +kernel

/-- The field below the comment is not read. -/
theorem declaration_commented_out : ∃ l, escapeReading.peripheral.layout = .ok l ∧
    (∃ line ∈ l.types.lines, Text.isCommentLine line ∧ Continues line) ∧
    "    uint32_t byte : 8;".toList ∈ l.types.lines ∧
    "    uint32_t byte : 8;".toList ∉ (spliced l.types).lines := by
  obtain ⟨l, hl, htypes⟩ := layout_escapeReading
  refine ⟨l, hl, ?_⟩
  rw [htypes]
  exact ⟨⟨"    // Escapes, as does \\".toList, by decide +kernel, by decide, by decide⟩, by decide +kernel,
    by decide +kernel⟩

end RegisterMap.Header
