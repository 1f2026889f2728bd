import Mathlib
import RegisterMap.Proofs.Header.Origins

/-!
# Records are anchored in their text

Every record stands on a line that says so, and records stand in the order of
their lines, none twice, whatever else is in the text.
-/

namespace RegisterMap.Header

open Text (firstLine)

/-- In lowercase, and without one `_REG` at the end of more. -/
def NamedBy (word name : Text) : Prop :=
  (∃ stem, stem ≠ [] ∧ word = stem ++ "_REG".toList ∧ name = Text.lowercase stem) ∨
    ((¬ ∃ stem, stem ≠ [] ∧ word = stem ++ "_REG".toList) ∧ name = Text.lowercase word)

theorem namedBy_registerName (word : Text) : NamedBy word (registerName word) := by
  by_cases hreg : ∃ stem, stem ≠ [] ∧ word = stem ++ "_REG".toList
  · obtain ⟨stem, hstem, rfl⟩ := hreg
    exact .inl ⟨stem, hstem, rfl, registerName_append hstem⟩
  · exact .inr ⟨hreg, registerName_of_not_exists hreg⟩

structure FieldRecord.AnchoredIn (text macroPrefix : Text) (f : FieldRecord) : Prop where
  line : ∃ line word, text.line? f.line = some line ∧
    StartsWith ("/* ".toList ++ macroPrefix) word line ∧ f.name = Text.lowercase word
  below : ∃ line, text.line? (f.line + 1) = some line ∧ "/*".toList <+: line

structure RegisterRecord.AnchoredIn (text macroPrefix : Text) (r : RegisterRecord) : Prop where
  line : ∃ line word, text.line? r.line = some line ∧
    StartsWith ("#define ".toList ++ macroPrefix) word line ∧ NamedBy word r.name
  above : ∃ line, text.line? (r.line - 1) = some line ∧ (line = [] ∨ "*/".toList <:+ line)
  fields : ∀ f ∈ r.fields, f.AnchoredIn text macroPrefix

def RegisterRecord.lines (r : RegisterRecord) : List Nat := r.line :: r.fields.map (·.line)

theorem FieldRecord.ReadIn.anchoredIn {text macroPrefix : Text} {f : FieldRecord} (hplain : '\n' ∉ macroPrefix)
    (h : f.ReadIn text macroPrefix) : f.AnchoredIn text macroPrefix := by
  obtain ⟨place, below, rest, hplace, hline, hbits, hdescription⟩ := h
  obtain ⟨⟨word, hword, hname⟩, hcomment, -⟩ := fieldComment?_startsWith hplain hbits
  have hmark : '\n' ∉ "/* ".toList ++ macroPrefix := by simp [hplain]
  have hbelow : '\n' :: below <:+ text := (fieldComment?_suffix hbits).trans ((List.suffix_cons ..).trans hplace)
  constructor
  · rw [hline]
    exact ⟨firstLine place, word, line?_lineAt hplace, hword.firstLine hmark, hname⟩
  · refine ⟨firstLine below, ?_, prefix_firstLine (by decide) (fieldDescription?_opens hdescription).1⟩
    rw [hline, lineAt_of_onLine _ hcomment, ← lineAt_of_lineFeed hbelow, line?_lineAt hbelow]

theorem register_line {text macroPrefix place rest : Text} {a : Address} (hplain : '\n' ∉ macroPrefix)
    (hplace : '\n' :: place <:+ text) (h : address? macroPrefix place = some (a, rest)) :
    ∃ line word, text.line? (lineAt (text.count '\n') place) = some line ∧
      StartsWith ("#define ".toList ++ macroPrefix) word line ∧ NamedBy word a.name := by
  obtain ⟨⟨word, hword, hname⟩, -⟩ := address?_startsWith h
  have hmark : '\n' ∉ "#define ".toList ++ macroPrefix := by simp [hplain]
  refine ⟨firstLine place, word, line?_lineAt hplace, hword.firstLine hmark, ?_⟩
  rw [hname]
  exact namedBy_registerName word

theorem register_above {text place above : Text} (htext : text = above ++ '\n' :: place)
    (habove : ['\n'] <:+ above ∨ "*/".toList <:+ above) :
    ∃ line, text.line? (lineAt (text.count '\n') place - 1) = some line ∧
      (line = [] ∨ "*/".toList <:+ line) := by
  subst htext
  rw [lineAt_below]
  rcases habove with hempty | hclosed
  · exact ⟨[], Text.line?_above_of_lineFeed hempty place, .inl rfl⟩
  · obtain ⟨line, hline, hends⟩ := Text.line?_above_of_suffix (by decide) hclosed place
    exact ⟨line, hline, .inr hends⟩

theorem RegisterRecord.ReadIn.anchoredIn {text macroPrefix : Text} {r : RegisterRecord}
    (hplain : '\n' ∉ macroPrefix) (h : r.ReadIn text macroPrefix) : r.AnchoredIn text macroPrefix := by
  obtain ⟨start, rest, hstart, -, hline, haddress, hfields⟩ := h
  obtain ⟨above, htext, habove⟩ := skipLineFeed_leadingComment hstart
  refine ⟨?_, ?_, fun f hf => (hfields f hf).anchoredIn hplain⟩
  · rw [hline]
    exact register_line hplain ⟨above, htext.symm⟩ haddress
  · rw [hline]
    exact register_above htext habove

theorem RegisterRecord.lines_sublist (r : RegisterRecord) : r.lines.Sublist r.partLines := by
  refine List.Sublist.cons_cons r.line ?_
  induction r.fields with
  | nil => exact List.Sublist.slnil
  | cons f fs ih => exact List.Sublist.cons_cons f.line (List.Sublist.cons (f.line + 1) ih)

structure RegistersReadFrom (text macroPrefix s : Text) (records : List RegisterRecord) : Prop where
  anchoredIn : ∀ r ∈ records, r.AnchoredIn text macroPrefix
  ascending : Ascending (lineAt (text.count '\n') s) (records.flatMap RegisterRecord.lines)
    (text.count '\n' + 1)

theorem registerRecords_readFrom {text macroPrefix s : Text} (hplain : '\n' ∉ macroPrefix)
    (hs : s <:+ text) :
    RegistersReadFrom text macroPrefix s (registerRecords (text.count '\n') macroPrefix s) := by
  have hread : RegistersRead text macroPrefix s _ := registerRecords_read hs
  refine ⟨fun r hr => (hread.readIn r hr).anchoredIn hplain, hread.ascending.sublist ?_⟩
  exact List.Sublist.flatMap_right _ fun r _ => r.lines_sublist

/-- **Records are anchored in their text.** Lines are those of the text with unified line ends. -/
theorem extract_anchoredIn (text macroPrefix : Text) (hplain : '\n' ∉ macroPrefix) :
    let source := text.unifyLineEnds
    let records := extract text macroPrefix
    (∀ r ∈ records, r.AnchoredIn source macroPrefix) ∧
    (records.flatMap RegisterRecord.lines).Pairwise (· < ·) ∧
    ∀ n ∈ records.flatMap RegisterRecord.lines, 1 ≤ n ∧ n ≤ source.lines.length := by
  intro source records
  have hread : RegistersReadFrom source macroPrefix source records :=
    registerRecords_readFrom hplain (List.suffix_refl _)
  refine ⟨hread.anchoredIn, hread.ascending.pairwise, fun n hn => ?_⟩
  have hbounds := hread.ascending.bounds.2 n hn
  rw [Text.length_lines]
  omega

/-- A comment that is never closed, line ends of all kinds, and a field without its description. -/
def strayText : Text :=
  ("/* open\r\n\r\n#define TIMG_BAD (X)\n\n\n/** One\n\n per channel */\n" ++
    "#define TIMG_CH_REG(i) (TIMG_BASE(i) + 0x1c)\n/* TIMG_EN : bitpos:[0] ; */\n/* Enable. */\n" ++
    "#define EN 1\n/* TIMG_LOST : bitpos:[1] ; */\n\n#define TIMG_DATE (TIMG_BASE + 0x20)\r").toList

theorem extract_anchoredIn_strayText :
    '\n' ∉ "TIMG_".toList ∧
      (extract strayText "TIMG_".toList).map (fun r => (r.name, r.lines)) =
        [("ch".toList, [9, 10]), ("date".toList, [15])] ∧
      (∀ r ∈ extract strayText "TIMG_".toList, r.AnchoredIn strayText.unifyLineEnds "TIMG_".toList) ∧
      ((extract strayText "TIMG_".toList).flatMap RegisterRecord.lines).Pairwise (· < ·) := by
  have hplain : '\n' ∉ "TIMG_".toList := by decide
  obtain ⟨hanchored, hascending, -⟩ := extract_anchoredIn strayText "TIMG_".toList hplain
  exact ⟨hplain, by decide +kernel, hanchored, hascending⟩

end RegisterMap.Header
