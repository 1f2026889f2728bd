import RegisterMap.Proofs.Header.FieldPair
import RegisterMap.Proofs.Text.LineEnds

/-!
# Extraction undoes writing

From a written document exactly its registers are extracted, with their fields,
in order, each with the line it stands on.
-/

namespace RegisterMap.Header

open Text (until? skipLineFeed atLineEnd until?_append stops_cons unifyLineEnds_of_not_mem)

variable {macroPrefix : Text} {lineFeeds : Nat}

/-- What stands behind a paragraph: the end of the text, or an empty line. -/
def ClosesParagraph (rest : Text) : Prop := rest = ['\n'] ∨ ∃ next, rest = "\n\n".toList ++ next

namespace ClosesParagraph

variable {rest : Text} (hrest : ClosesParagraph rest)
include hrest

theorem atLineEnd : atLineEnd rest := by
  rcases hrest with rfl | ⟨next, rfl⟩ <;> rfl

theorem fieldComment?_eq_none : fieldComment? macroPrefix (skipLineFeed rest) = none := by
  rcases hrest with rfl | ⟨next, rfl⟩ <;> rfl

theorem defineLine?_eq_none : defineLine? rest = none := by
  rcases hrest with rfl | ⟨next, rfl⟩ <;> rfl

end ClosesParagraph

/-! ## Fields -/

namespace BitPosition

def written : BitPosition → WrittenBits
  | single bit => .single ⟨bit.digits, bit.nonempty, bit.all_isDigit⟩
  | range hi lo => .range ⟨hi.digits, hi.nonempty, hi.all_isDigit⟩ ⟨lo.digits, lo.nonempty, lo.all_isDigit⟩

theorem text_written (b : BitPosition) : b.written.text = b.text := by
  cases b <;> rfl

theorem bits_written (b : BitPosition) : b.written.bits = b.bits := by
  cases b <;> rfl

theorem fits_written (b : BitPosition) : b.written.Fits := by
  cases b with
  | single bit => exact bit.value_lt
  | range hi lo => exact ⟨hi.value_lt, lo.value_lt⟩

end BitPosition

namespace FieldEntry

theorem remarkText_not_closing (f : FieldEntry) : ¬ "*/".toList <:+: f.remarkText := by
  unfold remarkText
  cases f.remark with
  | none => decide
  | some e => exact Text.not_infix_concat (by decide) e.not_closing

def pair (f : FieldEntry) : FieldPair where
  name := f.name
  access := ⟨" : R/W ;".toList, by decide, by decide, by decide⟩
  access_stops := stops_cons (by decide) _
  bits := f.position.written
  settings := ⟨" ;default: 1'b0 ; ".toList, by decide, by decide, by decide⟩
  remark := ⟨"description:".toList ++ ([' '] ++ f.remarkText),
    Text.not_infix_append (by decide) (Text.not_infix_append (by decide) f.remarkText_not_closing)⟩
  definitions := f.definitions

theorem text_pair (macroPrefix : Text) (f : FieldEntry) : f.pair.text macroPrefix = f.text macroPrefix := by
  have hbits : f.pair.bitsComment macroPrefix = f.bitsComment macroPrefix :=
    congrArg (fun bits => "/* ".toList ++ macroPrefix ++ f.name.text ++ " : R/W ;".toList ++
      "bitpos:[".toList ++ bits ++ [']'] ++ " ;default: 1'b0 ; ".toList ++ "*/".toList) f.position.text_written
  have hremark : f.pair.remarkComment = f.remarkComment := by
    have hassoc : "/*".toList ++ ("description:".toList ++ ([' '] ++ f.remarkText)) ++ "*/".toList =
        f.remarkComment := by
      rw [remarkComment, ← List.append_assoc, ← List.append_assoc]
    exact hassoc
  rw [FieldPair.text, hbits, hremark]
  rfl

theorem record_pair (line : Nat) (f : FieldEntry) : f.pair.record line = f.record line := by
  have hbits : f.pair.bits.bits = f.position.bits := f.position.bits_written
  have hdescription : f.pair.description = f.description := by
    rw [← f.fieldText?_remarkText]
    show Comment.fieldText? (Text.dropMark [' '] (Text.dropMark "description:".toList
      ("description:".toList ++ ([' '] ++ f.remarkText)))) = _
    rw [Text.dropMark_append, Text.dropMark_append]
  rw [FieldPair.record, hbits, hdescription]
  rfl

theorem records_pair : ∀ (line : Nat) (fs : List FieldEntry),
    FieldPair.records macroPrefix line (fs.map pair) = records macroPrefix line fs
  | _, [] => rfl
  | line, f :: fs => by
    rw [List.map_cons, FieldPair.records, records_pair, record_pair, text_pair]
    rfl

end FieldEntry

section
variable {rest : Text} (hrest : ClosesParagraph rest)
include hrest

theorem atLineEnd_fields : ∀ fs : List FieldEntry,
    atLineEnd (fs.flatMap (FieldEntry.text macroPrefix) ++ rest)
  | [] => hrest.atLineEnd
  | _ :: _ => rfl

theorem fieldRecords_fields (fs : List FieldEntry) {line : Nat}
    (hline : lineFeeds + 1 = line + (fs.flatMap (FieldEntry.text macroPrefix) ++ rest).count '\n') :
    fieldRecords lineFeeds macroPrefix (fs.flatMap (FieldEntry.text macroPrefix) ++ rest) =
      (FieldEntry.records macroPrefix line fs, rest) := by
  have htext : fs.flatMap (FieldEntry.text macroPrefix) =
      (fs.map FieldEntry.pair).flatMap (FieldPair.text macroPrefix) := by
    rw [List.flatMap_map]
    exact List.flatMap_congr fun f _ => (f.text_pair macroPrefix).symm
  have hfits : ∀ p ∈ fs.map FieldEntry.pair, p.bits.Fits :=
    List.forall_mem_map.mpr fun f _ => f.position.fits_written
  rw [htext] at hline ⊢
  rw [fieldRecords_pairs hrest.atLineEnd hrest.defineLine?_eq_none _ hfits hline, FieldEntry.records_pair,
    fieldRecords_of_none hrest.fieldComment?_eq_none, List.append_nil]

end

/-! ## Paragraphs -/

theorem registerRecords_of_last {s : Text} (h : until? "\n\n".toList s = none) :
    registerRecords lineFeeds macroPrefix s = [] := by
  rw [registerRecords]
  split
  · rfl
  · rename_i hsome
    rw [h] at hsome
    cases hsome

theorem registerRecords_of_start {s before start behind : Text} {description : Option Text}
    (hstart : until? "\n\n".toList s = some (before, start))
    (hcomment : leadingComment start = (description, behind)) :
    registerRecords lineFeeds macroPrefix s =
      match address? macroPrefix (skipLineFeed behind) with
      | none => registerRecords lineFeeds macroPrefix behind
      | some (address, rest) =>
        ⟨address.name, address.offset, description, lineAt lineFeeds (skipLineFeed behind),
            (fieldRecords lineFeeds macroPrefix rest).1⟩ ::
          registerRecords lineFeeds macroPrefix (fieldRecords lineFeeds macroPrefix rest).2 := by
  rw [registerRecords]
  split
  · rename_i hnone
    rw [hstart] at hnone
    cases hnone
  · rename_i hsome
    rw [hstart] at hsome
    cases hsome
    dsimp only
    rw [hcomment]
    split
    · rename_i haddress
      rw [haddress]
    · rename_i haddress
      rw [haddress]

theorem skipLineFeed_of_head?_ne {s : Text} (h : s.head? ≠ some '\n') : skipLineFeed s = s := by
  unfold skipLineFeed
  split
  · exact absurd rfl h
  · rfl

section
variable {before tail : Text} (hbefore : ¬ "\n\n".toList <:+: before ++ ['\n'])
include hbefore

/-- Noise is passed over: a later empty line is looked for from its start. -/
theorem registerRecords_noise (htail : ClosesParagraph tail) (n : Noise) :
    registerRecords lineFeeds macroPrefix (before ++ ("\n\n".toList ++ (n.text ++ tail))) =
      registerRecords lineFeeds macroPrefix (n.text ++ tail) := by
  obtain ⟨rest, rfl⟩ := eq_cons_of_atLineEnd htail.atLineEnd
  have hskip : skipLineFeed (n.text ++ '\n' :: rest) = n.text ++ '\n' :: rest := by
    refine skipLineFeed_of_head?_ne ?_
    rw [List.head?_append_of_ne_nil n.text n.nonempty]
    exact n.head?_ne
  have hcomment : leadingComment (n.text ++ '\n' :: rest) = (none, n.text ++ '\n' :: rest) := by
    rw [leadingComment, hskip, blockComment?, Text.after?_eq_none_of_line (by decide) n.no_comment]
    rfl
  have haddress : address? macroPrefix (skipLineFeed (n.text ++ '\n' :: rest)) = none := by
    rw [hskip, address?, Text.after?_eq_none_of_line (by decide) n.no_define]
    rfl
  rw [registerRecords_of_start (until?_append (by decide) _ hbefore) hcomment, haddress]

theorem registerRecords_heading (r : RegisterEntry) (hend : atLineEnd tail) {line : Nat}
    (hline : lineFeeds + 1 =
      line + ("\n\n".toList ++ (r.comment ++ (r.address macroPrefix ++ tail))).count '\n') :
    registerRecords lineFeeds macroPrefix
        (before ++ ("\n\n".toList ++ (r.comment ++ (r.address macroPrefix ++ tail)))) =
      { r.record macroPrefix (line + 2) with fields := (fieldRecords lineFeeds macroPrefix tail).1 } ::
        registerRecords lineFeeds macroPrefix (fieldRecords lineFeeds macroPrefix tail).2 := by
  obtain ⟨place, hcomment, hplace⟩ := r.leadingComment_comment macroPrefix tail
  have haddress := r.address?_address macroPrefix hend
  rw [← hplace] at haddress
  rw [List.count_append, List.count_append, count_emptyLine] at hline
  have hplaceLine : lineAt lineFeeds (r.address macroPrefix ++ tail) = line + 1 + r.comment.count '\n' + 1 :=
    lineAt_eq (by omega)
  rw [registerRecords_of_start (until?_append (by decide) _ hbefore) hcomment, haddress, hplace]
  dsimp only
  rw [hplaceLine, RegisterEntry.record]
  simp only [List.cons.injEq, RegisterRecord.mk.injEq, and_true, true_and]
  omega

theorem registerRecords_register (htail : ClosesParagraph tail) (r : RegisterEntry) {line : Nat}
    (hline : lineFeeds + 1 = line + ("\n\n".toList ++ (r.text macroPrefix ++ tail)).count '\n') :
    registerRecords lineFeeds macroPrefix
        (before ++ ("\n\n".toList ++ (r.text macroPrefix ++ tail))) =
      r.record macroPrefix (line + 2) :: registerRecords lineFeeds macroPrefix tail := by
  have htext : r.text macroPrefix ++ tail = r.comment ++ (r.address macroPrefix ++
      (r.fields.flatMap (FieldEntry.text macroPrefix) ++ tail)) := by
    simp only [RegisterEntry.text, List.append_assoc]
  rw [htext] at hline ⊢
  rw [registerRecords_heading hbefore r (atLineEnd_fields htail r.fields) hline]
  rw [List.count_append, List.count_append, List.count_append, count_emptyLine] at hline
  have hfieldsLine : lineFeeds + 1 = line + 2 + r.comment.count '\n' +
      (r.address macroPrefix).count '\n' +
      (r.fields.flatMap (FieldEntry.text macroPrefix) ++ tail).count '\n' := by omega
  rw [fieldRecords_fields htail r.fields hfieldsLine]
  rfl

end

theorem closesParagraph_append {tail : Text} (htail : ClosesParagraph tail) : ∀ ps : List Paragraph,
    ClosesParagraph (ps.flatMap (fun p => "\n\n".toList ++ p.text macroPrefix) ++ tail)
  | [] => htail
  | _ :: _ => .inr ⟨_, rfl⟩

theorem registerRecords_paragraphs {tail : Text} (htail : ClosesParagraph tail) :
    ∀ (ps : List Paragraph) {before : Text} {line : Nat}, ¬ "\n\n".toList <:+: before ++ ['\n'] →
      lineFeeds + 1 =
        line + (ps.flatMap (fun p => "\n\n".toList ++ p.text macroPrefix) ++ tail).count '\n' →
      ∃ last, ¬ "\n\n".toList <:+: last ++ ['\n'] ∧
        registerRecords lineFeeds macroPrefix
            (before ++ (ps.flatMap (fun p => "\n\n".toList ++ p.text macroPrefix) ++ tail)) =
          Paragraph.records macroPrefix line ps ++ registerRecords lineFeeds macroPrefix (last ++ tail)
  | [], before, _, hbefore, _ => ⟨before, hbefore, rfl⟩
  | .noise n :: ps, _, _, hbefore, hline => by
    have hlast : ¬ "\n\n".toList <:+: n.text ++ ['\n'] :=
      Text.not_infix_concat_of_getLast?_ne n.getLast?_ne n.no_empty_line
    rw [List.flatMap_cons, List.append_assoc, List.append_assoc] at hline ⊢
    rw [List.count_append, List.count_append, count_emptyLine, ← Nat.add_assoc, ← Nat.add_assoc] at hline
    obtain ⟨last, hnone, hread⟩ := registerRecords_paragraphs htail ps hlast hline
    refine ⟨last, hnone, ?_⟩
    rw [Paragraph.text, registerRecords_noise hbefore (closesParagraph_append htail ps), hread]
    rfl
  | .register r :: ps, _, _, hbefore, hline => by
    have hnothing : ¬ "\n\n".toList <:+: [] ++ ['\n'] := by decide
    rw [List.flatMap_cons, List.append_assoc, List.append_assoc] at hline ⊢
    -- the text behind the fields starts with the next empty line itself
    rw [Paragraph.text, registerRecords_register hbefore (closesParagraph_append htail ps) r hline]
    rw [List.count_append, List.count_append, count_emptyLine, ← Nat.add_assoc, ← Nat.add_assoc] at hline
    obtain ⟨last, hnone, hread⟩ := registerRecords_paragraphs htail ps hnothing hline
    refine ⟨last, hnone, ?_⟩
    rw [List.nil_append] at hread
    rw [hread]
    rfl

theorem registerRecords_texts (ps : List Paragraph) {before : Text} {line : Nat}
    (hbefore : ¬ "\n\n".toList <:+: before ++ ['\n'])
    (hline : lineFeeds + 1 = line + (Paragraph.texts macroPrefix ps).count '\n') :
    registerRecords lineFeeds macroPrefix (before ++ Paragraph.texts macroPrefix ps) =
      Paragraph.records macroPrefix line ps := by
  obtain ⟨last, hlast, hread⟩ := registerRecords_paragraphs (.inl rfl) ps hbefore hline
  rw [Paragraph.texts, hread, registerRecords_of_last (Text.until?_eq_none (by decide) hlast), List.append_nil]

/-- **Extraction undoes writing.** From a document without carriage returns exactly its
registers are extracted. -/
theorem extract_text (macroPrefix : Text) (doc : Document) (hreturn : '\r' ∉ doc.text macroPrefix) :
    extract (doc.text macroPrefix) macroPrefix = doc.records macroPrefix := by
  have hlead : ¬ "\n\n".toList <:+: doc.lead ++ ['\n'] :=
    Text.not_infix_concat_of_getLast?_ne doc.getLast?_ne doc.no_empty_line
  rw [extract, unifyLineEnds_of_not_mem hreturn, Document.text]
  refine registerRecords_texts doc.paragraphs hlead ?_
  rw [List.count_append]
  omega

/-- A plain register with a field, noise, and an indexed register with a comment. -/
def sampleDocument : Document where
  lead := "#ifndef TIMG_H".toList
  no_empty_line := by decide
  getLast?_ne := by simp
  paragraphs :=
    [.register
      { remark := none
        name := ⟨"T0CONFIG".toList, by decide, by decide⟩
        index := none
        furtherSpaces := 2
        stem := ⟨"TIMG".toList, by decide, by decide⟩
        offset := ⟨"00".toList, by decide, by decide, by decide⟩
        fields :=
          [{ name := ⟨"T0_DIV".toList, by decide, by decide⟩
             position := .range ⟨"28".toList, by decide, by decide, by decide⟩
               ⟨"13".toList, by decide, by decide, by decide⟩
             remark := some ⟨"Prescaler\n value".toList, by decide⟩
             definitions := [⟨"T0_DIV 0xffff".toList, by decide, by decide⟩] }] },
     .noise
      ⟨"#ifdef X\n#endif".toList, by decide, by simp, by simp, by decide, by decide, by decide⟩,
     .register
      { remark := some ⟨"One per channel".toList, by decide⟩
        name := ⟨"CH_CONF".toList, by decide, by decide⟩
        index := some ⟨"i".toList, by decide, by decide⟩
        furtherSpaces := 0
        stem := ⟨"TIMG".toList, by decide, by decide⟩
        offset := ⟨"1c".toList, by decide, by decide, by decide⟩
        fields := [] }]

theorem extract_sampleDocument :
    '\r' ∉ sampleDocument.text "TIMG_".toList ∧
      sampleDocument.text "TIMG_".toList = Text.unlines
        ["#ifndef TIMG_H".toList,
          [],
          "#define TIMG_T0CONFIG_REG   (TIMG_BASE + 0x00)".toList,
          "/* TIMG_T0_DIV : R/W ;bitpos:[28:13] ;default: 1'b0 ; */".toList,
          "/*description: Prescaler".toList,
          " value.*/".toList,
          "#define T0_DIV 0xffff".toList,
          [],
          "#ifdef X".toList,
          "#endif".toList,
          [],
          "/** One per channel */".toList,
          "#define TIMG_CH_CONF_REG(i) (TIMG_BASE(i) + 0x1c)".toList] ∧
      extract (sampleDocument.text "TIMG_".toList) "TIMG_".toList =
        [⟨"t0config".toList, 0, none, 3,
          [⟨"t0_div".toList, .range 28 13, some "Prescaler value".toList, 4⟩]⟩,
        ⟨"ch_conf".toList, 28, some "One per channel".toList, 13, []⟩] := by
  have hreturn : '\r' ∉ sampleDocument.text "TIMG_".toList := by decide +kernel
  refine ⟨hreturn, by decide +kernel, ?_⟩
  rw [extract_text "TIMG_".toList sampleDocument hreturn]
  decide +kernel

end RegisterMap.Header
