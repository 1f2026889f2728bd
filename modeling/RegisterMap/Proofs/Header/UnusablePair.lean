import RegisterMap.Proofs.Header.FieldPair
import RegisterMap.Proofs.Header.Kept
import RegisterMap.Proofs.Header.LowerLines
import RegisterMap.Proofs.Header.Places

/-!
# Pairs of no use

A pair whose bits lie in no word costs itself only: the register is the same as
without it, and one more notice names its line. But its numbers have to fit a
word to be read. Where they do not, all fields behind the pair are lost.
-/

namespace RegisterMap.Header

open Text (atLineEnd stops_cons unifyLineEnds_of_not_mem)

namespace RegisterRecord

variable (r : RegisterRecord) (lines : Nat) (front behind : List FieldRecord) {bad : FieldRecord}
  (hbad : ¬ bad.bits.isUsable)
include hbad

theorem register_of_not_isUsable :
    ({ r with fields := front ++ bad :: behind.map (·.movedDown lines) } : RegisterRecord).register =
      ({ r with fields := front ++ behind } : RegisterRecord).register := by
  obtain ⟨reason, hreason⟩ := FieldRecord.field_of_not_isUsable hbad
  have hkept : (front ++ bad :: behind.map (·.movedDown lines)).filterMap (·.field.toOption) =
      (front ++ behind).filterMap (·.field.toOption) := by
    rw [List.filterMap_append, List.filterMap_append, List.filterMap_cons, hreason, List.filterMap_map]
    rfl
  simp only [register, hkept]

theorem notices_of_not_isUsable : ∃ reason,
    ({ r with fields := front ++ bad :: behind.map (·.movedDown lines) } : RegisterRecord).notices =
      .found { r with fields := front ++ bad :: behind.map (·.movedDown lines) } ::
        (front.filterMap (FieldRecord.notice? r.name) ++ .skipped r.name bad reason ::
          (behind.filterMap (FieldRecord.notice? r.name)).map (Notice.movedDown lines)) := by
  obtain ⟨reason, hreason⟩ := FieldRecord.field_of_not_isUsable hbad
  have hnotice : bad.notice? r.name = some (.skipped r.name bad reason) := by
    rw [FieldRecord.notice?, hreason]
  refine ⟨reason, ?_⟩
  rw [notices_eq, List.filterMap_append, List.filterMap_cons, hnotice, filterMap_notice?_movedDown]

end RegisterRecord

/-! ## Headers around field pairs -/

/-- A header but for the field pairs of one of its registers. -/
structure Frame where
  above : Document
  register : RegisterEntry
  no_fields : register.fields = []
  below : Text
  closes : ClosesParagraph below

namespace Frame

variable (macroPrefix : Text) (frame : Frame)

def top : Text := frame.above.text macroPrefix ++ '\n' :: frame.register.text macroPrefix

def text (pairs : List FieldPair) : Text :=
  frame.top macroPrefix ++ (pairs.flatMap (FieldPair.text macroPrefix) ++ frame.below)

def record (fields : List FieldRecord) : RegisterRecord :=
  { frame.register.record macroPrefix ((frame.above.text macroPrefix).count '\n' + 2) with fields }

def records (pairs : List FieldPair) : List FieldRecord :=
  FieldPair.records macroPrefix ((frame.top macroPrefix).count '\n' + 1) pairs

def skipped (pairs : List FieldPair) : List Notice :=
  (frame.records macroPrefix pairs).filterMap
    (FieldRecord.notice? (Text.lowercase frame.register.name.text))

def lineBehind (pairs : List FieldPair) : Nat :=
  (frame.top macroPrefix ++ pairs.flatMap (FieldPair.text macroPrefix)).count '\n' + 2

theorem top_append (rest : Text) : frame.top macroPrefix ++ rest =
    frame.above.lead ++ (frame.above.paragraphs.flatMap (fun p => "\n\n".toList ++ p.text macroPrefix) ++
      ("\n\n".toList ++ (frame.register.comment ++ (frame.register.address macroPrefix ++ rest)))) := by
  rw [top, Document.text, Paragraph.texts, RegisterEntry.text, frame.no_fields]
  simp

end Frame

variable {macroPrefix : Text}

theorem registerRecords_frame (frame : Frame) {lineFeeds : Nat} {pairs : List FieldPair} {rest : Text}
    (hend : atLineEnd rest) (hdefine : defineLine? rest = none) (hfits : ∀ p ∈ pairs, p.bits.Fits)
    (hfeeds : lineFeeds =
      (frame.top macroPrefix ++ (pairs.flatMap (FieldPair.text macroPrefix) ++ rest)).count '\n') :
    registerRecords lineFeeds macroPrefix
        (frame.top macroPrefix ++ (pairs.flatMap (FieldPair.text macroPrefix) ++ rest)) =
      frame.above.records macroPrefix ++
        frame.record macroPrefix (frame.records macroPrefix pairs ++ (fieldRecords lineFeeds macroPrefix rest).1) ::
        registerRecords lineFeeds macroPrefix (fieldRecords lineFeeds macroPrefix rest).2 := by
  have hlead : ¬ "\n\n".toList <:+: frame.above.lead ++ ['\n'] :=
    Text.not_infix_concat_of_getLast?_ne frame.above.getLast?_ne frame.above.no_empty_line
  have hbody := (starts_pairs macroPrefix hend hdefine pairs).1
  have hfieldsLine : lineFeeds + 1 = (frame.top macroPrefix).count '\n' + 1 +
      (pairs.flatMap (FieldPair.text macroPrefix) ++ rest).count '\n' := by
    rw [hfeeds, List.count_append]
    omega
  have habove : frame.above.lead.count '\n' + 1 +
      (frame.above.paragraphs.flatMap fun p => "\n\n".toList ++ p.text macroPrefix).count '\n' =
      (frame.above.text macroPrefix).count '\n' := by
    rw [Document.text, Paragraph.texts, List.count_append, List.count_append, List.count_singleton_self]
    omega
  rw [frame.top_append] at hfeeds ⊢
  have hline : lineFeeds + 1 = frame.above.lead.count '\n' + 1 + (frame.above.paragraphs.flatMap
      (fun p => "\n\n".toList ++ p.text macroPrefix) ++ ("\n\n".toList ++ (frame.register.comment ++
        (frame.register.address macroPrefix ++
          (pairs.flatMap (FieldPair.text macroPrefix) ++ rest))))).count '\n' := by
    rw [hfeeds, List.count_append]
    omega
  -- Paragraphs first, then the address of the register, then its pairs.
  obtain ⟨last, hlast, hread⟩ :=
    registerRecords_paragraphs (.inr ⟨_, rfl⟩) frame.above.paragraphs hlead hline
  rw [List.count_append, ← Nat.add_assoc, habove] at hline
  rw [hread, registerRecords_heading hlast frame.register hbody hline,
    fieldRecords_pairs hend hdefine pairs hfits hfieldsLine]
  rfl

/-! ## Inserting a pair -/

theorem Frame.text_append (frame : Frame) (before after : List FieldPair) :
    frame.text macroPrefix (before ++ after) = frame.top macroPrefix ++
      (before.flatMap (FieldPair.text macroPrefix) ++ (after.flatMap (FieldPair.text macroPrefix) ++ frame.below)) := by
  rw [text, List.flatMap_append, List.append_assoc]

theorem Frame.text_inserted (frame : Frame) (before after : List FieldPair) (p : FieldPair) :
    frame.text macroPrefix (before ++ p :: after) =
      frame.top macroPrefix ++ (before.flatMap (FieldPair.text macroPrefix) ++
        (p.text macroPrefix ++ (after.flatMap (FieldPair.text macroPrefix) ++ frame.below))) := by
  rw [frame.text_append, List.flatMap_cons, List.append_assoc]

theorem Digits.lineFeed_not_mem (d : Digits) : '\n' ∉ d.text := fun hmem =>
  absurd (List.all_eq_true.mp d.all_isDigit _ hmem) (by decide)

theorem FieldPair.lineFeed_not_mem_bitsComment (p : FieldPair) (hplain : '\n' ∉ macroPrefix) :
    '\n' ∉ p.bitsComment macroPrefix := by
  have hname : '\n' ∉ p.name.text := lineFeed_not_mem_word p.name.all_isWordChar
  have hbits : '\n' ∉ p.bits.text := by
    cases p.bits with
    | single bit => exact bit.lineFeed_not_mem
    | range hi lo => simp [WrittenBits.text, hi.lineFeed_not_mem, lo.lineFeed_not_mem]
  unfold bitsComment
  refine List.not_mem_append ?_ (by decide)
  refine List.not_mem_append ?_ p.settings.on_one_line
  refine List.not_mem_append ?_ (by decide)
  refine List.not_mem_append ?_ hbits
  refine List.not_mem_append ?_ (by decide)
  refine List.not_mem_append ?_ p.access.on_one_line
  exact List.not_mem_append (List.not_mem_append (by decide) hplain) hname

theorem Frame.line?_lineBehind (frame : Frame) (before after : List FieldPair) (p : FieldPair)
    (hplain : '\n' ∉ macroPrefix) :
    (frame.text macroPrefix (before ++ p :: after)).line? (frame.lineBehind macroPrefix before) =
      some (p.bitsComment macroPrefix) := by
  have hpair := @FieldPair.text_append macroPrefix p (after.flatMap (FieldPair.text macroPrefix) ++ frame.below)
  rw [frame.text_inserted, hpair, ← List.append_assoc, lineBehind, Text.line?_below,
    Text.firstLine_append (p.lineFeed_not_mem_bitsComment hplain)]
  exact congrArg some (List.append_nil _)

theorem registerRecords_inserted (frame : Frame) {before : List FieldPair} {bad : FieldPair} {rest : Text}
    {lineFeeds : Nat} (hend : atLineEnd rest) (hdefine : defineLine? rest = none)
    (hbefore : ∀ p ∈ before, p.bits.Fits) (hbad : bad.bits.Fits)
    (hfeeds : lineFeeds =
      (frame.top macroPrefix ++ (before.flatMap (FieldPair.text macroPrefix) ++ rest)).count '\n') :
    registerRecords (lineFeeds + (bad.text macroPrefix).count '\n') macroPrefix
        (frame.top macroPrefix ++ (before.flatMap (FieldPair.text macroPrefix) ++ (bad.text macroPrefix ++ rest))) =
      frame.above.records macroPrefix ++
        frame.record macroPrefix (frame.records macroPrefix before ++
          bad.record (frame.lineBehind macroPrefix before) ::
            (fieldRecords lineFeeds macroPrefix rest).1.map (·.movedDown ((bad.text macroPrefix).count '\n'))) ::
          (registerRecords lineFeeds macroPrefix (fieldRecords lineFeeds macroPrefix rest).2).map
            (·.movedDown ((bad.text macroPrefix).count '\n')) := by
  have hinserted : lineFeeds + (bad.text macroPrefix).count '\n' = (frame.top macroPrefix ++
      (before.flatMap (FieldPair.text macroPrefix) ++ (bad.text macroPrefix ++ rest))).count '\n' := by
    rw [hfeeds]
    simp only [List.count_append]
    omega
  have hline : lineFeeds + (bad.text macroPrefix).count '\n' + 1 =
      (frame.top macroPrefix ++ before.flatMap (FieldPair.text macroPrefix)).count '\n' + 1 +
        (bad.text macroPrefix ++ rest).count '\n' := by
    rw [hfeeds]
    simp only [List.count_append]
    omega
  have hrest : rest.count '\n' ≤ lineFeeds := by
    rw [hfeeds, ← List.append_assoc]
    exact (List.sublist_append_right ..).count_le '\n'
  have hbehind := count_le_of_suffix (fieldRecords_suffix lineFeeds macroPrefix rest) hrest
  -- Lines are counted from the end of the text, so what stands below is read as before with more line feeds.
  rw [registerRecords_frame frame rfl rfl hbefore hinserted, fieldRecords_pair hbad hend hdefine hline,
    fieldRecords_add hrest, registerRecords_add hbehind]
  rfl

section
variable {frame : Frame} {before after : List FieldPair} {bad : FieldPair}
  (hreturn : '\r' ∉ frame.text macroPrefix (before ++ bad :: after)) (hbefore : ∀ p ∈ before, p.bits.Fits)
include hreturn hbefore

theorem extract_inserted (hbad : bad.bits.Fits) :
    ∃ fields others,
      extract (frame.text macroPrefix (before ++ after)) macroPrefix = frame.above.records macroPrefix ++
        frame.record macroPrefix (frame.records macroPrefix before ++ fields) :: others ∧
      extract (frame.text macroPrefix (before ++ bad :: after)) macroPrefix = frame.above.records macroPrefix ++
        frame.record macroPrefix (frame.records macroPrefix before ++
          bad.record (frame.lineBehind macroPrefix before) ::
            fields.map (·.movedDown ((bad.text macroPrefix).count '\n'))) ::
          others.map (·.movedDown ((bad.text macroPrefix).count '\n')) := by
  obtain ⟨hend, hdefine⟩ :=
    starts_pairs macroPrefix frame.closes.atLineEnd frame.closes.defineLine?_eq_none after
  have hwithout := @Frame.text_append macroPrefix frame before after
  have hinserted := @Frame.text_inserted macroPrefix frame before after bad
  generalize after.flatMap (FieldPair.text macroPrefix) ++ frame.below = rest at hend hdefine hwithout hinserted
  rw [hinserted] at hreturn ⊢
  have hreturn' : '\r' ∉ frame.top macroPrefix ++ (before.flatMap (FieldPair.text macroPrefix) ++ rest) := by
    simp only [List.mem_append, not_or] at hreturn ⊢
    exact ⟨hreturn.1, hreturn.2.1, hreturn.2.2.2⟩
  have hfeeds : (frame.top macroPrefix ++ (before.flatMap (FieldPair.text macroPrefix) ++
      (bad.text macroPrefix ++ rest))).count '\n' =
      (frame.top macroPrefix ++ (before.flatMap (FieldPair.text macroPrefix) ++ rest)).count '\n' +
        (bad.text macroPrefix).count '\n' := by
    simp only [List.count_append]
    omega
  rw [hwithout, extract, extract, unifyLineEnds_of_not_mem hreturn', unifyLineEnds_of_not_mem hreturn, hfeeds]
  exact ⟨_, _, registerRecords_frame frame hend hdefine hbefore rfl,
    registerRecords_inserted frame hend hdefine hbefore hbad rfl⟩

theorem extract_of_not_fits (hbad : ¬ bad.bits.Fits) :
    ∃ others, extract (frame.text macroPrefix (before ++ bad :: after)) macroPrefix =
      frame.above.records macroPrefix ++
        frame.record macroPrefix (frame.records macroPrefix before) :: others := by
  rw [extract, unifyLineEnds_of_not_mem hreturn, frame.text_inserted,
    registerRecords_frame frame rfl rfl hbefore rfl, fieldRecords_of_not_fits hbad, List.append_nil]
  exact ⟨_, rfl⟩

/-- **Pairs of no use.** With a pair whose bits lie in no word the peripheral is the same, and the log but
for the notice of that pair, the field count of its register and the lines below. A pair with a number
that fits no word ends the fields of its register. -/
theorem read_inserted (name : Text) (description : Option Text) (hbits : ¬ bad.bits.bits.isUsable) :
    let without := read (frame.text macroPrefix (before ++ after)) name description macroPrefix
    let inserted := read (frame.text macroPrefix (before ++ bad :: after)) name description macroPrefix
    let line := frame.lineBehind macroPrefix before
    let lines := (bad.text macroPrefix).count '\n'
    ('\n' ∉ macroPrefix → (frame.text macroPrefix (before ++ bad :: after)).line? line =
      some (bad.bitsComment macroPrefix)) ∧
    (bad.bits.Fits → inserted.peripheral = without.peripheral ∧
      ∃ fields below reason,
        without.notices = (frame.above.records macroPrefix).flatMap RegisterRecord.notices ++
          .found (frame.record macroPrefix (frame.records macroPrefix before ++ fields)) ::
            (frame.skipped macroPrefix before ++ below) ∧
        inserted.notices = (frame.above.records macroPrefix).flatMap RegisterRecord.notices ++
          .found (frame.record macroPrefix (frame.records macroPrefix before ++
              bad.record line :: fields.map (·.movedDown lines))) ::
            (frame.skipped macroPrefix before ++
              .skipped (Text.lowercase frame.register.name.text) (bad.record line) reason ::
                below.map (Notice.movedDown lines))) ∧
    (¬ bad.bits.Fits → ∃ others, extract (frame.text macroPrefix (before ++ bad :: after)) macroPrefix =
      frame.above.records macroPrefix ++
        frame.record macroPrefix (frame.records macroPrefix before) :: others) := by
  intro without inserted line lines
  refine ⟨frame.line?_lineBehind before after bad, fun hfits => ?_, extract_of_not_fits hreturn hbefore⟩
  obtain ⟨fields, others, hwithout, hinserted⟩ := extract_inserted hreturn hbefore hfits
  have hbad : ¬ (bad.record line).bits.isUsable := hbits
  obtain ⟨reason, hnotices⟩ := RegisterRecord.notices_of_not_isUsable (frame.record macroPrefix [])
    lines (frame.records macroPrefix before) fields hbad
  have hregister := RegisterRecord.register_of_not_isUsable (frame.record macroPrefix [])
    lines (frame.records macroPrefix before) fields hbad
  have hown : (frame.record macroPrefix (frame.records macroPrefix before ++ fields)).notices =
      .found _ :: (frame.skipped macroPrefix before ++ fields.filterMap _) :=
    congrArg _ List.filterMap_append
  simp only [without, inserted, read, hwithout, hinserted]
  constructor
  · rw [List.map_append, List.map_append, List.map_cons, List.map_cons, map_register_movedDown]
    exact congrArg (fun r => Peripheral.addAll _ (_ ++ r :: _)) hregister
  · refine ⟨fields, fields.filterMap (FieldRecord.notice? (Text.lowercase frame.register.name.text)) ++
      others.flatMap RegisterRecord.notices, reason, ?_, ?_⟩
    · rw [List.flatMap_append, List.flatMap_cons, hown, List.cons_append, List.append_assoc]
      rfl
    · have hown : (frame.record macroPrefix (frame.records macroPrefix before ++
          bad.record line :: fields.map (·.movedDown lines))).notices = _ := hnotices
      rw [List.flatMap_append, List.flatMap_cons, flatMap_notices_movedDown, hown, List.map_append,
        List.cons_append, List.append_assoc]
      rfl

end

def statusFrame : Frame where
  above :=
    { lead := "#pragma once".toList
      no_empty_line := by decide
      getLast?_ne := by simp
      paragraphs := [] }
  register :=
    { remark := none
      name := ⟨"STATUS".toList, by decide, by decide⟩
      index := none
      furtherSpaces := 0
      stem := ⟨"UART".toList, by decide, by decide⟩
      offset := ⟨"2c".toList, by decide, by decide, by decide⟩
      fields := [] }
  no_fields := rfl
  below := ['\n']
  closes := .inl rfl

def statusPair (name : Identifier) (bits : WrittenBits) : FieldPair where
  name
  access := ⟨" : RO ;".toList, by decide, by decide, by decide⟩
  access_stops := stops_cons (by decide) _
  bits
  settings := ⟨" ;default: 0 ; ".toList, by decide, by decide, by decide⟩
  remark := ⟨"description: Set by the\n hardware.".toList, by decide⟩
  definitions := [⟨"STATUS_MASK 1".toList, by decide, by decide⟩]

def busyPair : FieldPair :=
  statusPair ⟨"BUSY".toList, by decide, by decide⟩ (.single ⟨['3'], by decide, by decide⟩)

def levelPair : FieldPair :=
  statusPair ⟨"LEVEL".toList, by decide, by decide⟩
    (.range ⟨['9'], by decide, by decide⟩ ⟨['4'], by decide, by decide⟩)

def highPair : FieldPair :=
  statusPair ⟨"HIGH".toList, by decide, by decide⟩ (.single ⟨"32".toList, by decide, by decide⟩)

def hugePair : FieldPair :=
  statusPair ⟨"HUGE".toList, by decide, by decide⟩ (.single ⟨"4294967296".toList, by decide, by decide⟩)

theorem read_inserted_high :
    statusFrame.text [] ([busyPair] ++ highPair :: [levelPair]) = Text.unlines
      ["#pragma once".toList,
        [],
        "#define STATUS_REG (UART_BASE + 0x2c)".toList,
        "/* BUSY : RO ;bitpos:[3] ;default: 0 ; */".toList,
        "/*description: Set by the".toList,
        " hardware.*/".toList,
        "#define STATUS_MASK 1".toList,
        "/* HIGH : RO ;bitpos:[32] ;default: 0 ; */".toList,
        "/*description: Set by the".toList,
        " hardware.*/".toList,
        "#define STATUS_MASK 1".toList,
        "/* LEVEL : RO ;bitpos:[9:4] ;default: 0 ; */".toList,
        "/*description: Set by the".toList,
        " hardware.*/".toList,
        "#define STATUS_MASK 1".toList] ∧
    (read (statusFrame.text [] ([busyPair] ++ highPair :: [levelPair])) "uart".toList none []).peripheral =
      (read (statusFrame.text [] ([busyPair] ++ [levelPair])) "uart".toList none []).peripheral ∧
    (statusFrame.text [] ([busyPair] ++ highPair :: [levelPair])).line? 8 =
      some "/* HIGH : RO ;bitpos:[32] ;default: 0 ; */".toList := by
  have hreturn : '\r' ∉ statusFrame.text [] ([busyPair] ++ highPair :: [levelPair]) := by decide +kernel
  have hbits : ¬ highPair.bits.bits.isUsable := by decide
  have hbefore : ∀ p ∈ [busyPair], p.bits.Fits := by decide
  obtain ⟨hline, hread, -⟩ := read_inserted hreturn hbefore "uart".toList none hbits
  have hplace : statusFrame.lineBehind [] [busyPair] = 8 := by decide +kernel
  rw [hplace] at hline
  exact ⟨by decide +kernel, (hread (by decide)).1, (hline (by decide)).trans (by decide +kernel)⟩

/-- Behind a number that fits no word no field is read, and nothing is said about it. -/
theorem fields_lost_behind_huge :
    ¬ hugePair.bits.bits.isUsable ∧
    (read (statusFrame.text [] [busyPair, levelPair]) "uart".toList none []).peripheral.registers.map
      (·.fields.map Field.name) = [["busy".toList, "level".toList]] ∧
    (read (statusFrame.text [] [busyPair, hugePair, levelPair]) "uart".toList none []).peripheral.registers.map
      (·.fields.map Field.name) = [["busy".toList]] ∧
    (read (statusFrame.text [] [busyPair, hugePair, levelPair]) "uart".toList none []).notices.map
      (·.log.message) = ["line 3: register [status] at 0x2c with 1 field(s)".toList] := by
  refine ⟨by decide, by decide +kernel, by decide +kernel, by decide +kernel⟩

end RegisterMap.Header
