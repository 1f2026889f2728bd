import Mathlib
import RegisterMap.Header.Model
import RegisterMap.Proofs.Header.Descriptions
import RegisterMap.Proofs.Model.Ledger

/-!
# What is kept of a header

Every record becomes a register, and every field whose bits lie in its word is
kept in it. A description that was extracted is never blank, so it is stored as
it is. What is left out is named in the log, in the order of the records.
-/

namespace RegisterMap.Header

namespace BitRange

def isUsable : BitRange → Bool
  | .single n => n ≤ 31
  | .range hi lo => lo ≤ hi && hi ≤ 31

def lowest : BitRange → Nat
  | .single n => n
  | .range _ lo => lo

def highest : BitRange → Nat
  | .single n => n
  | .range hi _ => hi

theorem offsetAndWidth?_of_isUsable {b : BitRange} (h : b.isUsable) :
    b.offsetAndWidth? = some (b.lowest, b.highest + 1 - b.lowest) ∧ b.lowest ≤ b.highest ∧
      b.highest ≤ 31 := by
  cases b with
  | single n =>
    simp only [isUsable, decide_eq_true_eq] at h
    refine ⟨?_, Nat.le_refl _, h⟩
    simp only [offsetAndWidth?, lowest, highest]
    rw [Nat.add_sub_cancel_left]
  | range hi lo =>
    simp only [isUsable, Bool.and_eq_true, decide_eq_true_eq] at h
    obtain ⟨hle, hhi⟩ := h
    refine ⟨?_, hle, hhi⟩
    simp only [offsetAndWidth?, lowest, highest]
    rw [if_pos ⟨hle, by simp only [wordLimit]; omega⟩, Nat.sub_add_comm hle]

theorem isUsable_of_offsetAndWidth? {b : BitRange} {bitOffset width : Nat}
    (h : b.offsetAndWidth? = some (bitOffset, width)) (hend : bitOffset + width ≤ wordBits) :
    b.isUsable := by
  simp only [wordBits] at hend
  cases b with
  | single n =>
    simp only [offsetAndWidth?, Option.some_inj, Prod.mk.injEq] at h
    obtain ⟨rfl, rfl⟩ := h
    simp only [isUsable, decide_eq_true_eq]
    omega
  | range hi lo =>
    simp only [offsetAndWidth?] at h
    split at h
    · simp only [Option.some_inj, Prod.mk.injEq] at h
      obtain ⟨rfl, rfl⟩ := h
      simp only [isUsable, Bool.and_eq_true, decide_eq_true_eq]
      omega
    · cases h

end BitRange

/-! ## Fields -/

structure FieldRecord.Describes (r : FieldRecord) (f : Field) : Prop where
  name_eq : f.name = r.name
  bitOffset_eq : f.bitOffset = r.bits.lowest
  bitEnd_eq : f.bitEnd = r.bits.highest + 1
  description_eq : f.description.map (·.text) = r.description

def NotBlank (d : Option Text) : Prop := ∀ t ∈ d, ¬ t.all Text.isBlank

theorem NotBlank.text_eq {d : Option Text} (hd : NotBlank d) {stored : Option Description}
    (h : Description.Keeps d stored) : stored.map (·.text) = d := by
  rw [h.text_eq]
  cases d with
  | none => rfl
  | some t => simp [Option.filter, hd t rfl]

namespace FieldRecord

theorem field_of_isUsable {r : FieldRecord} (h : r.bits.isUsable) :
    ∃ f, r.field = .ok f ∧ (NotBlank r.description → r.Describes f) := by
  obtain ⟨hbits, hle, hhi⟩ := BitRange.offsetAndWidth?_of_isUsable h
  have hfits : FieldSpec.Fits
      ⟨r.name, r.bits.lowest, r.bits.highest + 1 - r.bits.lowest, r.description⟩ := by
    constructor <;> simp only [wordBits] <;> omega
  obtain ⟨f, hf, hdescribes⟩ := hfits.field
  refine ⟨f, ?_, fun hdescription => ?_⟩
  · simp only [field, hbits, hf]
    rfl
  · refine ⟨hdescribes.name_eq, hdescribes.bitOffset_eq, ?_, hdescription.text_eq hdescribes.description⟩
    rw [Field.bitEnd, hdescribes.bitOffset_eq, hdescribes.width_eq]
    simp only
    omega

theorem field_of_not_isUsable {r : FieldRecord} (h : ¬ r.bits.isUsable) :
    ∃ reason, r.field = .error reason := by
  unfold field
  split
  · exact ⟨_, rfl⟩
  · rename_i bitOffset width hbits
    have hfits : ¬ FieldSpec.Fits ⟨r.name, bitOffset, width, r.description⟩ := fun hfits =>
      h (BitRange.isUsable_of_offsetAndWidth? hbits hfits.2)
    obtain ⟨e, he⟩ := FieldSpec.field_of_not_fits hfits
    rw [he]
    exact ⟨_, rfl⟩

theorem field_isOk_iff (r : FieldRecord) : (∃ f, r.field = .ok f) ↔ r.bits.isUsable := by
  by_cases h : r.bits.isUsable
  · obtain ⟨f, hf, -⟩ := field_of_isUsable h
    simp [h, hf]
  · obtain ⟨reason, hreason⟩ := field_of_not_isUsable h
    simp [h, hreason]

end FieldRecord

theorem fields_kept {records : List FieldRecord} (h : ∀ r ∈ records, NotBlank r.description) :
    List.Forall₂ FieldRecord.Describes (records.filter (·.bits.isUsable))
      (records.filterMap (·.field.toOption)) := by
  induction records with
  | nil => exact .nil
  | cons r records ih =>
    obtain ⟨hr, hrecords⟩ := List.forall_mem_cons.mp h
    by_cases husable : r.bits.isUsable
    · obtain ⟨f, hf, hdescribes⟩ := FieldRecord.field_of_isUsable husable
      rw [List.filter_cons_of_pos (by simpa using husable), List.filterMap_cons, hf]
      exact .cons (hdescribes hr) (ih hrecords)
    · obtain ⟨reason, hreason⟩ := FieldRecord.field_of_not_isUsable husable
      rw [List.filter_cons_of_neg (by simpa using husable), List.filterMap_cons, hreason]
      exact ih hrecords

/-! ## Registers -/

structure RegisterRecord.Describes (record : RegisterRecord) (r : Register) : Prop where
  name_eq : r.name = record.name
  byteOffset_eq : r.byteOffset = record.offset
  description_eq : r.description.map (·.text) = record.description
  fields : List.Forall₂ FieldRecord.Describes
    (sortByKey (·.bits.lowest) (record.fields.filter (·.bits.isUsable))) r.fields

namespace RegisterRecord

structure AllNotBlank (r : RegisterRecord) : Prop where
  description : NotBlank r.description
  fields : ∀ f ∈ r.fields, NotBlank f.description

theorem register_describes {record : RegisterRecord} (h : record.AllNotBlank) :
    record.Describes record.register := by
  refine ⟨Register.name_addAll _ _, Register.byteOffset_addAll _ _, ?_, ?_⟩
  · rw [register, Register.description_addAll]
    exact h.description.text_eq (Description.keeps_ofOption? _)
  · rw [register, Register.fields_addAll]
    exact forall₂_sortByKey (fun _ _ hd => hd.bitOffset_eq.symm) (fields_kept h.fields)

end RegisterRecord

/-- A log record of this level about a line, which starts by saying so much. -/
structure Tells (l : LogRecord) (level : Level) (line : Nat) (saying : Text) : Prop where
  level_eq : l.level = level
  component_eq : l.component = "regmodel_from_esp_header".toList
  message : "line ".toList ++ Text.decimal line ++ ": ".toList ++ saying <+: l.message

def FieldRecord.Reports (f : FieldRecord) (l : LogRecord) : Prop :=
  Tells l .warn f.line "skipping field".toList

/-- The log of one register: that it was found, then each field that is not kept. -/
def RegisterRecord.Reports (r : RegisterRecord) : List LogRecord → Prop
  | [] => False
  | found :: skipped =>
    Tells found .debug r.line ("register [".toList ++ r.name ++ [']']) ∧
      List.Forall₂ FieldRecord.Reports (r.fields.filter (!·.bits.isUsable)) skipped

theorem Notice.found_reported (r : RegisterRecord) :
    Tells (Notice.found r).log .debug r.line ("register [".toList ++ r.name ++ [']']) := by
  have hsaying : ": register [".toList = ": ".toList ++ "register [".toList := rfl
  have hbehind : "] at ".toList = [']'] ++ " at ".toList := rfl
  refine ⟨rfl, rfl, " at ".toList ++ Text.hexadecimal r.offset ++ " with ".toList ++
    Text.decimal r.fields.length ++ " field(s)".toList, ?_⟩
  unfold log message
  simp only [hsaying, hbehind, List.append_assoc]

theorem Notice.skipped_reported (register : Text) (f : FieldRecord) (reason : Rejection) :
    f.Reports (Notice.skipped register f reason).log := by
  refine ⟨rfl, rfl, ?_⟩
  cases reason with
  | inverted =>
    have hsaying : ": skipping field [".toList =
      ": ".toList ++ ("skipping field".toList ++ " [".toList) := rfl
    refine ⟨" [".toList ++ f.name ++ "], inverted bit range ".toList ++ f.bits.text, ?_⟩
    unfold log message
    simp only [hsaying, List.append_assoc]
  | invalid e =>
    have hsaying : ": skipping field of [".toList =
      ": ".toList ++ ("skipping field".toList ++ " of [".toList) := rfl
    refine ⟨" of [".toList ++ register ++ "]: ".toList ++ e.message, ?_⟩
    unfold log message
    simp only [hsaying, List.append_assoc]

theorem fields_reported (register : Text) : ∀ records : List FieldRecord,
    List.Forall₂ FieldRecord.Reports (records.filter (!·.bits.isUsable))
      ((records.filterMap fun f =>
        match f.field with
        | .error reason => some (.skipped register f reason)
        | .ok _ => none).map Notice.log)
  | [] => .nil
  | r :: records => by
    have ih := fields_reported register records
    by_cases husable : r.bits.isUsable
    · obtain ⟨f, hf, -⟩ := FieldRecord.field_of_isUsable husable
      rw [List.filter_cons_of_neg (by simp [husable]), List.filterMap_cons]
      simp only [hf]
      exact ih
    · obtain ⟨reason, hreason⟩ := FieldRecord.field_of_not_isUsable husable
      rw [List.filter_cons_of_pos (by simp [husable]), List.filterMap_cons]
      simp only [hreason, List.map_cons]
      exact .cons (Notice.skipped_reported register r reason) ih

theorem RegisterRecord.notices_reported (r : RegisterRecord) : r.Reports (r.notices.map Notice.log) :=
  ⟨Notice.found_reported r, fields_reported r.name r.fields⟩

theorem fieldDescription?_body {s rest : Text} {d : Option Text} (h : fieldDescription? s = some (d, rest)) :
    ∃ body, body <:+: s ∧ d = Comment.fieldText? body := by
  simp only [fieldDescription?, Option.bind_eq_bind, Option.bind_eq_some_iff] at h
  obtain ⟨opened, hopened, ⟨body, behind⟩, hbody, h⟩ := h
  split at h
  · cases h
    have hmarks := (Text.dropMark_suffix [' '] _).trans (Text.dropMark_suffix "description:".toList opened)
    exact ⟨body, (Text.infix_of_until? hbody).trans (hmarks.trans (Text.after?_suffix hopened)).isInfix, rfl⟩
  · cases h

theorem blockComment?_body {s body rest : Text} (h : blockComment? s = some (body, rest)) : body <:+: s := by
  simp only [blockComment?, Option.bind_eq_bind, Option.bind_eq_some_iff] at h
  obtain ⟨opened, hopened, ⟨body', behind⟩, hbody, h⟩ := h
  split at h
  · cases h
    have hstars := (List.dropWhile_suffix (l := opened) (· = '*')).trans (Text.after?_suffix hopened)
    exact (Text.infix_of_until? hbody).trans hstars.isInfix
  · cases h

theorem leadingComment_body {s d : Text} (h : (leadingComment s).1 = some d) :
    ∃ body, body <:+: s ∧ Comment.blockText? body = some d := by
  unfold leadingComment at h
  split at h
  · rename_i body rest hcomment
    exact ⟨body, (blockComment?_body hcomment).trans (Text.skipLineFeed_suffix s).isInfix, h⟩
  · cases h

theorem fieldDescription?_notBlank {s rest : Text} {d : Option Text}
    (h : fieldDescription? s = some (d, rest)) : NotBlank d := by
  obtain ⟨body, -, rfl⟩ := fieldDescription?_body h
  exact fun t ht => Comment.fieldText?_not_blank ht

theorem leadingComment_notBlank (s : Text) : NotBlank (leadingComment s).1 := by
  intro t ht
  obtain ⟨body, -, hbody⟩ := leadingComment_body ht
  exact Comment.blockText?_not_blank hbody

theorem fieldRecords_notBlank (lineFeeds : Nat) (macroPrefix s : Text) :
    ∀ f ∈ (fieldRecords lineFeeds macroPrefix s).1, NotBlank f.description := by
  fun_induction fieldRecords lineFeeds macroPrefix s with
  | case1 => simp
  | case2 => simp
  | case3 s name bits behind h d behind' hd records rest heq ih =>
    rw [heq] at ih
    exact List.forall_mem_cons.mpr ⟨fieldDescription?_notBlank hd, ih⟩

theorem registerRecords_notBlank (lineFeeds : Nat) (macroPrefix s : Text) :
    ∀ r ∈ registerRecords lineFeeds macroPrefix s, r.AllNotBlank := by
  fun_induction registerRecords lineFeeds macroPrefix s with
  | case1 => simp
  | case2 _ _ _ _ _ _ _ ih => exact ih
  | case3 s before start h comment place address behind ha fields ih =>
    exact List.forall_mem_cons.mpr
      ⟨⟨leadingComment_notBlank start, fieldRecords_notBlank lineFeeds macroPrefix behind⟩, ih⟩

/-! ## The peripheral -/

/-- **What is kept of a header.** -/
theorem read_keeps (text name : Text) (description : Option Text) (macroPrefix : Text) :
    let records := extract text macroPrefix
    let reading := read text name description macroPrefix
    reading.peripheral.name = name ∧
    Description.Keeps description reading.peripheral.description ∧
    List.Forall₂ RegisterRecord.Describes (sortByKey (·.offset.val) records)
      reading.peripheral.registers ∧
    (∀ f : FieldRecord, (∃ kept, f.field = .ok kept) ↔ f.bits.isUsable) ∧
    ∃ reports, List.Forall₂ RegisterRecord.Reports records reports ∧
      reading.notices.map Notice.log = reports.flatten := by
  intro records reading
  have hregisters : reading.peripheral.registers =
      sortByKey (·.byteOffset.val) (records.map RegisterRecord.register) :=
    Peripheral.registers_addAll _ _
  have hnotices : reading.notices.map Notice.log =
      (records.map fun r => r.notices.map Notice.log).flatten := by
    rw [← List.flatMap_def, ← List.map_flatMap]
    rfl
  refine ⟨Peripheral.name_addAll _ _, ?_, ?_, FieldRecord.field_isOk_iff, _, ?_, hnotices⟩
  · simp only [reading, read, Peripheral.description_addAll]
    exact Description.keeps_ofOption? description
  · rw [hregisters]
    refine forall₂_sortByKey (fun _ _ hd => by rw [hd.byteOffset_eq]) ?_
    rw [List.forall₂_map_right_iff, List.forall₂_same]
    exact fun r hr => RegisterRecord.register_describes (registerRecords_notBlank _ _ _ r hr)
  · rw [List.forall₂_map_right_iff, List.forall₂_same]
    exact fun r _ => r.notices_reported

end RegisterMap.Header
