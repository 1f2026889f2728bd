import RegisterMap.Proofs.Header.Reading

/-!
# Field pairs at large

The two comments of a field as vendors write them: around its bits, which are
numbers of any size, and in its description stands what they like. A pair is
read if its numbers fit a word; otherwise no field is seen.
-/

namespace RegisterMap.Header

open Text (after? after?_append dropMark until?_append skipTo? skipTo?_append skipLineFeed atLineEnd Stops
  stops_cons)

structure Digits where
  text : Text
  nonempty : text ≠ []
  all_isDigit : text.all Char.isDigit

namespace Digits

def value (d : Digits) : Nat := Text.numeralValue 10 d.text

def numeral (d : Digits) (h : d.value < wordLimit) : Decimal := ⟨d.text, d.nonempty, d.all_isDigit, h⟩

theorem decimal?_eq_none {d : Digits} (h : ¬ d.value < wordLimit) {rest : Text}
    (hrest : Stops Char.isDigit rest) : Text.decimal? (d.text ++ rest) = none := by
  unfold Text.decimal? Text.numeral?
  rw [Text.takeWhile_append_of_stops d.all_isDigit hrest]
  dsimp only
  rw [if_neg d.nonempty]
  exact dif_neg h

end Digits

inductive WrittenBits where
  | single (bit : Digits)
  | range (hi lo : Digits)

namespace WrittenBits

def text : WrittenBits → Text
  | single bit => bit.text
  | range hi lo => hi.text ++ [':'] ++ lo.text

def bits : WrittenBits → BitRange
  | single bit => .single bit.value
  | range hi lo => .range hi.value lo.value

def Fits : WrittenBits → Prop
  | single bit => bit.value < wordLimit
  | range hi lo => hi.value < wordLimit ∧ lo.value < wordLimit

instance (b : WrittenBits) : Decidable b.Fits :=
  match b with
  | single bit => inferInstanceAs (Decidable (bit.value < wordLimit))
  | range hi lo => inferInstanceAs (Decidable (hi.value < wordLimit ∧ lo.value < wordLimit))

theorem bitRange?_of_fits {b : WrittenBits} (h : b.Fits) (rest : Text) :
    bitRange? (b.text ++ ([']'] ++ rest)) = some (b.bits, [']'] ++ rest) := by
  cases b with
  | single bit => exact (BitPosition.single (bit.numeral h)).bitRange?_text rest
  | range hi lo => exact (BitPosition.range (hi.numeral h.1) (lo.numeral h.2)).bitRange?_text rest

/-- A number too large is not read, so the bracket behind it is not reached. -/
theorem bitRange?_of_not_fits {b : WrittenBits} (h : ¬ b.Fits) (rest : Text) :
    ((bitRange? (b.text ++ ([']'] ++ rest))).bind fun read => after? [']'] read.2) = none := by
  have hbracket (rest : Text) : Stops Char.isDigit ([']'] ++ rest) := stops_cons (by decide) rest
  have hcolon (rest : Text) : Stops Char.isDigit ([':'] ++ rest) := stops_cons (by decide) rest
  cases b with
  | single bit =>
    rw [text, bitRange?, Digits.decimal?_eq_none h (hbracket rest)]
    rfl
  | range hi lo =>
    rw [text, bitRange?, List.append_assoc, List.append_assoc]
    by_cases hhi : hi.value < wordLimit
    · have hlo : ¬ lo.value < wordLimit := fun hlo => h ⟨hhi, hlo⟩
      have hfirst : Text.decimal? (hi.text ++ ([':'] ++ (lo.text ++ ([']'] ++ rest)))) =
          some (⟨hi.value, hhi⟩, [':'] ++ (lo.text ++ ([']'] ++ rest))) :=
        (hi.numeral hhi).numeral?_digits (hcolon _)
      rw [hfirst, Option.bind_eq_bind, Option.bind_some]
      simp only [after?_append, Option.bind_eq_bind, Option.bind_some,
        Digits.decimal?_eq_none hlo (hbracket rest)]
      rfl
    · rw [Digits.decimal?_eq_none hhi (hcolon _)]
      rfl

end WrittenBits

/-! ## Pairs -/

/-- Something on one line, up to a mark. -/
structure Passage (mark : Text) where
  text : Text
  nonempty : text ≠ []
  on_one_line : '\n' ∉ text
  no_mark : ¬ mark <:+: text ++ mark.dropLast

theorem Passage.skipTo?_text {mark : Text} (hmark : mark ≠ []) (p : Passage mark) (rest : Text) :
    skipTo? mark (p.text ++ (mark ++ rest)) = some rest :=
  skipTo?_append hmark rest p.nonempty p.on_one_line p.no_mark

structure FieldPair where
  name : Identifier
  access : Passage "bitpos:[".toList
  access_stops : Stops isWordChar access.text
  bits : WrittenBits
  settings : Passage "*/".toList
  remark : Remark
  definitions : List Definition

namespace FieldPair

variable (macroPrefix : Text) (p : FieldPair)

def bitsComment : Text :=
  "/* ".toList ++ macroPrefix ++ p.name.text ++ p.access.text ++ "bitpos:[".toList ++ p.bits.text ++ [']'] ++
    p.settings.text ++ "*/".toList

def remarkComment : Text := "/*".toList ++ p.remark.text ++ "*/".toList

def text : Text :=
  ['\n'] ++ p.bitsComment macroPrefix ++ ['\n'] ++ p.remarkComment ++ p.definitions.flatMap Definition.line

def description : Option Text :=
  Comment.fieldText? (dropMark [' '] (dropMark "description:".toList p.remark.text))

def record (line : Nat) : FieldRecord := ⟨Text.lowercase p.name.text, p.bits.bits, p.description, line⟩

def records : Nat → List FieldPair → List FieldRecord
  | _, [] => []
  | line, p :: rest => p.record (line + 1) :: records (line + (p.text macroPrefix).count '\n') rest

end FieldPair

namespace FieldPair

variable {macroPrefix : Text} {p : FieldPair} {rest : Text}

theorem identifier?_name (p : FieldPair) (rest : Text) :
    identifier? (p.name.text ++ (p.access.text ++ rest)) = some (p.name.text, p.access.text ++ rest) :=
  p.name.identifier?_text (p.access_stops.append p.access.nonempty rest)

theorem fieldComment?_bitsComment (hfits : p.bits.Fits) (hrest : atLineEnd rest) :
    fieldComment? macroPrefix (p.bitsComment macroPrefix ++ rest) =
      some ((Text.lowercase p.name.text, p.bits.bits), rest) := by
  unfold bitsComment fieldComment?
  simp only [List.append_assoc, Option.bind_eq_bind]
  rw [after?_append, Option.bind_some, after?_append, Option.bind_some, p.identifier?_name, Option.bind_some]
  simp only
  rw [p.access.skipTo?_text (by decide), Option.bind_some, WrittenBits.bitRange?_of_fits hfits, Option.bind_some]
  simp only
  rw [after?_append, Option.bind_some, p.settings.skipTo?_text (by decide), Option.bind_some, if_pos hrest]

theorem fieldComment?_eq_none (hfits : ¬ p.bits.Fits) :
    fieldComment? macroPrefix (p.bitsComment macroPrefix ++ rest) = none := by
  unfold bitsComment fieldComment?
  simp only [List.append_assoc, Option.bind_eq_bind]
  rw [after?_append, Option.bind_some, after?_append, Option.bind_some, p.identifier?_name, Option.bind_some]
  simp only
  rw [p.access.skipTo?_text (by decide), Option.bind_some]
  have hread := WrittenBits.bitRange?_of_not_fits hfits (p.settings.text ++ ("*/".toList ++ rest))
  cases hbits : bitRange? (p.bits.text ++ ([']'] ++ (p.settings.text ++ ("*/".toList ++ rest)))) with
  | none => rfl
  | some read =>
    rw [hbits, Option.bind_some] at hread
    rw [Option.bind_some, hread]
    rfl

theorem fieldDescription?_remarkComment (hrest : atLineEnd rest) :
    fieldDescription? (p.remarkComment ++ rest) = some (p.description, rest) := by
  have hwords : dropMark [' '] (dropMark "description:".toList (p.remark.text ++ ("*/".toList ++ rest))) =
      dropMark [' '] (dropMark "description:".toList p.remark.text) ++ ("*/".toList ++ rest) := by
    show dropMark [' '] (dropMark "description:".toList (p.remark.text ++ '*' :: ('/' :: rest))) = _
    rw [Text.dropMark_append_cons (by decide), Text.dropMark_append_cons (by decide)]
    rfl
  have hbody : dropMark [' '] (dropMark "description:".toList p.remark.text) <:+ p.remark.text :=
    (Text.dropMark_suffix ..).trans (Text.dropMark_suffix ..)
  have hopen : ¬ "*/".toList <:+: dropMark [' '] (dropMark "description:".toList p.remark.text) ++
      "*/".toList.dropLast :=
    Text.not_infix_concat (by decide) fun h => p.remark.not_closing (h.trans hbody.isInfix)
  unfold remarkComment fieldDescription?
  simp only [List.append_assoc, Option.bind_eq_bind]
  rw [after?_append, Option.bind_some, hwords, until?_append (by decide) rest hopen, Option.bind_some]
  simp only
  rw [if_pos hrest, description]

theorem text_append (p : FieldPair) (rest : Text) :
    p.text macroPrefix ++ rest = '\n' :: (p.bitsComment macroPrefix ++
      '\n' :: (p.remarkComment ++ (p.definitions.flatMap Definition.line ++ rest))) := by
  simp only [text, List.append_assoc, List.cons_append, List.nil_append]

end FieldPair

/-! ## One pair after the other -/

variable {macroPrefix : Text} {lineFeeds : Nat}

theorem lineAt_eq {passed : Nat} {s : Text} (h : lineFeeds = passed + s.count '\n') :
    lineAt lineFeeds s = passed + 1 := by
  rw [lineAt, h, Nat.add_sub_cancel]

theorem count_emptyLine : "\n\n".toList.count '\n' = 2 := rfl

theorem skipDefines_of_some {s rest : Text} (h : defineLine? s = some rest) :
    skipDefines s = skipDefines rest := by
  rw [skipDefines]
  split
  · rename_i hsome
    rw [h] at hsome
    cases hsome
    rfl
  · rename_i hnone
    rw [h] at hnone
    cases hnone

theorem skipDefines_of_none {s : Text} (h : defineLine? s = none) : skipDefines s = s := by
  rw [skipDefines]
  split
  · rename_i hsome
    rw [h] at hsome
    cases hsome
  · rfl

theorem atLineEnd_definitions {rest : Text} (hrest : atLineEnd rest) : ∀ ws : List Definition,
    atLineEnd (ws.flatMap Definition.line ++ rest)
  | [] => hrest
  | _ :: _ => rfl

theorem skipDefines_definitions {rest : Text} (hrest : atLineEnd rest) (hnone : defineLine? rest = none) :
    ∀ ws : List Definition, skipDefines (ws.flatMap Definition.line ++ rest) = rest
  | [] => skipDefines_of_none hnone
  | w :: ws => by
    rw [List.flatMap_cons, List.append_assoc,
      skipDefines_of_some (w.defineLine?_line (atLineEnd_definitions hrest ws)),
      skipDefines_definitions hrest hnone ws]

theorem fieldRecords_of_none {s : Text} (h : fieldComment? macroPrefix (skipLineFeed s) = none) :
    fieldRecords lineFeeds macroPrefix s = ([], s) := by
  rw [fieldRecords]
  split
  · rfl
  · rename_i hsome
    rw [h] at hsome
    cases hsome

theorem fieldRecords_of_some {s behind rest name : Text} {bits : BitRange} {description : Option Text}
    (hbits : fieldComment? macroPrefix (skipLineFeed s) = some ((name, bits), behind))
    (hremark : fieldDescription? (skipLineFeed behind) = some (description, rest)) :
    fieldRecords lineFeeds macroPrefix s =
      (⟨name, bits, description, lineAt lineFeeds (skipLineFeed s)⟩ ::
          (fieldRecords lineFeeds macroPrefix (skipDefines rest)).1,
        (fieldRecords lineFeeds macroPrefix (skipDefines rest)).2) := by
  rw [fieldRecords]
  split
  · rename_i hnone
    rw [hbits] at hnone
    cases hnone
  · rename_i hsome
    rw [hbits] at hsome
    cases hsome
    split
    · rename_i hnone
      rw [hremark] at hnone
      cases hnone
    · rename_i hsome
      rw [hremark] at hsome
      cases hsome
      rfl

section
variable {rest : Text}

theorem fieldRecords_pair {p : FieldPair} (hfits : p.bits.Fits) (hend : atLineEnd rest)
    (hdefine : defineLine? rest = none) {line : Nat}
    (hline : lineFeeds + 1 = line + (p.text macroPrefix ++ rest).count '\n') :
    fieldRecords lineFeeds macroPrefix (p.text macroPrefix ++ rest) =
      (p.record (line + 1) :: (fieldRecords lineFeeds macroPrefix rest).1,
        (fieldRecords lineFeeds macroPrefix rest).2) := by
  have hdefinitions := atLineEnd_definitions hend p.definitions
  rw [p.text_append] at hline ⊢
  rw [List.count_cons_self, ← Nat.add_assoc, Nat.add_right_cancel_iff] at hline
  have hbits : fieldComment? macroPrefix (p.bitsComment macroPrefix ++
      '\n' :: (p.remarkComment ++ (p.definitions.flatMap Definition.line ++ rest))) = some _ :=
    FieldPair.fieldComment?_bitsComment hfits rfl
  have hremark : fieldDescription? (skipLineFeed
      ('\n' :: (p.remarkComment ++ (p.definitions.flatMap Definition.line ++ rest)))) = some _ :=
    FieldPair.fieldDescription?_remarkComment hdefinitions
  rw [fieldRecords_of_some hbits hremark, skipDefines_definitions hend hdefine, skipLineFeed, lineAt_eq hline]
  rfl

theorem fieldRecords_of_not_fits {p : FieldPair} (hfits : ¬ p.bits.Fits) :
    fieldRecords lineFeeds macroPrefix (p.text macroPrefix ++ rest) = ([], p.text macroPrefix ++ rest) := by
  refine fieldRecords_of_none ?_
  rw [p.text_append]
  exact FieldPair.fieldComment?_eq_none hfits

theorem starts_pairs (macroPrefix : Text) (hend : atLineEnd rest) (hdefine : defineLine? rest = none) : ∀ ps : List FieldPair,
    atLineEnd (ps.flatMap (FieldPair.text macroPrefix) ++ rest) ∧
      defineLine? (ps.flatMap (FieldPair.text macroPrefix) ++ rest) = none
  | [] => ⟨hend, hdefine⟩
  | _ :: _ => ⟨rfl, rfl⟩

theorem fieldRecords_pairs (hend : atLineEnd rest) (hdefine : defineLine? rest = none) :
    ∀ (ps : List FieldPair) {line : Nat}, (∀ p ∈ ps, p.bits.Fits) →
      lineFeeds + 1 = line + (ps.flatMap (FieldPair.text macroPrefix) ++ rest).count '\n' →
      fieldRecords lineFeeds macroPrefix (ps.flatMap (FieldPair.text macroPrefix) ++ rest) =
        (FieldPair.records macroPrefix line ps ++ (fieldRecords lineFeeds macroPrefix rest).1,
          (fieldRecords lineFeeds macroPrefix rest).2)
  | [], _, _, _ => rfl
  | p :: ps, line, hfits, hline => by
    obtain ⟨hp, hps⟩ := List.forall_mem_cons.mp hfits
    obtain ⟨hends, hdefines⟩ := starts_pairs macroPrefix hend hdefine ps
    rw [List.flatMap_cons, List.append_assoc] at hline ⊢
    rw [fieldRecords_pair hp hends hdefines hline]
    rw [List.count_append, ← Nat.add_assoc] at hline
    rw [fieldRecords_pairs hend hdefine ps hps hline]
    rfl

end

end RegisterMap.Header
