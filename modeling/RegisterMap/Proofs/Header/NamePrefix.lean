import RegisterMap.Proofs.Header.Anchors
import RegisterMap.Proofs.Header.LowerLines

/-!
# Prefixes of names

A prefix made of the characters of names is read in front of each name, or as
its beginning if no prefix is asked for. Where all records are named behind the
prefix, asking for it takes it off their names and changes nothing else: the two
readings go in step, and stand before the same block whenever they look for the
next one.
-/

namespace RegisterMap.Header

open Text (after? until? skipLineFeed firstLine)

theorem StartsWith.of_nameBehind? {mark s word rest : Text} (h : nameBehind? mark [] s = some (word, rest)) :
    StartsWith mark word s := by
  have hstart := startsWith_of_nameBehind? h
  rwa [List.append_nil] at hstart

theorem StartsWith.nameBehind?_eq {mark word s : Text} (h : StartsWith mark word s) :
    ∃ rest, nameBehind? mark [] s = some (word, rest) := by
  obtain ⟨hne, hword, rest, rfl, hrest⟩ := h
  exact ⟨rest, nameBehind?_eq_some_iff.mpr ⟨by simp, hne, hword, hrest⟩⟩

section
variable {mark macroPrefix s word rest : Text} (hplain : macroPrefix.all isWordChar)
include hplain

theorem nameBehind?_iff : nameBehind? mark macroPrefix s = some (word, rest) ↔
    word ≠ [] ∧ nameBehind? mark [] s = some (macroPrefix ++ word, rest) := by
  rw [nameBehind?_eq_some_iff, nameBehind?_eq_some_iff, List.nil_append, List.append_assoc, List.all_append,
    hplain, Bool.true_and]
  constructor
  · rintro ⟨hs, hne, hword⟩
    exact ⟨hne, hs, List.append_ne_nil_of_right_ne_nil _ hne, hword⟩
  · rintro ⟨hne, hs, -, hword⟩
    exact ⟨hs, hne, hword⟩

theorem nameBehind?_of_line {name : Text} (hmark : '\n' ∉ mark) (hread : nameBehind? mark [] s = some (name, rest))
    (hline : StartsWith mark (macroPrefix ++ word) (firstLine s)) (hne : word ≠ []) :
    nameBehind? mark macroPrefix s = some (word, rest) ∧ name = macroPrefix ++ word := by
  obtain ⟨behind, hword⟩ := hline.nameBehind?_eq
  obtain ⟨behind', hname⟩ := ((StartsWith.of_nameBehind? hread).firstLine hmark).nameBehind?_eq
  obtain rfl : name = macroPrefix ++ word := by
    rw [hname] at hword
    exact (Prod.mk.inj (Option.some_inj.mp hword)).1
  exact ⟨(nameBehind?_iff hplain).mpr ⟨hne, hread⟩, rfl⟩

end

/-! ## Fields and registers by their names -/

section
variable {macroPrefix s rest : Text}

theorem lowercase_append (s t : Text) : Text.lowercase (s ++ t) = Text.lowercase s ++ Text.lowercase t :=
  List.map_append

/-- Behind a prefix a word is named as it is alone, but for one that the ending `_REG` ends in. -/
theorem registerName_behind {front word : Text} (h : ¬ word <:+ "_REG".toList) :
    registerName (front ++ word) = Text.lowercase front ++ registerName word := by
  by_cases hreg : ∃ stem, stem ≠ [] ∧ word = stem ++ "_REG".toList
  · obtain ⟨stem, hstem, rfl⟩ := hreg
    rw [← List.append_assoc, registerName_append (List.append_ne_nil_of_right_ne_nil front hstem),
      registerName_append hstem, lowercase_append]
  · rw [registerName_of_not_exists hreg, registerName_of_not_exists, lowercase_append]
    rintro ⟨stem, -, hstem⟩
    rcases List.append_eq_append_iff.mp hstem with ⟨left, -, hword⟩ | ⟨cut, -, hword⟩
    · by_cases hleft : left = []
      · rw [hleft, List.nil_append] at hword
        exact h (hword ▸ List.suffix_refl _)
      · exact hreg ⟨left, hleft, hword⟩
    · exact h ⟨cut, hword.symm⟩

variable (hplain : macroPrefix.all isWordChar)
include hplain

theorem fieldComment?_unprefixed {name : Text} {bits : BitRange}
    (h : fieldComment? macroPrefix s = some ((name, bits), rest)) :
    ∃ name, fieldComment? [] s = some ((name, bits), rest) := by
  obtain ⟨word, behind, hname, hbits, -⟩ := fieldComment?_eq_some_iff.mp h
  exact ⟨_, fieldComment?_eq_some_iff.mpr ⟨_, behind, ((nameBehind?_iff hplain).mp hname).2, hbits, rfl⟩⟩

theorem fieldComment?_prefixed {word name : Text} {bits : BitRange}
    (h : fieldComment? [] s = some ((name, bits), rest))
    (hline : StartsWith "/* ".toList (macroPrefix ++ word) (firstLine s)) (hne : word ≠ []) :
    fieldComment? macroPrefix s = some ((Text.lowercase word, bits), rest) ∧
      name = Text.lowercase macroPrefix ++ Text.lowercase word := by
  obtain ⟨_, behind, hname, hbits, rfl⟩ := fieldComment?_eq_some_iff.mp h
  obtain ⟨hread, rfl⟩ := nameBehind?_of_line hplain (by decide) hname hline hne
  exact ⟨fieldComment?_eq_some_iff.mpr ⟨word, behind, hread, hbits, rfl⟩, lowercase_append macroPrefix word⟩

theorem address?_unprefixed {a : Address} (h : address? macroPrefix s = some (a, rest)) :
    ∃ name, address? [] s = some (⟨name, a.offset⟩, rest) := by
  obtain ⟨word, behind, hname, hoffset, -⟩ := address?_eq_some_iff.mp h
  exact ⟨registerName (macroPrefix ++ word),
    address?_eq_some_iff.mpr ⟨_, behind, ((nameBehind?_iff hplain).mp hname).2, hoffset, rfl⟩⟩

theorem address?_prefixed {word : Text} {a : Address} (h : address? [] s = some (a, rest))
    (hline : StartsWith "#define ".toList (macroPrefix ++ word) (firstLine s)) (hword : ¬ word <:+ "_REG".toList) :
    address? macroPrefix s = some (⟨registerName word, a.offset⟩, rest) ∧
      a.name = Text.lowercase macroPrefix ++ registerName word := by
  obtain ⟨_, behind, hname, hoffset, heq⟩ := address?_eq_some_iff.mp h
  have hne : word ≠ [] := by
    rintro rfl
    exact hword List.nil_suffix
  obtain ⟨hread, rfl⟩ := nameBehind?_of_line hplain (by decide) hname hline hne
  rw [heq]
  exact ⟨address?_eq_some_iff.mpr ⟨word, behind, hread, hoffset, rfl⟩, registerName_behind hword⟩

end

def blockBehind? (s : Text) : Option Text := (until? "\n\n".toList s).map (·.2)

theorem blockBehind?_append {line : Text} (hline : '\n' ∉ line) (s : Text) :
    blockBehind? (line ++ s) = blockBehind? s := by
  induction line with
  | nil => rfl
  | cons c line ih =>
    rw [List.mem_cons, not_or] at hline
    have hnone : after? "\n\n".toList (c :: (line ++ s)) = none := if_neg hline.1
    rw [← ih hline.2, blockBehind?, blockBehind?, List.cons_append, Text.until?_cons, hnone, Option.map_map]
    rfl

theorem blockBehind?_line {line : Text} (hne : line ≠ []) (hline : '\n' ∉ line) (s : Text) :
    blockBehind? ('\n' :: (line ++ s)) = blockBehind? s := by
  obtain ⟨c, line, rfl⟩ := List.exists_cons_of_ne_nil hne
  have hc : '\n' ≠ c := fun heq => hline (heq ▸ List.mem_cons_self ..)
  have hnone : after? "\n\n".toList ('\n' :: (c :: line ++ s)) = none := by
    rw [Text.after?_eq_none_iff]
    rintro ⟨rest, hrest⟩
    exact hc (List.cons.inj (List.cons.inj hrest).2).1
  rw [← blockBehind?_append hline s, blockBehind?, blockBehind?, Text.until?_cons, hnone, Option.map_map]
  rfl

theorem registerRecords_congr {s t : Text} (h : blockBehind? s = blockBehind? t) (lineFeeds : Nat)
    (macroPrefix : Text) : registerRecords lineFeeds macroPrefix s = registerRecords lineFeeds macroPrefix t := by
  unfold blockBehind? at h
  cases hs : until? "\n\n".toList s with
  | none =>
    rw [hs, Option.map_none, eq_comm, Option.map_eq_none_iff] at h
    rw [registerRecords_of_last hs, registerRecords_of_last h]
  | some found =>
    obtain ⟨before, start⟩ := found
    rw [hs, Option.map_some, eq_comm, Option.map_eq_some_iff] at h
    obtain ⟨⟨before', start'⟩, ht, rfl⟩ := h
    rw [registerRecords_of_start hs rfl, registerRecords_of_start ht rfl]

/-! ## Two readings in step -/

def FieldRecord.behind (front : Text) (f : FieldRecord) : FieldRecord := { f with name := front ++ f.name }

def RegisterRecord.behind (front : Text) (r : RegisterRecord) : RegisterRecord :=
  { r with name := front ++ r.name, fields := r.fields.map (·.behind front) }

/-- The comment of the field names it behind the prefix. -/
def FieldRecord.PrefixedIn (text macroPrefix : Text) (f : FieldRecord) : Prop :=
  ∃ line word, text.line? f.line = some line ∧ StartsWith "/* ".toList (macroPrefix ++ word) line ∧ word ≠ []

/-- All macros of the register name it and its fields behind the prefix. Of the name of the register
more than the end of `_REG` is left without the prefix. -/
structure RegisterRecord.PrefixedIn (text macroPrefix : Text) (r : RegisterRecord) : Prop where
  line : ∃ line word, text.line? r.line = some line ∧
    StartsWith "#define ".toList (macroPrefix ++ word) line ∧ ¬ word <:+ "_REG".toList
  fields : ∀ f ∈ r.fields, f.PrefixedIn text macroPrefix

/-- Fields read in two ways: alike but for the front of their names, with the same block behind them. -/
structure FieldsInStep (front : Text) (read read' : List FieldRecord × Text) : Prop where
  records : read.1 = read'.1.map (·.behind front)
  block : blockBehind? read.2 = blockBehind? read'.2

section
variable {text macroPrefix : Text} (hplain : macroPrefix.all isWordChar)
include hplain

/-- A comment without a description is passed over, or left in place if it is without the prefix. -/
theorem fieldRecords_inStep_of_bare {lineFeeds : Nat} {place behind name : Text} {bits : BitRange}
    (hbits : fieldComment? [] place = some ((name, bits), behind))
    (hnone : fieldDescription? (skipLineFeed behind) = none) (front : Text) :
    FieldsInStep front ([], behind) (fieldRecords lineFeeds macroPrefix ('\n' :: place)) := by
  cases hprefixed : fieldComment? macroPrefix place with
  | none =>
    obtain ⟨-, ⟨passed, rfl, hline⟩, -⟩ := fieldComment?_startsWith List.not_mem_nil hbits
    have hne : passed ≠ [] := by
      rintro rfl
      exact Nat.lt_irrefl _ (length_lt_of_fieldComment? hbits)
    rw [fieldRecords_of_none hprefixed]
    exact ⟨rfl, (blockBehind?_line hne hline behind).symm⟩
  | some read =>
    obtain ⟨⟨name', bits'⟩, behind'⟩ := read
    obtain ⟨_, hread⟩ := fieldComment?_unprefixed hplain hprefixed
    rw [hbits] at hread
    cases hread
    rw [fieldRecords_of_bare hprefixed hnone]
    exact ⟨rfl, rfl⟩

theorem fieldRecords_inStep {s : Text} (hs : s <:+ text) (hend : firstLine s = [])
    (hfields : ∀ f ∈ (fieldRecords (text.count '\n') [] s).1, f.PrefixedIn text macroPrefix) :
    FieldsInStep (Text.lowercase macroPrefix) (fieldRecords (text.count '\n') [] s)
      (fieldRecords (text.count '\n') macroPrefix s) := by
  fun_induction fieldRecords (text.count '\n') [] s with
  | case1 s hnone =>
    -- What is read with a prefix is read without one.
    have hprefixed : fieldComment? macroPrefix (skipLineFeed s) = none := by
      rw [Option.eq_none_iff_forall_ne_some]
      rintro ⟨⟨name, bits⟩, rest⟩ hread
      obtain ⟨_, hsome⟩ := fieldComment?_unprefixed hplain hread
      rw [hsome] at hnone
      cases hnone
    rw [fieldRecords_of_none hprefixed]
    exact ⟨rfl, rfl⟩
  | case2 s name bits behind hbits hnone =>
    rcases Text.eq_of_firstLine_eq_nil hend with rfl | ⟨place, rfl⟩
    · exact absurd (length_lt_of_fieldComment? hbits) (by simp [skipLineFeed])
    exact fieldRecords_inStep_of_bare hplain hbits hnone _
  | case3 s name bits behind hbits description behind' hdescription records rest heq ih =>
    rcases Text.eq_of_firstLine_eq_nil hend with rfl | ⟨place, rfl⟩
    · exact absurd (length_lt_of_fieldComment? hbits) (by simp [skipLineFeed])
    obtain ⟨⟨line, word, hline, hword, hne⟩, hothers⟩ := List.forall_mem_cons.mp hfields
    rw [skipLineFeed, line?_lineAt hs, Option.some_inj] at hline
    subst hline
    obtain ⟨hprefixed, rfl⟩ := fieldComment?_prefixed hplain hbits hword hne
    obtain ⟨after, rfl⟩ := eq_cons_of_atLineEnd (fieldDescription?_opens hdescription).2
    have hrest : skipDefines ('\n' :: after) <:+ '\n' :: place :=
      (skipDefines_suffix _).trans <| (fieldDescription?_suffix hdescription).trans <|
        (Text.skipLineFeed_suffix _).trans <| (fieldComment?_suffix hbits).trans (Text.skipLineFeed_suffix _)
    rw [heq] at ih
    have hstep := ih (hrest.trans hs) (firstLine_skipDefines rfl) hothers
    rw [fieldRecords_of_some hprefixed hdescription]
    exact ⟨congrArg (List.cons _) hstep.records, hstep.block⟩

theorem registerRecords_behind {s : Text} (hs : s <:+ text)
    (h : ∀ r ∈ registerRecords (text.count '\n') [] s, r.PrefixedIn text macroPrefix) :
    registerRecords (text.count '\n') [] s =
      (registerRecords (text.count '\n') macroPrefix s).map (·.behind (Text.lowercase macroPrefix)) := by
  fun_induction registerRecords (text.count '\n') [] s with
  | case1 s hlast =>
    rw [registerRecords_of_last hlast]
    rfl
  | case2 s before start hstart comment place hnone ih =>
    -- What is read with a prefix is read without one.
    have hprefixed : address? macroPrefix place = none := by
      rw [Option.eq_none_iff_forall_ne_some]
      rintro ⟨a, rest⟩ hread
      obtain ⟨_, hsome⟩ := address?_unprefixed hplain hread
      rw [hsome] at hnone
      cases hnone
    have hcomment : comment.2 <:+ s := (leadingComment_suffix start).trans (Text.until?_suffix hstart)
    rw [registerRecords_of_no_address hstart rfl hprefixed]
    exact ih (hcomment.trans hs) h
  | case3 s before start hstart comment place address behind haddress fields ih =>
    obtain ⟨⟨⟨line, word, hline, hword, hmore⟩, hfields⟩, hothers⟩ := List.forall_mem_cons.mp h
    obtain ⟨above, htext, -⟩ := skipLineFeed_leadingComment ((suffix_of_until? hstart).trans hs)
    rw [line?_lineAt ⟨above, htext.symm⟩, Option.some_inj] at hline
    subst hline
    obtain ⟨hprefixed, hname⟩ := address?_prefixed hplain haddress hword hmore
    obtain ⟨after, rfl⟩ := eq_cons_of_atLineEnd (address?_startsWith haddress).2
    have hbehind : '\n' :: after <:+ text := (address?_suffix haddress).trans <|
      (Text.skipLineFeed_suffix _).trans <| (leadingComment_suffix start).trans <|
        (Text.until?_suffix hstart).trans hs
    have hstep := fieldRecords_inStep hplain hbehind rfl hfields
    have hread := ih ((fieldRecords_suffix ..).trans hbehind) hothers
    rw [registerRecords_of_address hstart rfl hprefixed, List.map_cons, ← registerRecords_congr hstep.block,
      ← hread]
    exact congrArg (· :: _) (by rw [hname, hstep.records]; rfl)

end

/-- **A prefix takes off names and changes nothing else.** Lines are those of the text with unified
line ends. -/
theorem extract_behind (text : Text) {macroPrefix : Text} (hplain : macroPrefix.all isWordChar)
    (h : ∀ r ∈ extract text [], r.PrefixedIn text.unifyLineEnds macroPrefix) :
    extract text [] = (extract text macroPrefix).map (·.behind (Text.lowercase macroPrefix)) :=
  registerRecords_behind hplain (List.suffix_refl _) h

def prefixedText : Text :=
  ("\n\n#define TIMG_CH_REG(i) (TIMG_BASE(i) + 0x1c)\n/* TIMG_EN : R/W ;bitpos:[0] ; */\n/* Enable. */\n" ++
    "/* LOST : R/W ;bitpos:[1] ; */\n\n#define TIMG_DATE (TIMG_BASE + 0x20)\n").toList

theorem prefixedText_prefixedIn :
    ∀ r ∈ extract prefixedText [], r.PrefixedIn prefixedText.unifyLineEnds "TIMG_".toList := by
  have hread : extract prefixedText [] =
      [⟨"timg_ch".toList, 0x1c, none, 3, [⟨"timg_en".toList, .single 0, some "Enable".toList, 4⟩]⟩,
        ⟨"timg_date".toList, 0x20, none, 8, []⟩] := by decide +kernel
  rw [hread]
  have hch : prefixedText.unifyLineEnds.line? 3 = some "#define TIMG_CH_REG(i) (TIMG_BASE(i) + 0x1c)".toList := by
    decide +kernel
  have hen : prefixedText.unifyLineEnds.line? 4 = some "/* TIMG_EN : R/W ;bitpos:[0] ; */".toList := by
    decide +kernel
  have hdate : prefixedText.unifyLineEnds.line? 8 = some "#define TIMG_DATE (TIMG_BASE + 0x20)".toList := by
    decide +kernel
  refine List.forall_mem_cons.mpr
    ⟨⟨⟨_, "CH_REG".toList, hch, StartsWith.of_nameBehind? rfl, by decide⟩, ?_⟩, ?_⟩
  · exact List.forall_mem_singleton.mpr ⟨_, "EN".toList, hen, StartsWith.of_nameBehind? rfl, by decide⟩
  · exact List.forall_mem_singleton.mpr
      ⟨⟨_, "DATE".toList, hdate, StartsWith.of_nameBehind? rfl, by decide⟩, by simp⟩

theorem extract_behind_prefixedText :
    (∀ r ∈ extract prefixedText [], r.PrefixedIn prefixedText.unifyLineEnds "TIMG_".toList) ∧
      (extract prefixedText "TIMG_".toList).map (fun r => (r.name, r.line)) =
        [("ch".toList, 3), ("date".toList, 8)] ∧
      extract prefixedText [] = (extract prefixedText "TIMG_".toList).map (·.behind "timg_".toList) := by
  have hplain : "TIMG_".toList.all isWordChar := by decide
  exact ⟨prefixedText_prefixedIn, by decide +kernel, extract_behind prefixedText hplain prefixedText_prefixedIn⟩

end RegisterMap.Header
