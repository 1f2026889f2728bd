import RegisterMap.Proofs.Header.Anchors

/-!
# Comments of bits taken for descriptions

The comment of a description need not be tagged, so that of another field's bits can
be taken for one. A tagged comment never is. For an untagged one all of its line is
the description, and the field that it speaks of is not read.
-/

namespace RegisterMap.Header

open Text (dropMark firstLine)

/-- A line that is read as the comment of a field's bits. -/
def IsBitsComment (macroPrefix line : Text) : Prop := (fieldComment? macroPrefix (line ++ ['\n'])).isSome

instance (macroPrefix line : Text) : Decidable (IsBitsComment macroPrefix line) :=
  inferInstanceAs (Decidable (_ = true))

theorem IsBitsComment.eq_append {macroPrefix line : Text} (hplain : '\n' ∉ macroPrefix) (hline : '\n' ∉ line)
    (h : IsBitsComment macroPrefix line) : ∃ body, line = "/* ".toList ++ (body ++ "*/".toList) := by
  obtain ⟨⟨⟨name, bits⟩, rest⟩, hread⟩ := Option.isSome_iff_exists.mp h
  obtain ⟨word, passed, hstart, -, hparts, hpassed, hend⟩ := eq_append_of_fieldComment? hread
  obtain ⟨behind, rfl⟩ := eq_cons_of_atLineEnd hend
  have hword := lineFeed_not_mem_word hstart.all_isWordChar
  have hlines : line ++ ['\n'] =
      "/* ".toList ++ ((macroPrefix ++ (word ++ passed)) ++ "*/".toList) ++ '\n' :: behind := by simp [hparts]
  exact ⟨macroPrefix ++ (word ++ passed),
    Text.eq_of_append_lineFeed hline (by simp [hplain, hword, hpassed]) hlines⟩

theorem not_isBitsComment_of_tagged {line : Text} (h : "/*description:".toList <+: line) (macroPrefix : Text) :
    ¬ IsBitsComment macroPrefix line := by
  obtain ⟨rest, rfl⟩ := h
  exact Bool.false_ne_true

/-! ## Descriptions -/

theorem fieldDescription?_of_line {body below rest : Text} {d : Option Text} (hbody : '\n' ∉ body)
    (h : fieldDescription? ("/* ".toList ++ (body ++ ("*/".toList ++ '\n' :: below))) = some (d, rest)) :
    d = Comment.fieldText? body := by
  have hmark : "/* ".toList = "/*".toList ++ [' '] := rfl
  rw [fieldDescription?, hmark, List.append_assoc, Text.after?_append, Option.bind_eq_bind, Option.bind_some] at h
  obtain ⟨⟨found, rest'⟩, huntil, h⟩ := Option.bind_eq_some_iff.mp h
  have hblank : dropMark [' '] (dropMark "description:".toList ([' '] ++ (body ++ ("*/".toList ++ '\n' :: below)))) =
      body ++ ("*/".toList ++ '\n' :: below) := rfl
  rw [hblank] at huntil
  dsimp only at h
  split at h
  · rename_i hend
    cases h
    obtain ⟨behind, rfl⟩ := eq_cons_of_atLineEnd hend
    -- the first closing mark ends a line, and stands on the first one
    have hfound : '\n' ∉ found := fun hmem => hbody ((Text.prefix_of_until? (by decide) huntil).subset hmem)
    have hparts := Text.eq_append_of_until? huntil
    rw [← List.append_assoc] at hparts
    have hsame := Text.eq_of_append_lineFeed (by simp [hbody]) (by simp [hfound]) hparts
    rw [List.append_cancel_right hsame]
  · cases h

/-- What is taken for the description of a field, by the line that it starts on. -/
structure FieldRecord.DescribedBy (macroPrefix line : Text) (f : FieldRecord) : Prop where
  comment : "/*".toList <+: line
  tagged : "/*description:".toList <+: line → ¬ IsBitsComment macroPrefix line
  untagged : IsBitsComment macroPrefix line →
    ∃ body, line = "/* ".toList ++ (body ++ "*/".toList) ∧ f.description = Comment.fieldText? body

theorem FieldRecord.ReadIn.describedBy {text macroPrefix : Text} {f : FieldRecord} (hplain : '\n' ∉ macroPrefix)
    (h : f.ReadIn text macroPrefix) :
    ∃ line, text.line? (f.line + 1) = some line ∧ f.DescribedBy macroPrefix line := by
  obtain ⟨place, below, rest, hplace, hline, hbits, hdescription⟩ := h
  have hbelow : '\n' :: below <:+ text := (fieldComment?_suffix hbits).trans ((List.suffix_cons ..).trans hplace)
  obtain ⟨-, hcomment, -⟩ := fieldComment?_startsWith hplain hbits
  obtain ⟨hopens, hend⟩ := fieldDescription?_opens hdescription
  obtain ⟨after, rfl⟩ := eq_cons_of_atLineEnd hend
  obtain ⟨behind, hbehind⟩ := Text.eq_firstLine_append
    ((fieldDescription?_suffix hdescription).subset (List.mem_cons_self ..))
  have hflat := Text.lineFeed_not_mem_firstLine below
  refine ⟨firstLine below, ?_, prefix_firstLine (by decide) hopens,
    fun htagged => not_isBitsComment_of_tagged htagged macroPrefix, fun huntagged => ?_⟩
  · rw [hline, lineAt_of_onLine _ hcomment, ← lineAt_of_lineFeed hbelow, line?_lineAt hbelow]
  · obtain ⟨body, hbody⟩ := huntagged.eq_append hplain hflat
    rw [hbody] at hflat
    rw [hbehind, hbody, List.append_assoc, List.append_assoc] at hdescription
    exact ⟨body, hbody, fieldDescription?_of_line (fun hmem => hflat (by simp [hmem])) hdescription⟩

def RegisterRecord.descriptionLines (r : RegisterRecord) : List Nat := r.fields.map (·.line + 1)

theorem RegisterRecord.partLines_perm (r : RegisterRecord) : r.partLines.Perm (r.lines ++ r.descriptionLines) := by
  refine List.Perm.cons r.line ?_
  have hfields := List.flatMap_append_perm r.fields (fun f => [f.line]) (fun f => [f.line + 1])
  simp only [← List.map_eq_flatMap] at hfields
  exact hfields.symm

theorem disjoint_descriptionLines {records : List RegisterRecord}
    (h : (records.flatMap RegisterRecord.partLines).Pairwise (· < ·)) :
    List.Disjoint (records.flatMap RegisterRecord.lines) (records.flatMap RegisterRecord.descriptionLines) := by
  have hparts : (records.flatMap RegisterRecord.partLines).Perm
      (records.flatMap RegisterRecord.lines ++ records.flatMap RegisterRecord.descriptionLines) :=
    (List.Perm.flatMap_left records fun r _ => r.partLines_perm).trans
      (List.flatMap_append_perm records _ _).symm
  have hnodup : (records.flatMap RegisterRecord.partLines).Nodup := h.imp Nat.ne_of_lt
  exact List.disjoint_of_nodup_append (hparts.nodup hnodup)

/-- **What is taken for a description.** On the line below a field its description starts. A tagged
one is no comment of bits. If the line is one all the same, its text is the description, and no
record is on that line. Lines are those of the text with unified line ends. -/
theorem extract_describedBy (text : Text) {macroPrefix : Text} (hplain : '\n' ∉ macroPrefix) :
    let records := extract text macroPrefix
    ∀ r ∈ records, ∀ f ∈ r.fields,
      (∃ line, text.unifyLineEnds.line? (f.line + 1) = some line ∧ f.DescribedBy macroPrefix line) ∧
        ∀ other ∈ records, f.line + 1 ∉ other.lines := by
  intro records r hr f hf
  have hread : RegistersRead text.unifyLineEnds macroPrefix _ records := extract_read text macroPrefix
  obtain ⟨start, rest, hr'⟩ := hread.readIn r hr
  refine ⟨(hr'.fields f hf).describedBy hplain, fun other hother hline => ?_⟩
  refine disjoint_descriptionLines hread.ascending.pairwise (List.mem_flatMap.mpr ⟨other, hother, hline⟩) ?_
  exact List.mem_flatMap.mpr ⟨r, hr, List.mem_map.mpr ⟨f, hf, rfl⟩⟩

def untaggedText : Text :=
  ("\n\n#define X_A_REG (DR_REG_X_BASE + 0x8)\n/* X_ONE : R/W ;bitpos:[0] ; */\n" ++
    "/* X_TWO : R/W ;bitpos:[1] ; */\n/* X_SIX : R/W ;bitpos:[6] ; */\n/*description: six.*/\n").toList

theorem extract_untaggedText : extract untaggedText "X_".toList =
    [⟨"a".toList, 8, none, 3, [⟨"one".toList, .single 0, some "X_TWO : R/W ;bitpos:[1] ;".toList, 4⟩,
      ⟨"six".toList, .single 6, some "six".toList, 6⟩]⟩] := by
  decide +kernel

theorem extract_describedBy_untaggedText :
    '\n' ∉ "X_".toList ∧
      ∃ r ∈ extract untaggedText "X_".toList, ∃ f ∈ r.fields, f.name = "one".toList ∧ f.line = 4 ∧
        (∃ line, untaggedText.unifyLineEnds.line? 5 = some line ∧ f.DescribedBy "X_".toList line) ∧
        ∀ other ∈ extract untaggedText "X_".toList, 5 ∉ other.lines := by
  have hplain : '\n' ∉ "X_".toList := by decide
  obtain ⟨r, hr, f, hf, hname, hline⟩ : ∃ r ∈ extract untaggedText "X_".toList, ∃ f ∈ r.fields,
      f.name = "one".toList ∧ f.line = 4 := by
    rw [extract_untaggedText]
    exact ⟨_, List.mem_singleton_self _, _, List.mem_cons_self .., rfl, rfl⟩
  have hdescribed := extract_describedBy untaggedText hplain r hr f hf
  rw [hline] at hdescribed
  exact ⟨hplain, r, hr, f, hf, hname, hline, hdescribed⟩

/-- The comment of the second field is the description of the first. -/
theorem field_hidden_as_description :
    ¬ ∀ r ∈ extract untaggedText "X_".toList, ∀ f ∈ r.fields, ∀ line,
      untaggedText.unifyLineEnds.line? (f.line + 1) = some line → ¬ IsBitsComment "X_".toList line := by
  intro h
  rw [extract_untaggedText] at h
  refine h _ (List.mem_singleton_self _) _ (List.mem_cons_self ..) "/* X_TWO : R/W ;bitpos:[1] ; */".toList ?_ ?_
  · decide +kernel
  · decide

end RegisterMap.Header
