import RegisterMap.Proofs.Header.Anchors
import RegisterMap.Proofs.Header.LowerLines

/-!
# Comments in front of registers

A comment in front of a register becomes its description, and moves everything
down by its lines. The stars that a comment starts with are taken as one run with
the star that opens it. If there is nothing else in the comment, the run takes the
star of the closing mark too, and the register behind the comment is not read.
-/

namespace RegisterMap.Header

open Text (until? until?_append after?_append skipLineFeed lines stops_cons unifyLineEnds_of_not_mem)

variable {macroPrefix : Text}

section
variable {lineFeeds : Nat}

theorem lineAt_add_two_le {s : Text} (hs : s.count '\n' ≤ lineFeeds) :
    ∀ r ∈ registerRecords lineFeeds macroPrefix s, lineAt lineFeeds s + 2 ≤ r.line := by
  have hbelow {s before start : Text} (hs : s.count '\n' ≤ lineFeeds)
      (hstart : until? "\n\n".toList s = some (before, start)) :
      lineAt lineFeeds s + 2 ≤ lineAt lineFeeds start := by
    rw [Text.eq_append_of_until? hstart, List.count_append, List.count_append, count_emptyLine] at hs
    rw [lineAt, lineAt, Text.eq_append_of_until? hstart, List.count_append, List.count_append, count_emptyLine]
    omega
  fun_induction registerRecords lineFeeds macroPrefix s with
  | case1 => simp
  | case2 s before start hstart comment place hnone ih =>
    have hcomment : comment.2 <:+ start := leadingComment_suffix start
    intro r hr
    have hline := ih (count_le_of_suffix (hcomment.trans (Text.until?_suffix hstart)) hs) r hr
    have hstartLine := hbelow hs hstart
    have hcommentLine := lineAt_le_of_suffix lineFeeds hcomment
    omega
  | case3 s before start hstart comment place address behind haddress fields ih =>
    have hplace : place <:+ start := (Text.skipLineFeed_suffix _).trans (leadingComment_suffix start)
    have hfields : fields.2 <:+ place := (fieldRecords_suffix lineFeeds macroPrefix behind).trans (address?_suffix haddress)
    have hstartLine := hbelow hs hstart
    have hplaceLine := lineAt_le_of_suffix lineFeeds hplace
    have hfieldsLine := lineAt_le_of_suffix lineFeeds hfields
    refine List.forall_mem_cons.mpr ⟨Nat.le_trans hstartLine hplaceLine, fun r hr => ?_⟩
    have hline := ih (count_le_of_suffix (hfields.trans (hplace.trans (Text.until?_suffix hstart))) hs) r hr
    omega

theorem lineAt_skipLineFeed_le (lineFeeds : Nat) (s : Text) :
    lineAt lineFeeds (skipLineFeed s) ≤ lineAt lineFeeds s + 1 := by
  unfold skipLineFeed
  split
  · rw [lineAt, lineAt, List.count_cons_self]
    omega
  · exact Nat.le_succ _

theorem lineAt_le_of_start {s before start behind : Text} {description : Option Text}
    (hs : s.count '\n' ≤ lineFeeds) (hstart : until? "\n\n".toList s = some (before, start))
    (hcomment : leadingComment start = (description, behind)) :
    ∀ r ∈ registerRecords lineFeeds macroPrefix s, lineAt lineFeeds (skipLineFeed behind) ≤ r.line := by
  have hbehind : behind <:+ s := by
    have := leadingComment_suffix start
    rw [hcomment] at this
    exact this.trans (Text.until?_suffix hstart)
  have hplace : skipLineFeed behind <:+ s := (Text.skipLineFeed_suffix behind).trans hbehind
  intro r hr
  cases haddress : address? macroPrefix (skipLineFeed behind) with
  | none =>
    rw [registerRecords_of_no_address hstart hcomment haddress] at hr
    have hline := lineAt_add_two_le (count_le_of_suffix hbehind hs) r hr
    have hskip := lineAt_skipLineFeed_le lineFeeds behind
    omega
  | some read =>
    obtain ⟨address, rest⟩ := read
    rw [registerRecords_of_address hstart hcomment haddress, List.mem_cons] at hr
    have hrest : (fieldRecords lineFeeds macroPrefix rest).2 <:+ skipLineFeed behind :=
      (fieldRecords_suffix lineFeeds macroPrefix rest).trans (address?_suffix haddress)
    rcases hr with rfl | hr
    · exact Nat.le_refl _
    · have hline := lineAt_add_two_le (count_le_of_suffix (hrest.trans hplace) hs) r hr
      have hrestLine := lineAt_le_of_suffix lineFeeds hrest
      omega

end

/-! ## Reading the comment -/

/-- A comment that ends its line, and what stands below it. -/
def commented (c block : Text) : Text := "/*".toList ++ (c ++ ("*/".toList ++ '\n' :: block))

theorem count_commented (c block : Text) :
    (commented c block).count '\n' = c.count '\n' + 1 + block.count '\n' := by
  have hopening : "/*".toList.count '\n' = 0 := rfl
  have hclosing : "*/".toList.count '\n' = 0 := rfl
  rw [commented, List.count_append, List.count_append, List.count_append, List.count_cons_self, hopening,
    hclosing]
  omega

theorem leadingComment_commented {c : Text} (hclosing : ¬ "*/".toList <:+: c) (hother : ∃ ch ∈ c, ch ≠ '*')
    (block : Text) :
    leadingComment (commented c block) = (Comment.blockText? (c.dropWhile (· = '*')), '\n' :: block) := by
  have hdrop (rest : Text) : (c ++ rest).dropWhile (· = '*') = c.dropWhile (· = '*') ++ rest := by
    obtain ⟨ch, hmem, hch⟩ := hother
    have hne : c.dropWhile (· = '*') ≠ [] := by
      rw [ne_eq, List.dropWhile_eq_nil_iff]
      exact fun hall => hch (of_decide_eq_true (hall ch hmem))
    rw [List.dropWhile_append, if_neg (by simpa using hne)]
  have hopen : ¬ "*/".toList <:+: c.dropWhile (· = '*') ++ "*/".toList.dropLast :=
    Text.not_infix_concat (by decide) fun h => hclosing (h.trans (List.dropWhile_suffix _).isInfix)
  have hskip : skipLineFeed (commented c block) = commented c block := rfl
  rw [leadingComment, hskip, blockComment?, commented, after?_append, Option.bind_eq_bind, Option.bind_some,
    hdrop, until?_append (by decide) _ hopen]
  rfl

/-- A comment of stars is not read, or read up to the end of a later one. -/
theorem leadingComment_stars {c : Text} (hstars : c.all (· = '*')) (block : Text) :
    leadingComment (commented c block) = (none, commented c block) ∨
      ∃ description passed place, leadingComment (commented c block) = (description, '\n' :: place) ∧
        block = passed ++ '\n' :: place := by
  have hskip : skipLineFeed (commented c block) = commented c block := rfl
  -- the run takes the star of the closing mark
  have hrun : (c ++ ("*/".toList ++ '\n' :: block)).dropWhile (· = '*') = '/' :: '\n' :: block := by
    have hmore : (c ++ ['*']).all (· = '*') := by
      rw [List.all_append, hstars]
      rfl
    have hparts : c ++ ("*/".toList ++ '\n' :: block) = (c ++ ['*']) ++ ('/' :: '\n' :: block) := by simp
    rw [hparts, Text.dropWhile_append_of_stops hmore (stops_cons (by decide) _)]
  have hread : blockComment? (commented c block) =
      (until? "*/".toList ('/' :: '\n' :: block)).bind fun found =>
        if Text.atLineEnd found.2 then some found else none := by
    rw [blockComment?, commented, after?_append, Option.bind_eq_bind, Option.bind_some, hrun]
    rfl
  have hnone (h : blockComment? (commented c block) = none) :
      leadingComment (commented c block) = (none, commented c block) := by
    rw [leadingComment, hskip, h]
  cases huntil : until? "*/".toList ('/' :: '\n' :: block) with
  | none => exact .inl (hnone (by rw [hread, huntil]; rfl))
  | some found =>
    obtain ⟨body, rest⟩ := found
    rw [huntil, Option.bind_some] at hread
    by_cases hend : Text.atLineEnd rest
    · obtain ⟨place, rfl⟩ := eq_cons_of_atLineEnd hend
      have hparts := Text.eq_append_of_until? huntil
      refine .inr ⟨Comment.blockText? body, (body.drop 2) ++ "*/".toList, place, ?_, ?_⟩
      · rw [leadingComment, hskip, hread]
        rfl
      · obtain _ | ⟨_, _ | ⟨_, passed⟩⟩ := body
        · simp at hparts
        · simp at hparts
        · simpa using (List.cons.inj (List.cons.inj hparts).2).2
    · exact .inl (hnone (by rw [hread]; exact if_neg hend))

section
variable {block behind : Text} {a : Address} (haddress : address? macroPrefix block = some (a, behind))
include haddress

theorem eq_define_of_address : ∃ rest, block = "#define ".toList ++ rest := by
  simp only [address?, Option.bind_eq_bind, Option.bind_eq_some_iff] at haddress
  obtain ⟨rest, hdefine, -⟩ := haddress
  exact ⟨rest, Text.after?_eq_some_iff.mp hdefine⟩

theorem skipLineFeed_of_address : skipLineFeed block = block := by
  obtain ⟨rest, rfl⟩ := eq_define_of_address haddress
  rfl

theorem leadingComment_of_address : leadingComment block = (none, block) := by
  obtain ⟨rest, rfl⟩ := eq_define_of_address haddress
  rfl

end

theorem until?_emptyLine (s : Text) : until? "\n\n".toList ("\n\n".toList ++ s) = some ([], s) :=
  until?_append (by decide) s (show ¬ "\n\n".toList <:+: [] ++ "\n\n".toList.dropLast by decide)

section
variable {c block behind : Text} {a : Address} (haddress : address? macroPrefix block = some (a, behind))
include haddress

theorem registerRecords_block (lineFeeds : Nat) :
    registerRecords lineFeeds macroPrefix ("\n\n".toList ++ block) =
      ⟨a.name, a.offset, none, lineAt lineFeeds block, (fieldRecords lineFeeds macroPrefix behind).1⟩ ::
        registerRecords lineFeeds macroPrefix (fieldRecords lineFeeds macroPrefix behind).2 := by
  have hplace := skipLineFeed_of_address haddress
  have hread : address? macroPrefix (skipLineFeed block) = some (a, behind) := by rw [hplace, haddress]
  rw [registerRecords_of_address (until?_emptyLine block) (leadingComment_of_address haddress) hread, hplace]

theorem registerRecords_commented (lineFeeds : Nat) (hclosing : ¬ "*/".toList <:+: c)
    (hother : ∃ ch ∈ c, ch ≠ '*') :
    registerRecords lineFeeds macroPrefix ("\n\n".toList ++ commented c block) =
      ⟨a.name, a.offset, Comment.blockText? (c.dropWhile (· = '*')), lineAt lineFeeds block,
          (fieldRecords lineFeeds macroPrefix behind).1⟩ ::
        registerRecords lineFeeds macroPrefix (fieldRecords lineFeeds macroPrefix behind).2 :=
  registerRecords_of_address (until?_emptyLine _) (leadingComment_commented hclosing hother block) haddress

end

theorem registerRecords_stars {lineFeeds : Nat} {c block : Text} (hstars : c.all (· = '*'))
    (hs : ("\n\n".toList ++ commented c block).count '\n' ≤ lineFeeds) :
    ∀ r ∈ registerRecords lineFeeds macroPrefix ("\n\n".toList ++ commented c block),
      lineAt lineFeeds block < r.line := by
  have hstart := until?_emptyLine (commented c block)
  have hcommented : commented c block <:+ "\n\n".toList ++ commented c block := List.suffix_append ..
  have hcount := count_le_of_suffix hcommented hs
  have hflat : c.count '\n' = 0 := List.count_eq_zero.mpr fun hmem =>
    absurd (List.all_eq_true.mp hstars _ hmem) (by decide)
  intro r hr
  rcases leadingComment_stars hstars block with hunread | ⟨description, passed, place, hread, rfl⟩
  · have hnone : address? macroPrefix (skipLineFeed (commented c block)) = none := rfl
    rw [registerRecords_of_no_address hstart hunread hnone] at hr
    have hline := lineAt_add_two_le hcount r hr
    rw [count_commented, hflat] at hcount
    rw [lineAt, count_commented, hflat] at hline
    rw [lineAt]
    omega
  · have hline := lineAt_le_of_start hs hstart hread r hr
    rw [count_commented, List.count_append, List.count_cons_self] at hcount
    rw [skipLineFeed, lineAt] at hline
    rw [lineAt, List.count_append, List.count_cons_self]
    omega

/-- **Comments in front of registers.** A comment with anything but stars in it changes nothing but
the description of the register behind it, and all lines. Behind a comment of stars alone, or an
empty one, the register is not read. -/
theorem extract_commented {c block behind : Text} {a : Address}
    (haddress : address? macroPrefix block = some (a, behind)) (hreturn : '\r' ∉ c ++ block)
    (hclosing : ¬ "*/".toList <:+: c) :
    ∃ first others, extract ("\n\n".toList ++ block) macroPrefix = first :: others ∧
      first.description = none ∧
      ((∃ ch ∈ c, ch ≠ '*') → extract ("\n\n".toList ++ commented c block) macroPrefix =
        ({ first with description := Comment.blockText? (c.dropWhile (· = '*')) } :: others).map
          (·.movedDown (lines c).length)) ∧
      ((∀ ch ∈ c, ch = '*') → ∀ r ∈ extract ("\n\n".toList ++ commented c block) macroPrefix,
        first.line + (lines c).length < r.line) ∧
      (Comment.blockText? (c.dropWhile (· = '*')) = none ↔
        ∀ line ∈ lines (c.dropWhile (· = '*')), Comment.IsDecoration line) := by
  rw [List.mem_append, not_or] at hreturn
  have hplain : '\r' ∉ "\n\n".toList ++ block := by simp [hreturn]
  have hcommented : '\r' ∉ "\n\n".toList ++ commented c block := by simp [commented, hreturn]
  have hfeeds : ("\n\n".toList ++ commented c block).count '\n' =
      ("\n\n".toList ++ block).count '\n' + (lines c).length := by
    rw [List.count_append, List.count_append, count_commented, Text.length_lines]
    omega
  have hblock : block.count '\n' ≤ ("\n\n".toList ++ block).count '\n' :=
    (List.sublist_append_right ..).count_le '\n'
  have hfields := count_le_of_suffix (address?_suffix haddress) hblock
  have hothers := count_le_of_suffix
    (fieldRecords_suffix (("\n\n".toList ++ block).count '\n') macroPrefix behind) hfields
  simp only [extract, unifyLineEnds_of_not_mem hplain, unifyLineEnds_of_not_mem hcommented, hfeeds]
  refine ⟨_, _, registerRecords_block haddress _, rfl, fun hother => ?_, fun hstars r hr => ?_,
    Comment.blockText?_eq_none_iff⟩
  · rw [registerRecords_commented haddress _ hclosing hother, lineAt_add hblock, fieldRecords_add hfields,
      registerRecords_add hothers]
    rfl
  · have hline := registerRecords_stars (by simpa using hstars) (Nat.le_of_eq hfeeds) r hr
    rwa [lineAt_add hblock] at hline

theorem extract_commented_banner :
    extract ("\n\n".toList ++ commented "***\n * Channel\n *\n * control".toList
      "#define CH_REG (TIMG_BASE + 0x4)\n".toList) [] =
      [⟨"ch".toList, 4, some "Channel control".toList, 7, []⟩] := by
  have haddress : address? [] "#define CH_REG (TIMG_BASE + 0x4)\n".toList =
      some (⟨"ch".toList, 4⟩, ['\n']) := by decide
  have hclosing : ¬ "*/".toList <:+: "***\n * Channel\n *\n * control".toList := by decide
  obtain ⟨first, others, hfirst, -, hread, -⟩ := extract_commented haddress (by decide) hclosing
  have hplain : extract ("\n\n".toList ++ "#define CH_REG (TIMG_BASE + 0x4)\n".toList) [] =
      [⟨"ch".toList, 4, none, 3, []⟩] := by decide +kernel
  obtain ⟨rfl, rfl⟩ := List.cons.inj (hfirst.symm.trans hplain)
  rw [hread ⟨' ', by decide, by decide⟩]
  decide

/-- Two stars and the closing mark are one run: the register is lost. -/
theorem register_lost_behind_stars :
    ¬ "*/".toList <:+: ['*'] ∧
      (address? [] "#define CH_REG (DR_REG_TIMG_BASE + 0x4)\n".toList).isSome ∧
      extract "\n\n#define CH_REG (DR_REG_TIMG_BASE + 0x4)\n".toList [] = [⟨"ch".toList, 4, none, 3, []⟩] ∧
      extract "\n\n/***/\n#define CH_REG (DR_REG_TIMG_BASE + 0x4)\n".toList [] = [] := by
  refine ⟨by decide, by decide, by decide +kernel, by decide +kernel⟩

end RegisterMap.Header
