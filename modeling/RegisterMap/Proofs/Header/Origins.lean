import Mathlib
import RegisterMap.Proofs.Header.Places
import RegisterMap.Proofs.Header.Reading

/-!
# Where records are read

What the loops of the extraction keep, in any text. A register is looked for behind
an empty line, or behind a comment there; a field, behind the line end that the part
before it left. So each of them starts a line. The comment of a field's bits and that
of its description start lines of their own, which no other record stands on.
-/

namespace RegisterMap.Header

open Text (until? skipLineFeed firstLine)

/-- Numbers that ascend strictly, from above `lo` up to `hi`. -/
def Ascending : Nat → List Nat → Nat → Prop
  | lo, [], hi => lo ≤ hi
  | lo, n :: ns, hi => lo < n ∧ Ascending n ns hi

theorem Ascending.of_le {lo lo' hi : Nat} (hlo : lo' ≤ lo) : ∀ {ns : List Nat}, Ascending lo ns hi →
    Ascending lo' ns hi
  | [], h => Nat.le_trans hlo h
  | _ :: _, h => ⟨Nat.lt_of_le_of_lt hlo h.1, h.2⟩

theorem Ascending.append {lo mid hi : Nat} {ms : List Nat} : ∀ {ns : List Nat}, Ascending lo ns mid →
    Ascending mid ms hi → Ascending lo (ns ++ ms) hi
  | [], h, h' => h'.of_le h
  | _ :: _, h, h' => ⟨h.1, h.2.append h'⟩

theorem Ascending.bounds {lo hi : Nat} : ∀ {ns : List Nat}, Ascending lo ns hi →
    lo ≤ hi ∧ ∀ n ∈ ns, lo < n ∧ n ≤ hi
  | [], h => ⟨h, by simp⟩
  | n :: ns, ⟨hlt, hns⟩ => by
    obtain ⟨hle, hall⟩ := hns.bounds
    refine ⟨by omega, List.forall_mem_cons.mpr ⟨⟨hlt, hle⟩, fun m hm => ?_⟩⟩
    have := hall m hm
    omega

theorem Ascending.pairwise {lo hi : Nat} : ∀ {ns : List Nat}, Ascending lo ns hi → ns.Pairwise (· < ·)
  | [], _ => .nil
  | _ :: _, h => List.pairwise_cons.mpr ⟨fun n hn => (h.2.bounds.2 n hn).1, h.2.pairwise⟩

theorem Ascending.sublist {ns ms : List Nat} (hsub : ms.Sublist ns) : ∀ {lo hi : Nat}, Ascending lo ns hi →
    Ascending lo ms hi := by
  induction hsub with
  | slnil => exact fun h => h
  | cons n _ ih => exact fun h => (ih h.2).of_le (Nat.le_of_lt h.1)
  | cons_cons n _ ih => exact fun h => ⟨h.1, ih h.2⟩

section
variable {text s rest : Text}

theorem lineAt_below (above rest : Text) :
    lineAt ((above ++ '\n' :: rest).count '\n') rest = above.count '\n' + 2 := by
  simp only [lineAt, List.count_append, List.count_cons_self]
  omega

theorem line?_lineAt (h : '\n' :: rest <:+ text) :
    text.line? (lineAt (text.count '\n') rest) = some (firstLine rest) := by
  obtain ⟨above, rfl⟩ := h
  rw [lineAt_below, Text.line?_below]

theorem lineAt_le_of_suffix (lineFeeds : Nat) (h : rest <:+ s) : lineAt lineFeeds s ≤ lineAt lineFeeds rest := by
  have hcount := h.sublist.count_le '\n'
  simp only [lineAt]
  omega

theorem lineAt_of_lineFeed (h : '\n' :: rest <:+ text) :
    lineAt (text.count '\n') rest = lineAt (text.count '\n') ('\n' :: rest) + 1 := by
  have hcount := h.sublist.count_le '\n'
  simp only [lineAt, List.count_cons_self] at hcount ⊢
  omega

theorem lineAt_of_onLine (lineFeeds : Nat) (h : OnLine s rest) : lineAt lineFeeds s = lineAt lineFeeds rest := by
  rw [lineAt, lineAt, h.count_eq]

end

/-! ## Fields -/

/-- A field as it was read: the comment of its bits at a place, that of its description below it. -/
structure FieldRecord.ReadAt (text macroPrefix place below rest : Text) (f : FieldRecord) : Prop where
  place_below : '\n' :: place <:+ text
  line_eq : f.line = lineAt (text.count '\n') place
  bits : fieldComment? macroPrefix place = some ((f.name, f.bits), '\n' :: below)
  description : fieldDescription? below = some (f.description, rest)

def FieldRecord.ReadIn (text macroPrefix : Text) (f : FieldRecord) : Prop :=
  ∃ place below rest, f.ReadAt text macroPrefix place below rest

def FieldRecord.commentLines (f : FieldRecord) : List Nat := [f.line, f.line + 1]

/-- What the fields behind a place are like, and the place behind them. -/
structure FieldsRead (text macroPrefix s : Text) (read : List FieldRecord × Text) : Prop where
  readIn : ∀ f ∈ read.1, f.ReadIn text macroPrefix
  ascending : Ascending (lineAt (text.count '\n') s) (read.1.flatMap FieldRecord.commentLines)
    (lineAt (text.count '\n') read.2)
  suffix : read.2 <:+ s

theorem fieldRecords_read {text macroPrefix s : Text} (hs : s <:+ text) (hend : firstLine s = []) :
    FieldsRead text macroPrefix s (fieldRecords (text.count '\n') macroPrefix s) := by
  fun_induction fieldRecords (text.count '\n') macroPrefix s with
  | case1 s => exact ⟨by simp, Nat.le_refl _, List.suffix_refl _⟩
  | case2 s name bits behind hbits hnone =>
    have hbehind : behind <:+ s := (fieldComment?_suffix hbits).trans (Text.skipLineFeed_suffix s)
    exact ⟨by simp, lineAt_le_of_suffix _ hbehind, hbehind⟩
  | case3 s name bits behind hbits description behind' hdescription records rest heq ih =>
    -- a place at the end of the text has no field behind it
    rcases Text.eq_of_firstLine_eq_nil hend with rfl | ⟨place, rfl⟩
    · exact absurd (length_lt_of_fieldComment? hbits) (by simp [skipLineFeed])
    have hplace : skipLineFeed ('\n' :: place) = place := rfl
    rw [hplace] at hbits ⊢
    obtain ⟨below, rfl⟩ := eq_cons_of_atLineEnd (atLineEnd_of_fieldComment? hbits)
    obtain ⟨after, rfl⟩ := eq_cons_of_atLineEnd (fieldDescription?_opens hdescription).2
    have hbelow : '\n' :: below <:+ place := fieldComment?_suffix hbits
    have hrest : skipDefines ('\n' :: after) <:+ below :=
      (skipDefines_suffix _).trans (fieldDescription?_suffix hdescription)
    have hsuffix : skipDefines ('\n' :: after) <:+ '\n' :: place :=
      hrest.trans <| (List.suffix_cons ..).trans <| hbelow.trans (List.suffix_cons ..)
    have hread := ih (hsuffix.trans hs) (firstLine_skipDefines rfl)
    rw [heq] at hread
    refine ⟨?_, ⟨?_, Nat.lt_succ_self _, hread.ascending.of_le ?_⟩, hread.suffix.trans hsuffix⟩
    · exact List.forall_mem_cons.mpr ⟨⟨place, below, _, hs, rfl, hbits, hdescription⟩, hread.readIn⟩
    · show lineAt _ _ < lineAt _ place
      have := lineAt_of_lineFeed hs
      omega
    · have hline := lineAt_of_lineFeed (hbelow.trans ((List.suffix_cons ..).trans hs))
      have hplaceLine := lineAt_le_of_suffix (text.count '\n') hbelow
      have hrestLine := lineAt_le_of_suffix (text.count '\n') hrest
      show lineAt _ place + 1 ≤ _
      omega

/-! ## Registers -/

/-- A register as it was read: behind an empty line, and behind the comment that starts there. -/
structure RegisterRecord.ReadAt (text macroPrefix start rest : Text) (r : RegisterRecord) : Prop where
  start_below : "\n\n".toList ++ start <:+ text
  description_eq : r.description = (leadingComment start).1
  line_eq : r.line = lineAt (text.count '\n') (skipLineFeed (leadingComment start).2)
  address : address? macroPrefix (skipLineFeed (leadingComment start).2) = some (⟨r.name, r.offset⟩, rest)
  fields : ∀ f ∈ r.fields, f.ReadIn text macroPrefix

def RegisterRecord.ReadIn (text macroPrefix : Text) (r : RegisterRecord) : Prop :=
  ∃ start rest, r.ReadAt text macroPrefix start rest

def RegisterRecord.partLines (r : RegisterRecord) : List Nat :=
  r.line :: r.fields.flatMap FieldRecord.commentLines

/-- A register is looked for at the start of a line, below an empty one or a comment's end. -/
theorem skipLineFeed_leadingComment {text start : Text} (hstart : "\n\n".toList ++ start <:+ text) :
    ∃ above, text = above ++ '\n' :: skipLineFeed (leadingComment start).2 ∧
      (['\n'] <:+ above ∨ "*/".toList <:+ above) := by
  obtain ⟨front, rfl⟩ := hstart
  unfold leadingComment
  split
  · rename_i body rest hcomment
    obtain ⟨⟨opened, hopened⟩, hend⟩ := blockComment?_closes hcomment
    obtain ⟨place, rfl⟩ := eq_cons_of_atLineEnd hend
    obtain ⟨gap, hgap⟩ := Text.skipLineFeed_suffix start
    refine ⟨front ++ "\n\n".toList ++ gap ++ opened ++ "*/".toList, ?_, .inr (List.suffix_append ..)⟩
    rw [← hgap, hopened]
    simp [skipLineFeed]
  · rcases Text.skipLineFeed_eq_or start with hskip | hskip
    · refine ⟨front ++ ['\n'], ?_, .inl (List.suffix_append ..)⟩
      rw [hskip]
      simp
    · refine ⟨front ++ ['\n'] ++ ['\n'], ?_, .inl (List.suffix_append ..)⟩
      rw [← hskip]
      simp [skipLineFeed]

theorem suffix_of_until? {mark s before behind : Text} (h : until? mark s = some (before, behind)) :
    mark ++ behind <:+ s := by
  rw [Text.eq_append_of_until? h, List.append_assoc]
  exact List.suffix_append ..

theorem lineAt_lt_of_emptyLine {text s before start place : Text} (hs : s <:+ text)
    (h : until? "\n\n".toList s = some (before, start)) (hplace : place <:+ start) :
    lineAt (text.count '\n') s < lineAt (text.count '\n') place := by
  have htext := hs.sublist.count_le '\n'
  have hcount := hplace.sublist.count_le '\n'
  have hempty : "\n\n".toList.count '\n' = 2 := rfl
  rw [Text.eq_append_of_until? h] at htext ⊢
  simp only [lineAt, List.count_append, hempty] at htext ⊢
  omega

structure RegistersRead (text macroPrefix s : Text) (records : List RegisterRecord) : Prop where
  readIn : ∀ r ∈ records, r.ReadIn text macroPrefix
  ascending : Ascending (lineAt (text.count '\n') s) (records.flatMap RegisterRecord.partLines)
    (text.count '\n' + 1)

theorem registerRecords_read {text macroPrefix s : Text} (hs : s <:+ text) :
    RegistersRead text macroPrefix s (registerRecords (text.count '\n') macroPrefix s) := by
  fun_induction registerRecords (text.count '\n') macroPrefix s with
  | case1 s =>
    refine ⟨by simp, ?_⟩
    simp only [List.flatMap_nil, Ascending, lineAt]
    omega
  | case2 s before start hstart comment place hnone ih =>
    have hcomment : comment.2 <:+ start := leadingComment_suffix start
    have hread := ih ((hcomment.trans (Text.until?_suffix hstart)).trans hs)
    exact ⟨hread.readIn, hread.ascending.of_le (Nat.le_of_lt (lineAt_lt_of_emptyLine hs hstart hcomment))⟩
  | case3 s before start hstart comment place address behind haddress fields ih =>
    have hplace : place <:+ start := (Text.skipLineFeed_suffix _).trans (leadingComment_suffix start)
    have hbehind : behind <:+ place := address?_suffix haddress
    have hbehindText : behind <:+ text :=
      (hbehind.trans hplace).trans ((Text.until?_suffix hstart).trans hs)
    obtain ⟨rest, hrest⟩ := eq_cons_of_atLineEnd (address?_startsWith haddress).2
    have hfields : FieldsRead text macroPrefix behind fields := fieldRecords_read hbehindText (by rw [hrest]; rfl)
    have hread := ih (hfields.suffix.trans hbehindText)
    constructor
    · have hstartText := (suffix_of_until? hstart).trans hs
      exact List.forall_mem_cons.mpr
        ⟨⟨start, behind, hstartText, rfl, rfl, haddress, hfields.readIn⟩, hread.readIn⟩
    · rw [List.flatMap_cons]
      refine Ascending.append ⟨lineAt_lt_of_emptyLine hs hstart hplace, ?_⟩ hread.ascending
      exact hfields.ascending.of_le (lineAt_le_of_suffix _ hbehind)

theorem extract_read (text macroPrefix : Text) :
    RegistersRead text.unifyLineEnds macroPrefix text.unifyLineEnds (extract text macroPrefix) :=
  registerRecords_read (List.suffix_refl _)

end RegisterMap.Header
