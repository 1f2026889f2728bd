import RegisterMap.Header.Model
import RegisterMap.Proofs.Header.Places
import RegisterMap.Proofs.Header.RoundTrip

/-!
# Records further down

What is read of a text does not depend on what stands above it, but for the
lines that are counted. Lines put in above move all records down by as many.
-/

namespace RegisterMap.Header

open Text (until? skipLineFeed)

def FieldRecord.movedDown (lines : Nat) (f : FieldRecord) : FieldRecord :=
  { f with line := f.line + lines }

def RegisterRecord.movedDown (lines : Nat) (r : RegisterRecord) : RegisterRecord :=
  { r with line := r.line + lines, fields := r.fields.map (·.movedDown lines) }

variable {lineFeeds : Nat} {macroPrefix : Text}

theorem lineAt_add {s : Text} (hs : s.count '\n' ≤ lineFeeds) (lines : Nat) :
    lineAt (lineFeeds + lines) s = lineAt lineFeeds s + lines := by
  unfold lineAt
  omega

theorem count_le_of_suffix {s rest : Text} (h : rest <:+ s) (hs : s.count '\n' ≤ lineFeeds) :
    rest.count '\n' ≤ lineFeeds :=
  Nat.le_trans (h.sublist.count_le '\n') hs

theorem fieldRecords_of_bare {s behind name : Text} {bits : BitRange}
    (hbits : fieldComment? macroPrefix (skipLineFeed s) = some ((name, bits), behind))
    (hremark : fieldDescription? (skipLineFeed behind) = none) :
    fieldRecords lineFeeds macroPrefix s = ([], behind) := by
  rw [fieldRecords]
  split
  · rename_i hnone
    rw [hbits] at hnone
    cases hnone
  · rename_i hsome
    rw [hbits] at hsome
    cases hsome
    split
    · rfl
    · rename_i hsome
      rw [hremark] at hsome
      cases hsome

theorem fieldRecords_suffix (lineFeeds : Nat) (macroPrefix s : Text) :
    (fieldRecords lineFeeds macroPrefix s).2 <:+ s := by
  fun_induction fieldRecords lineFeeds macroPrefix s with
  | case1 => exact List.suffix_refl _
  | case2 s name bits behind hbits hnone =>
    exact (fieldComment?_suffix hbits).trans (Text.skipLineFeed_suffix s)
  | case3 s name bits behind hbits description behind' hdescription records rest heq ih =>
    rw [heq] at ih
    exact ih.trans <| (skipDefines_suffix _).trans <| (fieldDescription?_suffix hdescription).trans <|
      (Text.skipLineFeed_suffix _).trans <| (fieldComment?_suffix hbits).trans (Text.skipLineFeed_suffix s)

theorem fieldRecords_add {s : Text} (hs : s.count '\n' ≤ lineFeeds) (lines : Nat) :
    fieldRecords (lineFeeds + lines) macroPrefix s =
      ((fieldRecords lineFeeds macroPrefix s).1.map (·.movedDown lines),
        (fieldRecords lineFeeds macroPrefix s).2) := by
  fun_induction fieldRecords lineFeeds macroPrefix s with
  | case1 s hnone => exact fieldRecords_of_none hnone
  | case2 s name bits behind hbits hnone => exact fieldRecords_of_bare hbits hnone
  | case3 s name bits behind hbits description behind' hdescription records rest heq ih =>
    have hplace : skipLineFeed s <:+ s := Text.skipLineFeed_suffix s
    have hrest : skipDefines behind' <:+ s :=
      (skipDefines_suffix _).trans <| (fieldDescription?_suffix hdescription).trans <|
        (Text.skipLineFeed_suffix _).trans <| (fieldComment?_suffix hbits).trans hplace
    have hbehind := ih (count_le_of_suffix hrest hs)
    rw [heq] at hbehind
    rw [fieldRecords_of_some hbits hdescription, hbehind, lineAt_add (count_le_of_suffix hplace hs)]
    rfl

theorem registerRecords_of_no_address {s before start behind : Text} {description : Option Text}
    (hstart : until? "\n\n".toList s = some (before, start))
    (hcomment : leadingComment start = (description, behind))
    (haddress : address? macroPrefix (skipLineFeed behind) = none) :
    registerRecords lineFeeds macroPrefix s = registerRecords lineFeeds macroPrefix behind := by
  rw [registerRecords_of_start hstart hcomment, haddress]

theorem registerRecords_of_address {s before start behind rest : Text} {description : Option Text}
    {address : Address} (hstart : until? "\n\n".toList s = some (before, start))
    (hcomment : leadingComment start = (description, behind))
    (haddress : address? macroPrefix (skipLineFeed behind) = some (address, rest)) :
    registerRecords lineFeeds macroPrefix s =
      ⟨address.name, address.offset, description, lineAt lineFeeds (skipLineFeed behind),
          (fieldRecords lineFeeds macroPrefix rest).1⟩ ::
        registerRecords lineFeeds macroPrefix (fieldRecords lineFeeds macroPrefix rest).2 := by
  rw [registerRecords_of_start hstart hcomment, haddress]

/-- **Lines above move records down.** -/
theorem registerRecords_add {s : Text} (hs : s.count '\n' ≤ lineFeeds) (lines : Nat) :
    registerRecords (lineFeeds + lines) macroPrefix s =
      (registerRecords lineFeeds macroPrefix s).map (·.movedDown lines) := by
  fun_induction registerRecords lineFeeds macroPrefix s with
  | case1 s hnone => exact registerRecords_of_last hnone
  | case2 s before start hstart comment place hnone ih =>
    have hcomment : leadingComment start = (comment.1, comment.2) := rfl
    have hrest : comment.2 <:+ s := (leadingComment_suffix start).trans (Text.until?_suffix hstart)
    rw [registerRecords_of_no_address hstart hcomment hnone, ih (count_le_of_suffix hrest hs)]
  | case3 s before start hstart comment place address behind haddress fields ih =>
    have hcomment : leadingComment start = (comment.1, comment.2) := rfl
    have hplace : place <:+ s := (Text.skipLineFeed_suffix _).trans <|
      (leadingComment_suffix start).trans (Text.until?_suffix hstart)
    have hbehind : behind <:+ s := (address?_suffix haddress).trans hplace
    have hrest : fields.2 <:+ s := (fieldRecords_suffix lineFeeds macroPrefix behind).trans hbehind
    rw [registerRecords_of_address hstart hcomment haddress, fieldRecords_add (count_le_of_suffix hbehind hs),
      lineAt_add (count_le_of_suffix hplace hs), ih (count_le_of_suffix hrest hs)]
    rfl

def Notice.movedDown (lines : Nat) : Notice → Notice
  | .found r => .found (r.movedDown lines)
  | .skipped register f reason => .skipped register (f.movedDown lines) reason

def FieldRecord.notice? (register : Text) (f : FieldRecord) : Option Notice :=
  match f.field with
  | .error reason => some (.skipped register f reason)
  | .ok _ => none

theorem RegisterRecord.notices_eq (r : RegisterRecord) :
    r.notices = .found r :: r.fields.filterMap (FieldRecord.notice? r.name) := rfl

theorem FieldRecord.notice?_movedDown (register : Text) (lines : Nat) (f : FieldRecord) :
    (f.movedDown lines).notice? register = (f.notice? register).map (Notice.movedDown lines) := by
  have hfield : (f.movedDown lines).field = f.field := rfl
  unfold notice?
  rw [hfield]
  cases f.field <;> rfl

theorem filterMap_notice?_movedDown (register : Text) (lines : Nat) (fs : List FieldRecord) :
    (fs.map (·.movedDown lines)).filterMap (FieldRecord.notice? register) =
      (fs.filterMap (FieldRecord.notice? register)).map (Notice.movedDown lines) := by
  rw [List.filterMap_map, List.map_filterMap]
  exact List.filterMap_congr fun f _ => f.notice?_movedDown register lines

namespace RegisterRecord

variable (r : RegisterRecord) (lines : Nat)

theorem register_movedDown : (r.movedDown lines).register = r.register := by
  unfold register movedDown
  rw [List.filterMap_map]
  rfl

theorem notices_movedDown : (r.movedDown lines).notices = r.notices.map (Notice.movedDown lines) := by
  rw [notices_eq, notices_eq, List.map_cons]
  exact congrArg _ (filterMap_notice?_movedDown r.name lines r.fields)

end RegisterRecord

theorem map_register_movedDown (lines : Nat) (rs : List RegisterRecord) :
    (rs.map (·.movedDown lines)).map RegisterRecord.register = rs.map RegisterRecord.register := by
  rw [List.map_map]
  exact List.map_congr_left fun r _ => r.register_movedDown lines

theorem flatMap_notices_movedDown (lines : Nat) (rs : List RegisterRecord) :
    (rs.map (·.movedDown lines)).flatMap RegisterRecord.notices =
      (rs.flatMap RegisterRecord.notices).map (Notice.movedDown lines) := by
  rw [List.flatMap_map, List.map_flatMap]
  exact List.flatMap_congr fun r _ => r.notices_movedDown lines

end RegisterMap.Header
