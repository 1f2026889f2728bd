import RegisterMap.Header.Grammar

/-!
# Extraction

The register records of a header text, in the order of the text. A record
starts behind a blank line, with an optional block comment before its address
macro. What does not match is passed over.
-/

namespace RegisterMap.Header

open Text (until? skipLineFeed)

/-- The line that `rest` starts on, in a text with so many line feeds. -/
def lineAt (lineFeeds : Nat) (rest : Text) : Nat := lineFeeds - rest.count '\n' + 1

def skipDefines (s : Text) : Text :=
  match _h : defineLine? s with
  | some rest => skipDefines rest
  | none => s
termination_by s.length
decreasing_by exact length_lt_of_defineLine? _h

theorem skipDefines_suffix (s : Text) : skipDefines s <:+ s := by
  fun_induction skipDefines s with
  | case1 s rest h ih =>
    refine ih.trans ?_
    simp only [defineLine?, Option.bind_eq_bind, Option.bind_eq_some_iff] at h
    obtain ⟨t, h₁, h₂⟩ := h
    split at h₂
    · split at h₂
      · cases h₂
        exact (List.dropWhile_suffix _).trans <| (List.suffix_cons ..).trans <|
          (Text.after?_suffix h₁).trans (Text.skipLineFeed_suffix s)
      · cases h₂
    · cases h₂
  | case2 => exact List.suffix_refl _

/-- The field records that follow an address, and the text behind them. A field
is the comment of its bits, directly followed by that of its description; any
`#define` lines behind them belong to it. -/
def fieldRecords (lineFeeds : Nat) (macroPrefix s : Text) : List FieldRecord × Text :=
  match _h : fieldComment? macroPrefix (skipLineFeed s) with
  | none => ([], s)
  | some ((name, bits), behind) =>
    match _hd : fieldDescription? (skipLineFeed behind) with
    | none => ([], behind)
    | some (description, behind) =>
      let (records, rest) := fieldRecords lineFeeds macroPrefix (skipDefines behind)
      ({ name, bits, description, line := lineAt lineFeeds (skipLineFeed s) } :: records, rest)
termination_by s.length
decreasing_by
  have h₁ := length_lt_of_fieldComment? _h
  have h₂ := (Text.skipLineFeed_suffix s).length_le
  have h₃ := ((skipDefines_suffix _).trans <| (fieldDescription?_suffix _hd).trans <|
    Text.skipLineFeed_suffix _).length_le
  omega

theorem length_fieldRecords_le (lineFeeds : Nat) (macroPrefix s : Text) :
    (fieldRecords lineFeeds macroPrefix s).2.length ≤ s.length := by
  fun_induction fieldRecords lineFeeds macroPrefix s with
  | case1 => exact Nat.le_refl _
  | case2 s _ _ _ h =>
    have h₁ := length_lt_of_fieldComment? h
    have h₂ := (Text.skipLineFeed_suffix s).length_le
    exact Nat.le_of_lt (Nat.lt_of_lt_of_le h₁ h₂)
  | case3 s _ _ _ h _ _ hd _ _ heq ih =>
    have h₁ := length_lt_of_fieldComment? h
    have h₂ := (Text.skipLineFeed_suffix s).length_le
    have h₃ := ((skipDefines_suffix _).trans <| (fieldDescription?_suffix hd).trans <|
      Text.skipLineFeed_suffix _).length_le
    rw [heq] at ih
    simp only at ih ⊢
    omega

def leadingComment (s : Text) : Option Text × Text :=
  match blockComment? (skipLineFeed s) with
  | some (body, rest) => (Comment.blockText? body, rest)
  | none => (none, s)

theorem leadingComment_suffix (s : Text) : (leadingComment s).2 <:+ s := by
  unfold leadingComment
  split
  · rename_i heq
    exact (blockComment?_suffix heq).trans (Text.skipLineFeed_suffix s)
  · exact List.suffix_refl _

/-- The records behind the blank lines of a text without carriage returns. -/
def registerRecords (lineFeeds : Nat) (macroPrefix s : Text) : List RegisterRecord :=
  match _h : until? "\n\n".toList s with
  | none => []
  | some (_, start) =>
    let comment := leadingComment start
    let place := skipLineFeed comment.2
    match _ha : address? macroPrefix place with
    | none => registerRecords lineFeeds macroPrefix comment.2
    | some (address, behind) =>
      let fields := fieldRecords lineFeeds macroPrefix behind
      { name := address.name, offset := address.offset, description := comment.1,
        line := lineAt lineFeeds place, fields := fields.1 } ::
        registerRecords lineFeeds macroPrefix fields.2
termination_by s.length
decreasing_by
  all_goals
    have h₁ := Text.length_lt_of_until? (by decide) _h
    have h₂ := (leadingComment_suffix start).length_le
  · exact Nat.lt_of_le_of_lt h₂ h₁
  · have h₃ := ((address?_suffix _ha).trans (Text.skipLineFeed_suffix _)).length_le
    have h₄ := length_fieldRecords_le lineFeeds macroPrefix behind
    exact Nat.lt_of_le_of_lt (Nat.le_trans h₄ (Nat.le_trans h₃ h₂)) h₁

/-- The register records of a header. Macro names count only behind `macroPrefix`. -/
def extract (text macroPrefix : Text) : List RegisterRecord :=
  let text := text.unifyLineEnds
  registerRecords (text.count '\n') macroPrefix text

end RegisterMap.Header
