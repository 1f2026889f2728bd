import Mathlib
import RegisterMap.Header.Extract
import RegisterMap.Proofs.Text.Line
import RegisterMap.Proofs.Text.Scan

/-!
# Places between recognisers

Where a recogniser leaves off, in any text. Macros and comments of bits are read in
two parts, a name behind a mark and what stands behind the name, so that they start
with their mark and the whole of a word. The comment of a field's bits stays on its line.
A part that has to end its line leaves the line feed for the next one.
-/

namespace RegisterMap.Header

open Text (after? skipTo? atLineEnd firstLine Stops takeWhile_append_of_stops dropWhile_append_of_stops)

/-- From `s` to `rest` there is no line feed. -/
def OnLine (s rest : Text) : Prop := ∃ passed, s = passed ++ rest ∧ '\n' ∉ passed

theorem OnLine.trans {s t rest : Text} (h : OnLine s t) (h' : OnLine t rest) : OnLine s rest := by
  obtain ⟨front, rfl, hfront⟩ := h
  obtain ⟨passed, rfl, hpassed⟩ := h'
  exact ⟨front ++ passed, by simp, by simp [hfront, hpassed]⟩

theorem OnLine.count_eq {s rest : Text} (h : OnLine s rest) : s.count '\n' = rest.count '\n' := by
  obtain ⟨passed, rfl, hpassed⟩ := h
  rw [List.count_append, List.count_eq_zero_of_not_mem hpassed, Nat.zero_add]

theorem onLine_of_after? {mark s rest : Text} (hmark : '\n' ∉ mark) (h : after? mark s = some rest) :
    OnLine s rest :=
  ⟨mark, Text.after?_eq_some_iff.mp h, hmark⟩

theorem onLine_of_skipTo? {mark s rest : Text} (hmark : '\n' ∉ mark) (h : skipTo? mark s = some rest) :
    OnLine s rest := by
  obtain ⟨before, hs, hbefore⟩ := Text.eq_append_of_skipTo? h
  exact ⟨before ++ mark, hs, by simp [hbefore, hmark]⟩

theorem onLine_dropWhile {p : Char → Bool} (hp : ¬ p '\n') (s : Text) : OnLine s (s.dropWhile p) :=
  ⟨s.takeWhile p, List.takeWhile_append_dropWhile.symm, fun h => hp (List.mem_takeWhile_imp h)⟩

theorem onLine_of_decimal? {s rest : Text} {n : Word} (h : Text.decimal? s = some (n, rest)) :
    OnLine s rest := by
  simp only [Text.decimal?, Text.numeral?] at h
  split at h
  · cases h
  · split at h
    · cases h
      exact onLine_dropWhile (by decide) s
    · cases h

theorem onLine_of_bitRange? {s rest : Text} {bits : BitRange} (h : bitRange? s = some (bits, rest)) :
    OnLine s rest := by
  simp only [bitRange?, Option.bind_eq_bind, Option.bind_eq_some_iff] at h
  obtain ⟨⟨first, behind⟩, hfirst, h⟩ := h
  have hline := onLine_of_decimal? hfirst
  split at h
  · rename_i second rest' hsecond
    cases h
    obtain ⟨colon, hcolon, hsecond⟩ := Option.bind_eq_some_iff.mp hsecond
    exact (hline.trans (onLine_of_after? (by decide) hcolon)).trans (onLine_of_decimal? hsecond)
  · cases h
    exact hline

/-! ## Marks and words -/

/-- The text starts with a mark and a word, and the word goes no further. -/
structure StartsWith (mark word s : Text) : Prop where
  nonempty : word ≠ []
  all_isWordChar : word.all isWordChar
  eq_append : ∃ rest, s = mark ++ word ++ rest ∧ Stops isWordChar rest

theorem lineFeed_not_mem_word {word : Text} (h : word.all isWordChar) : '\n' ∉ word := fun hmem =>
  absurd (List.all_eq_true.mp h _ hmem) (by decide)

theorem StartsWith.firstLine {mark word s : Text} (hmark : '\n' ∉ mark) (h : StartsWith mark word s) :
    StartsWith mark word (firstLine s) := by
  obtain ⟨hne, hword, rest, rfl, hrest⟩ := h
  have hline : '\n' ∉ mark ++ word := by simp [hmark, lineFeed_not_mem_word hword]
  refine ⟨hne, hword, Text.firstLine rest, Text.firstLine_append hline rest, ?_⟩
  -- a word also stops where the line ends
  cases rest with
  | nil => exact hrest
  | cons c rest =>
    by_cases hc : c = '\n'
    · simp [Text.firstLine, hc, Stops]
    · simpa [Text.firstLine, hc, Stops] using hrest

theorem prefix_firstLine {mark s : Text} (hmark : '\n' ∉ mark) (h : mark <+: s) : mark <+: firstLine s := by
  obtain ⟨rest, rfl⟩ := h
  rw [Text.firstLine_append hmark]
  exact List.prefix_append ..

theorem identifier?_append {name rest : Text} (hname : name ≠ []) (hword : name.all isWordChar)
    (hrest : Stops isWordChar rest) : identifier? (name ++ rest) = some (name, rest) := by
  rw [identifier?, takeWhile_append_of_stops hword hrest, dropWhile_append_of_stops hword hrest]
  exact if_neg hname

theorem identifier?_eq_some_iff {s word rest : Text} : identifier? s = some (word, rest) ↔
    s = word ++ rest ∧ word ≠ [] ∧ word.all isWordChar ∧ Stops isWordChar rest := by
  constructor
  · intro h
    simp only [identifier?] at h
    split at h
    · cases h
    · rename_i hne
      cases h
      exact ⟨List.takeWhile_append_dropWhile.symm, hne, List.all_takeWhile, Text.stops_dropWhile isWordChar s⟩
  · rintro ⟨rfl, hne, hword, hrest⟩
    exact identifier?_append hne hword hrest

def nameBehind? (mark macroPrefix s : Text) : Option (Text × Text) := do
  let s ← after? mark s
  let s ← after? macroPrefix s
  identifier? s

theorem nameBehind?_eq_some_iff {mark macroPrefix s word rest : Text} :
    nameBehind? mark macroPrefix s = some (word, rest) ↔
      s = mark ++ (macroPrefix ++ (word ++ rest)) ∧ word ≠ [] ∧ word.all isWordChar ∧
        Stops isWordChar rest := by
  simp only [nameBehind?, Option.bind_eq_bind, Option.bind_eq_some_iff, identifier?_eq_some_iff,
    Text.after?_eq_some_iff]
  constructor
  · rintro ⟨_, rfl, _, rfl, rfl, hword⟩
    exact ⟨rfl, hword⟩
  · rintro ⟨rfl, hword⟩
    exact ⟨_, rfl, _, rfl, rfl, hword⟩

theorem startsWith_of_nameBehind? {mark macroPrefix s word rest : Text}
    (h : nameBehind? mark macroPrefix s = some (word, rest)) : StartsWith (mark ++ macroPrefix) word s := by
  obtain ⟨rfl, hne, hword, hrest⟩ := nameBehind?_eq_some_iff.mp h
  exact ⟨hne, hword, rest, by simp, hrest⟩

/-! ## Registers -/

theorem eq_cons_of_atLineEnd {s : Text} (h : atLineEnd s) : ∃ rest, s = '\n' :: rest := by
  unfold atLineEnd at h
  split at h
  · exact ⟨_, rfl⟩
  · cases h

/-- What stands behind the name of a register: the offset, an argument read behind both names. -/
def offsetForm? (argument : Text → Option Text) (s : Text) : Option (Word × Text) := do
  let s ← argument s
  let s ← space? s
  let s ← after? ['('] s
  let (base, s) ← identifier? s
  let s ← argument s
  let s ← after? ['+'] (skipSpace s)
  let s ← after? "0x".toList (skipSpace s)
  let (offset, s) ← Text.hexadecimal? s
  let s ← after? [')'] s
  if isBaseName base ∧ atLineEnd s then some (offset, s) else none

theorem addressForm?_eq (argument : Text → Option Text) (s : Text) : addressForm? argument s =
    (identifier? s).bind fun named =>
      (offsetForm? argument named.2).map fun read => (⟨registerName named.1, read.1⟩, read.2) := by
  unfold addressForm? offsetForm?
  simp only [Option.bind_eq_bind, Option.map_bind, Function.comp_def, apply_ite (Option.map _),
    Option.map_some, Option.map_none]

def offsetBehind? (s : Text) : Option (Word × Text) := offsetForm? some s <|> offsetForm? argument? s

theorem address?_eq_some_iff {macroPrefix s rest : Text} {a : Address} :
    address? macroPrefix s = some (a, rest) ↔
      ∃ word behind, nameBehind? "#define ".toList macroPrefix s = some (word, behind) ∧
        offsetBehind? behind = some (a.offset, rest) ∧ a.name = registerName word := by
  have hread : address? macroPrefix s =
      (nameBehind? "#define ".toList macroPrefix s).bind fun named =>
        (offsetBehind? named.2).map fun read => (⟨registerName named.1, read.1⟩, read.2) := by
    unfold address? nameBehind? offsetBehind?
    simp only [Option.bind_eq_bind, Option.bind_assoc, addressForm?_eq]
    congr 1
    funext s
    congr 1
    funext s
    cases identifier? s with
    | none => rfl
    | some read => simp only [Option.bind_some, Option.orElse_eq_orElse, Option.orElse_eq_or, Option.map_or]
  rw [hread]
  simp only [Option.bind_eq_some_iff, Option.map_eq_some_iff]
  constructor
  · rintro ⟨⟨word, behind⟩, hname, ⟨_, _⟩, hoffset, heq⟩
    cases heq
    exact ⟨word, behind, hname, hoffset, rfl⟩
  · obtain ⟨name, offset⟩ := a
    rintro ⟨word, behind, hname, hoffset, rfl⟩
    exact ⟨(word, behind), hname, (offset, rest), hoffset, rfl⟩

theorem atLineEnd_of_offsetForm? {argument : Text → Option Text} {s rest : Text} {offset : Word}
    (h : offsetForm? argument s = some (offset, rest)) : atLineEnd rest := by
  simp only [offsetForm?, Option.bind_eq_bind, Option.bind_eq_some_iff] at h
  obtain ⟨_, -, _, -, _, -, ⟨_, _⟩, -, _, -, _, -, _, -, ⟨_, _⟩, -, _, -, h⟩ := h
  split at h
  · rename_i hend
    cases h
    exact hend.2
  · cases h

theorem address?_startsWith {macroPrefix s rest : Text} {a : Address}
    (h : address? macroPrefix s = some (a, rest)) :
    (∃ word, StartsWith ("#define ".toList ++ macroPrefix) word s ∧ a.name = registerName word) ∧
      atLineEnd rest := by
  obtain ⟨word, behind, hword, hoffset, hname⟩ := address?_eq_some_iff.mp h
  refine ⟨⟨word, startsWith_of_nameBehind? hword, hname⟩, ?_⟩
  simp only [offsetBehind?, Option.orElse_eq_orElse, Option.orElse_eq_or, Option.or_eq_some_iff] at hoffset
  rcases hoffset with hplain | ⟨-, hindexed⟩
  · exact atLineEnd_of_offsetForm? hplain
  · exact atLineEnd_of_offsetForm? hindexed

theorem blockComment?_closes {s body rest : Text} (h : blockComment? s = some (body, rest)) :
    (∃ front, s = front ++ "*/".toList ++ rest) ∧ atLineEnd rest := by
  simp only [blockComment?, Option.bind_eq_bind, Option.bind_eq_some_iff] at h
  obtain ⟨t, hopen, ⟨body', rest'⟩, hclose, h⟩ := h
  split at h
  · rename_i hend
    cases h
    obtain ⟨front, hfront⟩ := (List.dropWhile_suffix (l := t) (· = '*')).trans (Text.after?_suffix hopen)
    refine ⟨⟨front ++ body', ?_⟩, hend⟩
    rw [← hfront, Text.eq_append_of_until? hclose]
    simp
  · cases h

/-! ## Fields -/

/-- What stands behind the name of a field: its bits, and the rest of the comment. -/
def bitsBehind? (s : Text) : Option (BitRange × Text) := do
  let s ← skipTo? "bitpos:[".toList s
  let (bits, s) ← bitRange? s
  let s ← after? [']'] s
  let s ← skipTo? "*/".toList s
  if atLineEnd s then some (bits, s) else none

theorem fieldComment?_eq_some_iff {macroPrefix s name rest : Text} {bits : BitRange} :
    fieldComment? macroPrefix s = some ((name, bits), rest) ↔
      ∃ word behind, nameBehind? "/* ".toList macroPrefix s = some (word, behind) ∧
        bitsBehind? behind = some (bits, rest) ∧ name = Text.lowercase word := by
  have hread : fieldComment? macroPrefix s =
      (nameBehind? "/* ".toList macroPrefix s).bind fun named =>
        (bitsBehind? named.2).map fun read => ((Text.lowercase named.1, read.1), read.2) := by
    unfold fieldComment? nameBehind? bitsBehind?
    simp only [Option.bind_eq_bind, Option.bind_assoc, Option.map_bind, Function.comp_def,
      apply_ite (Option.map _), Option.map_some, Option.map_none]
  rw [hread]
  simp only [Option.bind_eq_some_iff, Option.map_eq_some_iff]
  constructor
  · rintro ⟨⟨word, behind⟩, hname, ⟨_, _⟩, hbits, heq⟩
    cases heq
    exact ⟨word, behind, hname, hbits, rfl⟩
  · rintro ⟨word, behind, hname, hbits, rfl⟩
    exact ⟨(word, behind), hname, (bits, rest), hbits, rfl⟩

theorem bitsBehind?_eq_append {s rest : Text} {bits : BitRange} (h : bitsBehind? s = some (bits, rest)) :
    ∃ passed, s = passed ++ ("*/".toList ++ rest) ∧ '\n' ∉ passed ∧ atLineEnd rest := by
  simp only [bitsBehind?, Option.bind_eq_bind, Option.bind_eq_some_iff] at h
  obtain ⟨t, hbitpos, ⟨_, u⟩, hbits, v, hbracket, w, hclose, h⟩ := h
  split at h
  · rename_i hend
    cases h
    obtain ⟨front, rfl, hfront⟩ := ((onLine_of_skipTo? (by decide) hbitpos).trans
      (onLine_of_bitRange? hbits)).trans (onLine_of_after? (by decide) hbracket)
    obtain ⟨before, rfl, hbefore⟩ := Text.eq_append_of_skipTo? hclose
    exact ⟨front ++ before, by simp, by simp [hfront, hbefore], hend⟩
  · cases h

section
variable {macroPrefix s rest : Text}

theorem eq_append_of_fieldComment? {name : Text} {bits : BitRange}
    (h : fieldComment? macroPrefix s = some ((name, bits), rest)) :
    ∃ word passed, StartsWith ("/* ".toList ++ macroPrefix) word s ∧ name = Text.lowercase word ∧
      s = "/* ".toList ++ (macroPrefix ++ (word ++ (passed ++ ("*/".toList ++ rest)))) ∧ '\n' ∉ passed ∧
      atLineEnd rest := by
  obtain ⟨word, behind, hword, hbits, hname⟩ := fieldComment?_eq_some_iff.mp h
  obtain ⟨passed, rfl, hpassed, hend⟩ := bitsBehind?_eq_append hbits
  exact ⟨word, passed, startsWith_of_nameBehind? hword, hname, (nameBehind?_eq_some_iff.mp hword).1, hpassed,
    hend⟩

theorem fieldComment?_suffix {c : Text × BitRange} (h : fieldComment? macroPrefix s = some (c, rest)) :
    rest <:+ s := by
  obtain ⟨word, passed, -, -, hs, -, -⟩ := eq_append_of_fieldComment? h
  exact ⟨"/* ".toList ++ (macroPrefix ++ (word ++ (passed ++ "*/".toList))), by simp [hs]⟩

theorem atLineEnd_of_fieldComment? {c : Text × BitRange} (h : fieldComment? macroPrefix s = some (c, rest)) :
    atLineEnd rest := by
  obtain ⟨word, passed, -, -, -, -, hend⟩ := eq_append_of_fieldComment? h
  exact hend

theorem fieldComment?_startsWith {name : Text} {bits : BitRange} (hplain : '\n' ∉ macroPrefix)
    (h : fieldComment? macroPrefix s = some ((name, bits), rest)) :
    (∃ word, StartsWith ("/* ".toList ++ macroPrefix) word s ∧ name = Text.lowercase word) ∧
      OnLine s rest ∧ atLineEnd rest := by
  obtain ⟨word, passed, hstart, hname, hs, hpassed, hend⟩ := eq_append_of_fieldComment? h
  have hword := lineFeed_not_mem_word hstart.all_isWordChar
  refine ⟨⟨word, hstart, hname⟩,
    ⟨"/* ".toList ++ (macroPrefix ++ (word ++ (passed ++ "*/".toList))), ?_, ?_⟩, hend⟩
  · simp [hs]
  · simp [hplain, hword, hpassed]

end

theorem fieldDescription?_opens {s rest : Text} {d : Option Text}
    (h : fieldDescription? s = some (d, rest)) : "/*".toList <+: s ∧ atLineEnd rest := by
  simp only [fieldDescription?, Option.bind_eq_bind, Option.bind_eq_some_iff] at h
  obtain ⟨t, hopen, ⟨body, rest'⟩, -, h⟩ := h
  split at h
  · rename_i hend
    cases h
    exact ⟨⟨t, (Text.after?_eq_some_iff.mp hopen).symm⟩, hend⟩
  · cases h

theorem firstLine_defineLine? {s rest : Text} (h : defineLine? s = some rest) : firstLine rest = [] := by
  simp only [defineLine?, Option.bind_eq_bind, Option.bind_eq_some_iff] at h
  obtain ⟨t, -, h⟩ := h
  split at h
  · split at h
    · cases h
      exact Text.firstLine_dropWhile _
    · cases h
  · cases h

theorem firstLine_skipDefines {s : Text} (h : firstLine s = []) : firstLine (skipDefines s) = [] := by
  fun_induction skipDefines s with
  | case1 s rest hdefine ih => exact ih (firstLine_defineLine? hdefine)
  | case2 => exact h

end RegisterMap.Header
