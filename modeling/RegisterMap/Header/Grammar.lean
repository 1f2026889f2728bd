import RegisterMap.Header.Comment
import RegisterMap.Header.Record
import RegisterMap.Text.Scan

/-!
# Header grammar

Recognisers for the parts of a vendor header. Each gives what it read and the
text behind it, or none where its part does not stand. A part that has to end
its line leaves the line feed in place: a blank line behind it still counts.
-/

namespace RegisterMap.Header

open Text (after? dropMark until? skipTo? skipLineFeed atLineEnd)

/-! ## Words -/

def isWordChar (c : Char) : Bool := c.isAlphanum || c = '_'

def isSpace (c : Char) : Bool := c = ' ' || c = '\t' || c = '\r' || c = '\n'

def identifier? (s : Text) : Option (Text × Text) :=
  let name := s.takeWhile isWordChar
  if name = [] then none else some (name, s.dropWhile isWordChar)

def skipSpace (s : Text) : Text := s.dropWhile isSpace

def space? (s : Text) : Option Text :=
  match s with
  | c :: rest => if isSpace c then some (skipSpace rest) else none
  | [] => none

/-! ## Block comments -/

/-- `/*`, any more stars, a body, and `*/` at the end of a line. Gives the body. -/
def blockComment? (s : Text) : Option (Text × Text) := do
  let s ← after? "/*".toList s
  let (body, s) ← until? "*/".toList (s.dropWhile (· = '*'))
  if atLineEnd s then some (body, s) else none

/-! ## Register addresses -/

structure Address where
  name : Text
  offset : Word
  deriving DecidableEq, Repr

/-- A macro name as a register name: in lowercase, without `_REG` at the end of more. -/
def registerName (name : Text) : Text :=
  let stem := name.take (name.length - 4)
  Text.lowercase (if stem ≠ [] ∧ name = stem ++ "_REG".toList then stem else name)

def isBaseName (name : Text) : Bool :=
  let base := "_BASE".toList
  base.length < name.length && base.isSuffixOf name

def argument? (s : Text) : Option Text := do
  let s ← after? ['('] s
  let (_, s) ← identifier? s
  after? [')'] s

/-- `NAME (X_BASE + 0x1c)` at the end of a line, an argument read behind both names. -/
def addressForm? (argument : Text → Option Text) (s : Text) : Option (Address × Text) := do
  let (name, s) ← identifier? s
  let s ← argument s
  let s ← space? s
  let s ← after? ['('] s
  let (base, s) ← identifier? s
  let s ← argument s
  let s ← after? ['+'] (skipSpace s)
  let s ← after? "0x".toList (skipSpace s)
  let (offset, s) ← Text.hexadecimal? s
  let s ← after? [')'] s
  if isBaseName base ∧ atLineEnd s then some (⟨registerName name, offset⟩, s) else none

/-- The address macro of a register, plain or indexed. -/
def address? (macroPrefix s : Text) : Option (Address × Text) := do
  let s ← after? "#define ".toList s
  let s ← after? macroPrefix s
  addressForm? some s <|> addressForm? argument? s

/-! ## Fields -/

/-- `n` or `hi:lo`. A second number that fits no word is not read. -/
def bitRange? (s : Text) : Option (BitRange × Text) := do
  let (first, s) ← Text.decimal? s
  match after? [':'] s >>= Text.decimal? with
  | some (second, rest) => some (.range first second, rest)
  | none => some (.single first, s)

/-- The comment of a field's bits, `/* NAME : R/W ;bitpos:[7:4] ;default: 0 ; */`, on one line. -/
def fieldComment? (macroPrefix s : Text) : Option ((Text × BitRange) × Text) := do
  let s ← after? "/* ".toList s
  let s ← after? macroPrefix s
  let (name, s) ← identifier? s
  let s ← skipTo? "bitpos:[".toList s
  let (bits, s) ← bitRange? s
  let s ← after? [']'] s
  let s ← skipTo? "*/".toList s
  if atLineEnd s then some ((Text.lowercase name, bits), s) else none

/-- The comment of a field's description, which may be empty and go over lines. -/
def fieldDescription? (s : Text) : Option (Option Text × Text) := do
  let s ← after? "/*".toList s
  let (body, s) ← until? "*/".toList (dropMark [' '] (dropMark "description:".toList s))
  if atLineEnd s then some (Comment.fieldText? body, s) else none

def defineLine? (s : Text) : Option Text := do
  let s ← after? "#define".toList (skipLineFeed s)
  match s with
  | c :: rest =>
    if (c = ' ' ∨ c = '\t') ∧ rest.takeWhile (· ≠ '\n') ≠ [] then
      some (rest.dropWhile (· ≠ '\n'))
    else none
  | [] => none

/-! ## What is left

Every recogniser leaves an end of the text it was given. -/

theorem identifier?_suffix {s name rest : Text} (h : identifier? s = some (name, rest)) :
    rest <:+ s := by
  simp only [identifier?] at h
  split at h
  · cases h
  · cases h
    exact List.dropWhile_suffix _

theorem space?_suffix {s rest : Text} (h : space? s = some rest) : rest <:+ s := by
  unfold space? at h
  split at h
  · split at h
    · cases h
      exact (List.dropWhile_suffix _).trans (List.suffix_cons ..)
    · cases h
  · cases h

theorem argument?_suffix {s rest : Text} (h : argument? s = some rest) : rest <:+ s := by
  simp only [argument?, Option.bind_eq_bind, Option.bind_eq_some_iff] at h
  obtain ⟨_, h₁, ⟨_, _⟩, h₂, h₃⟩ := h
  exact (Text.after?_suffix h₃).trans ((identifier?_suffix h₂).trans (Text.after?_suffix h₁))

theorem blockComment?_suffix {s body rest : Text} (h : blockComment? s = some (body, rest)) :
    rest <:+ s := by
  simp only [blockComment?, Option.bind_eq_bind, Option.bind_eq_some_iff] at h
  obtain ⟨_, h₁, ⟨_, _⟩, h₂, h₃⟩ := h
  split at h₃
  · cases h₃
    exact (Text.until?_suffix h₂).trans
      ((List.dropWhile_suffix _).trans (Text.after?_suffix h₁))
  · cases h₃

theorem addressForm?_suffix {argument : Text → Option Text}
    (hargument : ∀ {s rest}, argument s = some rest → rest <:+ s) {s rest : Text} {a : Address}
    (h : addressForm? argument s = some (a, rest)) : rest <:+ s := by
  simp only [addressForm?, Option.bind_eq_bind, Option.bind_eq_some_iff] at h
  obtain ⟨⟨_, _⟩, h₁, _, h₂, _, h₃, _, h₄, ⟨_, _⟩, h₅, _, h₆, _, h₇, _, h₈, ⟨_, _⟩, h₉, _, h₁₀,
    h₁₁⟩ := h
  split at h₁₁
  · cases h₁₁
    have skip (t : Text) : skipSpace t <:+ t := List.dropWhile_suffix _
    exact (Text.after?_suffix h₁₀).trans <| (Text.numeral?_suffix h₉).trans <|
      (Text.after?_suffix h₈).trans <| (skip _).trans <| (Text.after?_suffix h₇).trans <|
      (skip _).trans <| (hargument h₆).trans <| (identifier?_suffix h₅).trans <|
      (Text.after?_suffix h₄).trans <| (space?_suffix h₃).trans <| (hargument h₂).trans <|
      identifier?_suffix h₁
  · cases h₁₁

theorem address?_suffix {macroPrefix s rest : Text} {a : Address}
    (h : address? macroPrefix s = some (a, rest)) : rest <:+ s := by
  simp only [address?, Option.bind_eq_bind, Option.bind_eq_some_iff, Option.orElse_eq_orElse,
    Option.orElse_eq_or, Option.or_eq_some_iff] at h
  obtain ⟨_, h₁, _, h₂, h₃ | ⟨_, h₃⟩⟩ := h
  · exact (addressForm?_suffix (fun h => by cases h; exact List.suffix_refl _) h₃).trans
      ((Text.after?_suffix h₂).trans (Text.after?_suffix h₁))
  · exact (addressForm?_suffix argument?_suffix h₃).trans
      ((Text.after?_suffix h₂).trans (Text.after?_suffix h₁))

theorem bitRange?_suffix {s rest : Text} {b : BitRange} (h : bitRange? s = some (b, rest)) :
    rest <:+ s := by
  simp only [bitRange?, Option.bind_eq_bind, Option.bind_eq_some_iff] at h
  obtain ⟨⟨_, _⟩, h₁, h₂⟩ := h
  split at h₂
  · rename_i heq
    cases h₂
    obtain ⟨_, h₃, h₄⟩ := Option.bind_eq_some_iff.1 heq
    exact (Text.numeral?_suffix h₄).trans
      ((Text.after?_suffix h₃).trans (Text.numeral?_suffix h₁))
  · cases h₂
    exact Text.numeral?_suffix h₁

theorem length_lt_of_fieldComment? {macroPrefix s rest : Text} {c : Text × BitRange}
    (h : fieldComment? macroPrefix s = some (c, rest)) : rest.length < s.length := by
  simp only [fieldComment?, Option.bind_eq_bind, Option.bind_eq_some_iff] at h
  obtain ⟨t, h₁, _, h₂, ⟨_, _⟩, h₃, _, h₄, ⟨_, _⟩, h₅, _, h₆, _, h₇, h₈⟩ := h
  split at h₈
  · cases h₈
    have hle := ((Text.skipTo?_suffix h₇).trans <| (Text.after?_suffix h₆).trans <|
      (bitRange?_suffix h₅).trans <| (Text.skipTo?_suffix h₄).trans <|
      (identifier?_suffix h₃).trans (Text.after?_suffix h₂)).length_le
    rw [Text.after?_eq_some_iff.1 h₁]
    simp
    omega
  · cases h₈

theorem fieldDescription?_suffix {s rest : Text} {d : Option Text}
    (h : fieldDescription? s = some (d, rest)) : rest <:+ s := by
  simp only [fieldDescription?, Option.bind_eq_bind, Option.bind_eq_some_iff] at h
  obtain ⟨_, h₁, ⟨_, _⟩, h₂, h₃⟩ := h
  split at h₃
  · cases h₃
    exact (Text.until?_suffix h₂).trans <| (Text.dropMark_suffix ..).trans <|
      (Text.dropMark_suffix ..).trans (Text.after?_suffix h₁)
  · cases h₃

theorem length_lt_of_defineLine? {s rest : Text} (h : defineLine? s = some rest) :
    rest.length < s.length := by
  simp only [defineLine?, Option.bind_eq_bind, Option.bind_eq_some_iff] at h
  obtain ⟨t, h₁, h₂⟩ := h
  split at h₂
  · split at h₂
    · cases h₂
      rename_i c line _
      have h₃ := (List.dropWhile_suffix (l := line) (· ≠ '\n')).length_le
      have h₄ := (Text.after?_suffix h₁).length_le
      have h₅ := (Text.skipLineFeed_suffix s).length_le
      simp at h₄
      omega
    · cases h₂
  · cases h₂

end RegisterMap.Header
