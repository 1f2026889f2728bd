import RegisterMap.Proofs.Header.Descriptions
import RegisterMap.Proofs.Header.Places

/-!
# Reading what was written

Each recogniser reads its part back from a text that starts with it, and leaves
what stands behind.
-/

namespace RegisterMap.Header

open Text (skipLineFeed atLineEnd Stops stops_cons after?_append
  until?_append takeWhile_append_of_stops dropWhile_append_of_stops)

theorem Identifier.identifier?_text (i : Identifier) {rest : Text} (hrest : Stops isWordChar rest) :
    identifier? (i.text ++ rest) = some (i.text, rest) :=
  identifier?_append i.nonempty i.all_isWordChar hrest

theorem Identifier.identifier?_text_append (i : Identifier) {ending rest : Text} (hending : ending.all isWordChar)
    (hrest : Stops isWordChar rest) :
    identifier? (i.text ++ (ending ++ rest)) = some (i.text ++ ending, rest) := by
  have hword : (i.text ++ ending).all isWordChar := by
    rw [List.all_append, i.all_isWordChar, hending]
    rfl
  rw [← List.append_assoc]
  exact identifier?_append (List.append_ne_nil_of_left_ne_nil i.nonempty ending) hword hrest

theorem Numeral.numeral?_digits {isDigit : Char → Bool} {base : Nat} (n : Numeral isDigit base) {rest : Text}
    (hrest : Stops isDigit rest) :
    Text.numeral? isDigit base (n.digits ++ rest) = some (n.value, rest) := by
  unfold Text.numeral?
  rw [takeWhile_append_of_stops n.all_isDigit hrest,
    dropWhile_append_of_stops n.all_isDigit hrest]
  simp only
  rw [if_neg n.nonempty, dif_pos n.value_lt]
  rfl

theorem space?_replicate (n : Nat) {c : Char} (hc : ¬ isSpace c) (rest : Text) :
    space? ([' '] ++ (List.replicate n ' ' ++ c :: rest)) = some (c :: rest) := by
  have hspaces : (List.replicate n ' ').all isSpace := by
    rw [List.all_eq_true]
    intro d hd
    rw [List.eq_of_mem_replicate hd]
    rfl
  rw [List.singleton_append, space?, if_pos (by decide), skipSpace,
    dropWhile_append_of_stops hspaces (stops_cons hc rest)]

theorem BitPosition.bitRange?_text (b : BitPosition) (rest : Text) :
    bitRange? (b.text ++ ([']'] ++ rest)) = some (b.bits, [']'] ++ rest) := by
  have hstop (rest : Text) : Stops Char.isDigit ([']'] ++ rest) := stops_cons (by decide) rest
  have hcolon (rest : Text) : Stops Char.isDigit ([':'] ++ rest) := stops_cons (by decide) rest
  cases b with
  | single bit =>
    have hread : Text.decimal? (bit.digits ++ ([']'] ++ rest)) = some (bit.value, [']'] ++ rest) :=
      bit.numeral?_digits (hstop rest)
    rw [text, bitRange?, hread]
    rfl
  | range hi lo =>
    have hfirst : Text.decimal? (hi.digits ++ ([':'] ++ (lo.digits ++ ([']'] ++ rest)))) =
        some (hi.value, [':'] ++ (lo.digits ++ ([']'] ++ rest))) := hi.numeral?_digits (hcolon _)
    have hsecond : Text.decimal? (lo.digits ++ ([']'] ++ rest)) = some (lo.value, [']'] ++ rest) :=
      lo.numeral?_digits (hstop rest)
    rw [text, bitRange?, List.append_assoc, List.append_assoc, hfirst, Option.bind_eq_bind,
      Option.bind_some]
    simp only [after?_append, Option.bind_eq_bind, Option.bind_some, hsecond]
    rfl

/-! ## Definitions -/

theorem Definition.defineLine?_line (w : Definition) {rest : Text} (hrest : atLineEnd rest) :
    defineLine? (w.line ++ rest) = some rest := by
  obtain ⟨rest, rfl⟩ := eq_cons_of_atLineEnd hrest
  have hline : w.text.all (fun c => decide (c ≠ '\n')) := by
    rw [List.all_eq_true]
    intro c hc
    exact decide_eq_true fun heq => w.on_one_line (heq ▸ hc)
  have hstop : Stops (fun c => decide (c ≠ '\n')) ('\n' :: rest) := stops_cons (by decide) rest
  have hstart : w.line ++ '\n' :: rest = '\n' :: ("#define".toList ++ ' ' :: (w.text ++ '\n' :: rest)) :=
    rfl
  rw [hstart, defineLine?, skipLineFeed, after?_append, Option.bind_eq_bind, Option.bind_some]
  simp only
  rw [takeWhile_append_of_stops hline hstop, dropWhile_append_of_stops hline hstop,
    if_pos ⟨Or.inl trivial, w.nonempty⟩]

/-! ## Registers -/

theorem registerName_append {stem : Text} (hstem : stem ≠ []) :
    registerName (stem ++ "_REG".toList) = Text.lowercase stem := by
  have htake : (stem ++ "_REG".toList).take ((stem ++ "_REG".toList).length - 4) = stem := by
    rw [List.length_append]
    exact List.take_left
  rw [registerName]
  simp only [htake]
  rw [if_pos ⟨hstem, trivial⟩]

theorem registerName_of_not_exists {name : Text} (h : ¬ ∃ stem, stem ≠ [] ∧ name = stem ++ "_REG".toList) :
    registerName name = Text.lowercase name :=
  congrArg Text.lowercase (if_neg fun hstem => h ⟨_, hstem⟩)

theorem isBaseName_append (i : Identifier) : isBaseName (i.text ++ "_BASE".toList) := by
  have hlength : 0 < i.text.length := List.length_pos_of_ne_nil i.nonempty
  rw [isBaseName, Bool.and_eq_true, decide_eq_true_eq, List.isSuffixOf_iff_suffix, List.length_append]
  exact ⟨by omega, List.suffix_append ..⟩

namespace RegisterEntry

theorem stops_argument (r : RegisterEntry) {c : Char} (hc : ¬ isWordChar c) (rest : Text) :
    Stops isWordChar (r.argument ++ ([c] ++ rest)) := by
  unfold argument
  cases r.index with
  | none => exact stops_cons hc rest
  | some i => exact stops_cons (by decide) _

theorem addressForm?_addressForm (r : RegisterEntry) {argument : Text → Option Text}
    (hargument : ∀ rest, argument (r.argument ++ rest) = some rest) {rest : Text}
    (hrest : atLineEnd rest) :
    addressForm? argument (r.addressForm ++ rest) =
      some (⟨Text.lowercase r.name.text, r.offset.value⟩, rest) := by
  have hname (rest : Text) : identifier? (r.name.text ++ ("_REG".toList ++ (r.argument ++ ([' '] ++ rest)))) =
      some (r.name.text ++ "_REG".toList, r.argument ++ ([' '] ++ rest)) :=
    r.name.identifier?_text_append (by decide) (r.stops_argument (by decide) rest)
  have hbase (rest : Text) : identifier? (r.stem.text ++ ("_BASE".toList ++ (r.argument ++ ([' '] ++ rest)))) =
      some (r.stem.text ++ "_BASE".toList, r.argument ++ ([' '] ++ rest)) :=
    r.stem.identifier?_text_append (by decide) (r.stops_argument (by decide) rest)
  have hspace (rest : Text) : space? ([' '] ++ (List.replicate r.furtherSpaces ' ' ++ (['('] ++ rest))) =
      some (['('] ++ rest) := space?_replicate r.furtherSpaces (by decide) rest
  have hoffset : Text.hexadecimal? (r.offset.digits ++ ([')'] ++ rest)) =
      some (r.offset.value, [')'] ++ rest) := r.offset.numeral?_digits (stops_cons (by decide) rest)
  have hsum (rest : Text) : skipSpace ([' '] ++ (['+'] ++ rest)) = ['+'] ++ rest := rfl
  have hnumber (rest : Text) : skipSpace ([' '] ++ ("0x".toList ++ rest)) = "0x".toList ++ rest := rfl
  -- From the name to the closing bracket, one part after the other.
  unfold addressForm addressForm?
  simp only [List.append_assoc, Option.bind_eq_bind]
  rw [hname, Option.bind_some]
  simp only
  rw [hargument, Option.bind_some, hspace, Option.bind_some, after?_append, Option.bind_some, hbase,
    Option.bind_some]
  simp only
  rw [hargument, Option.bind_some, hsum, after?_append, Option.bind_some, hnumber, after?_append,
    Option.bind_some, hoffset, Option.bind_some]
  simp only
  rw [after?_append, Option.bind_some, if_pos ⟨isBaseName_append r.stem, hrest⟩,
    registerName_append r.name.nonempty]

theorem argument?_argument {r : RegisterEntry} {i : Identifier} (hindex : r.index = some i) (rest : Text) :
    argument? (r.argument ++ rest) = some rest := by
  have hread : identifier? (i.text ++ ([')'] ++ rest)) = some (i.text, [')'] ++ rest) :=
    i.identifier?_text (stops_cons (by decide) rest)
  rw [argument, hindex, argument?]
  simp only [List.append_assoc, Option.bind_eq_bind]
  rw [after?_append, Option.bind_some, hread, Option.bind_some]
  exact after?_append [')'] rest

/-- The plain form needs a space where an indexed register has its argument. -/
theorem addressForm?_some_eq_none {r : RegisterEntry} {i : Identifier} (hindex : r.index = some i) (rest : Text) :
    addressForm? some (r.addressForm ++ rest) = none := by
  have hname (rest : Text) : identifier? (r.name.text ++ ("_REG".toList ++ (['('] ++ rest))) =
      some (r.name.text ++ "_REG".toList, ['('] ++ rest) :=
    r.name.identifier?_text_append (by decide) (stops_cons (by decide) rest)
  unfold addressForm addressForm? argument
  rw [hindex]
  simp only [List.append_assoc, Option.bind_eq_bind]
  rw [hname, Option.bind_some]
  rfl

theorem address?_address (macroPrefix : Text) (r : RegisterEntry) {rest : Text} (hrest : atLineEnd rest) :
    address? macroPrefix (r.address macroPrefix ++ rest) =
      some (⟨Text.lowercase r.name.text, r.offset.value⟩, rest) := by
  unfold address address?
  simp only [List.append_assoc, Option.bind_eq_bind]
  rw [after?_append, Option.bind_some, after?_append, Option.bind_some]
  cases hindex : r.index with
  | none =>
    have hargument (rest : Text) : some (r.argument ++ rest) = some rest := by
      rw [argument, hindex]
      rfl
    rw [r.addressForm?_addressForm hargument hrest]
    rfl
  | some i =>
    rw [addressForm?_some_eq_none hindex, r.addressForm?_addressForm (argument?_argument hindex) hrest]
    rfl

theorem blockComment?_comment {d : Remark} (rest : Text) :
    blockComment? ("/*".toList ++ ("* ".toList ++ (d.text ++ ([' '] ++ ("*/".toList ++ (['\n'] ++ rest)))))) =
      some (' ' :: d.text ++ [' '], ['\n'] ++ rest) := by
  have hstars : ("* ".toList ++ (d.text ++ ([' '] ++ ("*/".toList ++ (['\n'] ++ rest))))).dropWhile (· = '*') =
      (' ' :: d.text ++ [' ']) ++ ("*/".toList ++ (['\n'] ++ rest)) := by
    rw [List.append_assoc]
    rfl
  have hopen : ¬ "*/".toList <:+: (' ' :: d.text ++ [' ']) ++ "*/".toList.dropLast :=
    Text.not_infix_concat (by decide) (Text.not_infix_concat (by decide)
      (Text.not_infix_cons (by decide) d.not_closing))
  rw [blockComment?, Option.bind_eq_bind, after?_append, Option.bind_some, hstars,
    until?_append (by decide) _ hopen]
  rfl

theorem leadingComment_comment (macroPrefix : Text) (r : RegisterEntry) (rest : Text) :
    ∃ place, leadingComment (r.comment ++ (r.address macroPrefix ++ rest)) = (r.description, place) ∧
      skipLineFeed place = r.address macroPrefix ++ rest := by
  rw [r.description_eq]
  unfold comment
  cases r.remark with
  | none => exact ⟨r.address macroPrefix ++ rest, rfl, rfl⟩
  | some d =>
    refine ⟨'\n' :: (r.address macroPrefix ++ rest), ?_, rfl⟩
    simp only [List.append_assoc]
    have hskip : ∀ rest, skipLineFeed ("/*".toList ++ rest) = "/*".toList ++ rest := fun _ => rfl
    rw [leadingComment, hskip, blockComment?_comment]
    rfl

end RegisterEntry

end RegisterMap.Header
