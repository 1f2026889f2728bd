import Mathlib
import RegisterMap.IndexedName
import RegisterMap.Proofs.Text.Scan

/-!
# Names cut at their index

A name is cut behind the letters that it starts with, and again behind the digits
that follow, if any do. There is one way to do this, which is how a name is read:
the index is the number of the digits, and one that fits no word is refused.
-/

namespace RegisterMap.IndexedName

open Text (Stops stops_dropWhile takeWhile_append_of_stops dropWhile_append_of_stops)

def IsLetter (c : Char) : Prop := 'A' ≤ c ∧ c ≤ 'Z' ∨ 'a' ≤ c ∧ c ≤ 'z' ∨ c = '_'

def IsDecimal (c : Char) : Prop := '0' ≤ c ∧ c ≤ '9'

theorem isStemChar_iff {c : Char} : isStemChar c ↔ IsLetter c := by
  simp only [isStemChar, IsLetter, Char.isAlpha, Char.isUpper, Char.isLower, Char.le_def, Bool.or_eq_true,
    Bool.and_eq_true, decide_eq_true_eq, ge_iff_le, or_assoc]

theorem isDigit_iff {c : Char} : c.isDigit ↔ IsDecimal c := by
  simp only [IsDecimal, Char.isDigit, Char.le_def, Bool.and_eq_true, decide_eq_true_eq, ge_iff_le]

theorem not_isLetter_of_isDecimal {c : Char} (h : IsDecimal c) : ¬ IsLetter c := by
  rintro (⟨hupper, -⟩ | ⟨hlower, -⟩ | rfl)
  · exact absurd (Char.le_trans hupper h.2) (by decide)
  · exact absurd (Char.le_trans hlower h.2) (by decide)
  · exact absurd h.2 (by decide)

theorem stops_isStemChar_iff {s : Text} : Stops isStemChar s ↔ ∀ c ∈ s.head?, ¬ IsLetter c := by
  simp only [Stops, isStemChar_iff]

theorem stops_isDigit_iff {s : Text} : Stops Char.isDigit s ↔ ∀ c ∈ s.head?, ¬ IsDecimal c := by
  simp only [Stops, isDigit_iff]

theorem takeWhile_isStemChar_eq_nil_iff {s : Text} :
    s.takeWhile isStemChar = [] ↔ ∀ c ∈ s.head?, ¬ IsLetter c := by
  rw [← stops_isStemChar_iff]
  constructor
  · intro h
    have hrest : s.dropWhile isStemChar = s := List.dropWhile_eq_self_iff.mpr (List.takeWhile_eq_nil_iff.mp h)
    rw [← hrest]
    exact stops_dropWhile isStemChar s
  · intro h
    exact @takeWhile_append_of_stops isStemChar [] s rfl h

/-- The number of decimal digits: the last one counts ones, the one before it tens, and so on. -/
def decimalValue (digits : Text) : Nat := Nat.ofDigits 10 (digits.reverse.map fun c => c.toNat - '0'.toNat)

theorem decimalValue_concat (digits : Text) (c : Char) :
    decimalValue (digits ++ [c]) = 10 * decimalValue digits + (c.toNat - '0'.toNat) := by
  rw [decimalValue, decimalValue, List.reverse_concat, List.map_cons, Nat.ofDigits_cons, Nat.add_comm]

theorem numeralValue_eq_decimalValue {digits : Text} (h : ∀ c ∈ digits, IsDecimal c) :
    Text.numeralValue 10 digits = decimalValue digits := by
  induction digits using List.reverseRecOn with
  | nil => rfl
  | append_singleton digits c ih =>
    have hdigits : ∀ d ∈ digits, IsDecimal d := fun d hd => h d (List.mem_append_left [c] hd)
    have hc : c.isDigit := isDigit_iff.mpr (h c (List.mem_append_right digits (List.mem_singleton_self c)))
    rw [decimalValue_concat, ← ih hdigits, Text.numeralValue, List.foldl_concat, Text.digitValue, if_pos hc]
    rfl

/-! ## Cuts -/

/-- A name cut into letters, digits and a tail, of which only the letters must be there. Both runs are
as long as can be. -/
@[ext]
structure Cut (name : Text) where
  stem : Text
  digits : Text
  tail : Text
  name_eq : name = stem ++ (digits ++ tail)
  stem_nonempty : stem ≠ []
  stem_letters : ∀ c ∈ stem, IsLetter c
  digits_decimal : ∀ c ∈ digits, IsDecimal c
  tail_not_decimal : ∀ c ∈ tail.head?, ¬ IsDecimal c
  tail_not_letter : digits = [] → ∀ c ∈ tail.head?, ¬ IsLetter c

namespace Cut

variable {name : Text} (cut : Cut name)

def value : Nat := decimalValue cut.digits

def index : Option Nat := if cut.digits = [] then none else some cut.value

theorem stem_subset : cut.stem ⊆ name := by
  intro c hc
  rw [cut.name_eq]
  exact List.mem_append_left _ hc

theorem tail_subset : cut.tail ⊆ name := by
  intro c hc
  rw [cut.name_eq]
  exact List.mem_append_right _ (List.mem_append_right _ hc)

theorem all_stem : cut.stem.all isStemChar :=
  List.all_eq_true.mpr fun c hc => isStemChar_iff.mpr (cut.stem_letters c hc)

theorem all_digits : cut.digits.all Char.isDigit :=
  List.all_eq_true.mpr fun c hc => isDigit_iff.mpr (cut.digits_decimal c hc)

theorem stops_tail : Stops Char.isDigit cut.tail := stops_isDigit_iff.mpr cut.tail_not_decimal

theorem stops_rest : Stops isStemChar (cut.digits ++ cut.tail) := by
  by_cases hdigits : cut.digits = []
  · rw [hdigits, List.nil_append, stops_isStemChar_iff]
    exact cut.tail_not_letter hdigits
  · apply Stops.append _ hdigits
    intro c hc
    rw [isStemChar_iff]
    exact not_isLetter_of_isDecimal (cut.digits_decimal c (List.mem_of_mem_head? hc))

theorem takeWhile_name : name.takeWhile isStemChar = cut.stem := by
  conv => lhs; rw [cut.name_eq]
  exact takeWhile_append_of_stops cut.all_stem cut.stops_rest

theorem dropWhile_name : name.dropWhile isStemChar = cut.digits ++ cut.tail := by
  conv => lhs; rw [cut.name_eq]
  exact dropWhile_append_of_stops cut.all_stem cut.stops_rest

theorem takeWhile_rest : (name.dropWhile isStemChar).takeWhile Char.isDigit = cut.digits := by
  rw [cut.dropWhile_name, takeWhile_append_of_stops cut.all_digits cut.stops_tail]

theorem dropWhile_rest : (name.dropWhile isStemChar).dropWhile Char.isDigit = cut.tail := by
  rw [cut.dropWhile_name, dropWhile_append_of_stops cut.all_digits cut.stops_tail]

/-- The parts of a cut are runs of the name, so there is no second way to cut it. -/
theorem eq_of_name (a b : Cut name) : a = b := by
  apply Cut.ext
  · rw [← a.takeWhile_name, ← b.takeWhile_name]
  · rw [← a.takeWhile_rest, ← b.takeWhile_rest]
  · rw [← a.dropWhile_rest, ← b.dropWhile_rest]

def ofName (h : name.takeWhile isStemChar ≠ []) : Cut name where
  stem := name.takeWhile isStemChar
  digits := (name.dropWhile isStemChar).takeWhile Char.isDigit
  tail := (name.dropWhile isStemChar).dropWhile Char.isDigit
  name_eq := by rw [List.takeWhile_append_dropWhile, List.takeWhile_append_dropWhile]
  stem_nonempty := h
  stem_letters := fun _ hc => isStemChar_iff.mp (List.mem_takeWhile_imp hc)
  digits_decimal := fun _ hc => isDigit_iff.mp (List.mem_takeWhile_imp hc)
  tail_not_decimal := stops_isDigit_iff.mp (stops_dropWhile _ _)
  tail_not_letter := by
    -- without digits, the tail is all that is behind the letters
    intro hdigits
    rw [List.dropWhile_eq_self_iff.mpr (List.takeWhile_eq_nil_iff.mp hdigits)]
    exact stops_isStemChar_iff.mp (stops_dropWhile _ _)

theorem ofText?_eq :
    ofText? name = if cut.value < wordLimit then some ⟨cut.stem, cut.index, cut.tail⟩ else none := by
  have hvalue : Text.numeralValue 10 cut.digits = cut.value := numeralValue_eq_decimalValue cut.digits_decimal
  unfold ofText?
  dsimp only
  rw [cut.takeWhile_name, cut.takeWhile_rest, cut.dropWhile_rest, cut.dropWhile_name, hvalue,
    if_neg cut.stem_nonempty, index]
  by_cases hdigits : cut.digits = []
  · have hzero : cut.value < wordLimit := by
      rw [value, hdigits]
      decide
    rw [if_pos hdigits, if_pos hdigits, if_pos hzero, hdigits, List.nil_append]
  · rw [if_neg hdigits, if_neg hdigits]

end Cut

/-! ## Reading -/

section
variable {name : Text}

theorem ofText?_eq_none_of_stops (h : name.takeWhile isStemChar = []) : ofText? name = none := by
  rw [ofText?, if_pos h]

theorem ofText?_eq_some_iff {n : IndexedName} :
    ofText? name = some n ↔
      ∃ cut : Cut name, cut.value < wordLimit ∧ n = ⟨cut.stem, cut.index, cut.tail⟩ := by
  constructor
  · intro h
    by_cases hstem : name.takeWhile isStemChar = []
    · rw [ofText?_eq_none_of_stops hstem] at h
      cases h
    · rw [(Cut.ofName hstem).ofText?_eq] at h
      split at h
      · rename_i hvalue
        exact ⟨.ofName hstem, hvalue, (Option.some_inj.mp h).symm⟩
      · cases h
  · rintro ⟨cut, hvalue, rfl⟩
    rw [cut.ofText?_eq, if_pos hvalue]

theorem ofText?_eq_none_iff :
    ofText? name = none ↔ (∀ c ∈ name.head?, ¬ IsLetter c) ∨ ∃ cut : Cut name, wordLimit ≤ cut.value := by
  rw [← takeWhile_isStemChar_eq_nil_iff]
  constructor
  · intro h
    by_cases hstem : name.takeWhile isStemChar = []
    · exact .inl hstem
    · rw [(Cut.ofName hstem).ofText?_eq, ite_eq_right_iff] at h
      refine .inr ⟨.ofName hstem, Nat.le_of_not_lt ?_⟩
      intro hvalue
      exact Option.some_ne_none _ (h hvalue)
  · rintro (hstem | ⟨cut, hvalue⟩)
    · exact ofText?_eq_none_of_stops hstem
    · rw [cut.ofText?_eq, if_neg (Nat.not_lt_of_le hvalue)]

end

/-- **Names are read as they are cut**, for which there is one way at most. None is read that cannot be
cut, or whose digits come to too large a number. -/
theorem ofText?_iff_cut (name : Text) :
    (∀ n, ofText? name = some n ↔
      ∃ cut : Cut name, cut.value < wordLimit ∧ n = ⟨cut.stem, cut.index, cut.tail⟩) ∧
    (∀ a b : Cut name, a = b) ∧
    (ofText? name = none ↔ (∀ c ∈ name.head?, ¬ IsLetter c) ∨ ∃ cut : Cut name, wordLimit ≤ cut.value) :=
  ⟨fun _ => ofText?_eq_some_iff, Cut.eq_of_name, ofText?_eq_none_iff⟩

-- zeros in front count nothing, and a digit of another script is none
example : ofText? "ch0004294967295\u0663".toList = some ⟨"ch".toList, some 4294967295, "\u0663".toList⟩ := by
  decide

example : ofText? "ch4294967296".toList = none := by decide

end RegisterMap.IndexedName
