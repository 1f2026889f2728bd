import Mathlib
import RegisterMap.Markup
import RegisterMap.Proofs.Model.StableOrder
import RegisterMap.Proofs.Text.Scan

/-!
# Markup can be read back

A reader for each kind of element takes it from the front of a text and leaves
what stands behind. What was escaped holds no mark that ends it, an element
without content is told by the slash behind its attributes, and the first
character behind `<` tells a description, a child and the end of the parent
apart. So each reader gives back what was written, and the readers build it the
way it was built before, by adding fields and registers.
-/

namespace RegisterMap

open Text (after? until? dropMark after?_append until?_append)

namespace Markup

def unescape : Text → Text
  | '&' :: 'l' :: 't' :: ';' :: rest => '<' :: unescape rest
  | '&' :: 'g' :: 't' :: ';' :: rest => '>' :: unescape rest
  | '&' :: 'a' :: 'm' :: 'p' :: ';' :: rest => '&' :: unescape rest
  | '&' :: 'q' :: 'u' :: 'o' :: 't' :: ';' :: rest => '"' :: unescape rest
  | c :: rest => c :: unescape rest
  | [] => []

theorem unescape_cons {c : Char} (h : c ≠ '&') (rest : Text) :
    unescape (c :: rest) = c :: unescape rest := by
  apply unescape.eq_5
  all_goals
    intro _ hc
    exact absurd hc h

theorem unescape_escapeTextChar (c : Char) (rest : Text) :
    unescape (escapeTextChar c ++ rest) = c :: unescape rest := by
  unfold escapeTextChar
  split
  · rfl
  · rfl
  · rfl
  · rename_i hamp
    exact unescape_cons hamp rest

theorem unescape_escapeAttributeChar (c : Char) (rest : Text) :
    unescape (escapeAttributeChar c ++ rest) = c :: unescape rest := by
  unfold escapeAttributeChar
  by_cases h : c = '"'
  · subst h
    rfl
  · rw [if_neg h]
    exact unescape_escapeTextChar c rest

theorem unescape_flatMap {escape : Char → Text}
    (h : ∀ c rest, unescape (escape c ++ rest) = c :: unescape rest) :
    ∀ s : Text, unescape (s.flatMap escape) = s
  | [] => rfl
  | c :: s => by rw [List.flatMap_cons, h, unescape_flatMap h s]

theorem not_mem_flatMap {mark : Char} {escape : Char → Text} (h : ∀ c, mark ∉ escape c) (s : Text) :
    mark ∉ s.flatMap escape := by
  intro hmem
  obtain ⟨c, -, hc⟩ := List.mem_flatMap.mp hmem
  exact h c hc

theorem lt_not_mem_escapeText (s : Text) : '<' ∉ escapeText s := by
  apply not_mem_flatMap
  intro c
  unfold escapeTextChar
  split
  · decide
  · decide
  · decide
  · rename_i h _ _
    simpa using Ne.symm h

theorem quote_not_mem_escapeAttribute (s : Text) : '"' ∉ escapeAttribute s := by
  apply not_mem_flatMap
  intro c
  unfold escapeAttributeChar
  by_cases h : c = '"'
  · rw [if_pos h]
    decide
  · rw [if_neg h]
    unfold escapeTextChar
    split
    · decide
    · decide
    · decide
    · simpa using Ne.symm h

/-! ## Attributes -/

def attribute? (name s : Text) : Option (Text × Text) := do
  let s ← after? (' ' :: name ++ "=\"".toList) s
  let (value, s) ← until? ['"'] s
  return (unescape value, s)

def number? (name s : Text) : Option (Word × Text) := do
  let (value, s) ← attribute? name s
  match Text.decimal? value with
  | some (n, []) => some (n, s)
  | _ => none

theorem attribute?_nameValue (name value rest : Text) :
    attribute? name (nameValue name value ++ rest) = some (value, rest) := by
  have hvalue : until? ['"'] (escapeAttribute value ++ (['"'] ++ rest)) =
      some (escapeAttribute value, rest) := by
    apply until?_append (List.cons_ne_nil _ _)
    rw [List.dropLast_singleton, List.append_nil, List.singleton_infix_iff]
    exact quote_not_mem_escapeAttribute value
  have hunescape : unescape (escapeAttribute value) = value :=
    unescape_flatMap unescape_escapeAttributeChar value
  simp only [attribute?, nameValue, List.append_assoc]
  rw [← List.append_assoc, after?_append]
  simp only [Option.bind_eq_bind, Option.bind_some, hvalue, hunescape]
  rfl

theorem numeralValue_decimal (n : Nat) : Text.numeralValue 10 (Text.decimal n) = n := by
  have hdigits : ∀ c ∈ Text.decimal n, ∀ m, 10 * m + Text.digitValue c = 10 * m + (c.toNat - '0'.toNat) := by
    intro c hc m
    have hdigit := Nat.isDigit_of_mem_toDigits (by decide) (by decide) hc
    rw [Text.digitValue, if_pos hdigit]
  calc Text.numeralValue 10 (Text.decimal n)
      = Nat.ofDigitChars 10 (Nat.toDigits 10 n) 0 := List.foldl_ext _ _ _ fun m c hc => hdigits c hc m
    _ = n := Nat.ofDigitChars_toDigits (by decide) (by decide)

theorem decimal?_decimal (n : Word) : Text.decimal? (Text.decimal n) = some (n, []) := by
  have hall : (Text.decimal n).all Char.isDigit := by
    apply List.all_eq_true.mpr
    intro c hc
    exact Nat.isDigit_of_mem_toDigits (by decide) (by decide) hc
  have hne : Text.decimal n ≠ [] := Nat.toDigits_ne_nil
  have hstop : Text.Stops Char.isDigit [] := by simp [Text.Stops]
  have htake := Text.takeWhile_append_of_stops hall hstop
  have hdrop := Text.dropWhile_append_of_stops hall hstop
  rw [List.append_nil] at htake hdrop
  simp only [Text.decimal?, Text.numeral?, htake, hdrop, if_neg hne, numeralValue_decimal, n.isLt, dite_true]

theorem number?_nameValue (name : Text) (n : Word) (rest : Text) :
    number? name (nameValue name (Text.decimal n) ++ rest) = some (n, rest) := by
  simp only [number?, attribute?_nameValue, Option.bind_eq_bind, Option.bind_some, decimal?_decimal]

/-! ## Content -/

def closing (tag : Text) : Text := "</".toList ++ tag ++ ['>']

def ending (tag content : Text) : Text :=
  if content = [] then "/>".toList else '>' :: (content ++ closing tag)

theorem element_eq (tag attributes content : Text) :
    element tag attributes content = '<' :: tag ++ (attributes ++ ending tag content) := by
  unfold element ending
  by_cases h : content = []
  · rw [if_pos h, if_pos h, List.append_assoc]
  · rw [if_neg h, if_neg h]
    simp [closing]

section
variable {α : Type}

def content? (tag : Text) (read : Text → α × Text) (s : Text) : Option (α × Text) :=
  match after? "/>".toList s with
  | some rest => some ((read []).1, rest)
  | none => do
    let (content, s) := read (← after? ['>'] s)
    let s ← after? (closing tag) s
    return (content, s)

def remark? (s : Text) : Option Text × Text :=
  match after? "<description>".toList s >>= until? ['<'] with
  | some (text, rest) => (some (unescape text), dropMark "/description>".toList rest)
  | none => (none, s)

def many (read : Text → Option (α × Text)) (s : Text) : List α × Text :=
  match read s with
  | some (a, rest) =>
    if rest.length < s.length then (a :: (many read rest).1, (many read rest).2) else ([], s)
  | none => ([], s)
termination_by s.length

def parts (read : Text → Option (α × Text)) (s : Text) : (Option Text × List α) × Text :=
  let (remark, s) := remark? s
  let (children, s) := many read s
  ((remark, children), s)

def Closes (s : Text) : Prop := s = [] ∨ ∃ rest, s = '<' :: '/' :: rest

theorem after?_of_closes {c : Char} (hc : c ≠ '/') (mark : Text) {s : Text} (h : Closes s) :
    after? ('<' :: c :: mark) s = none := by
  rcases h with rfl | ⟨rest, rfl⟩
  · rfl
  · simp [after?, hc]

theorem after?_element {c d : Char} (h : c ≠ d) (mark tag attributes content rest : Text) :
    after? ('<' :: c :: mark) (element (d :: tag) attributes content ++ rest) = none := by
  rw [element_eq]
  simp [after?, h]

theorem content?_ending {read : Text → α × Text} {content : Text} {a : α}
    (h : ∀ s, Closes s → read (content ++ s) = (a, s)) (tag rest : Text) :
    content? tag read (ending tag content ++ rest) = some (a, rest) := by
  unfold ending
  by_cases hcontent : content = []
  · have hread : read [] = (a, []) := by simpa [hcontent] using h [] (.inl rfl)
    rw [if_pos hcontent, content?, after?_append, hread]
  · have hnone : after? "/>".toList ('>' :: (content ++ closing tag) ++ rest) = none := rfl
    have hopen : after? ['>'] ('>' :: (content ++ closing tag) ++ rest) =
        some (content ++ (closing tag ++ rest)) := by
      rw [← List.append_assoc]
      exact after?_append ['>'] (content ++ closing tag ++ rest)
    have hread := h (closing tag ++ rest) (.inr ⟨_, rfl⟩)
    rw [if_neg hcontent, content?, hnone]
    simp only [hopen, Option.bind_eq_bind, Option.bind_some, hread, after?_append]
    rfl

theorem many_flatMap {read : Text → Option (α × Text)} {write : α → Text}
    (hread : ∀ a rest, read (write a ++ rest) = some (a, rest)) (hwrite : ∀ a, write a ≠ [])
    {rest : Text} (hrest : read rest = none) : ∀ as, many read (as.flatMap write ++ rest) = (as, rest)
  | [] => by
    rw [List.flatMap_nil, List.nil_append, many, hrest]
  | a :: as => by
    have hpos := List.length_pos_iff.mpr (hwrite a)
    have hshorter : (as.flatMap write ++ rest).length < (write a ++ (as.flatMap write ++ rest)).length := by
      simp only [List.length_append]
      omega
    rw [List.flatMap_cons, List.append_assoc, many, hread]
    simp only [if_pos hshorter, many_flatMap hread hwrite hrest as]

theorem remark?_remark (d : Option Description) {rest : Text}
    (hrest : after? "<description>".toList rest = none) :
    remark? (remark d ++ rest) = (d.map (·.text), rest) := by
  cases d with
  | none =>
    simp only [remark, remark?, List.nil_append, hrest, Option.bind_eq_bind, Option.bind_none, Option.map_none]
  | some d =>
    have hunescape : unescape (escapeText d.text) = d.text := unescape_flatMap unescape_escapeTextChar d.text
    have hne : escapeText d.text ≠ [] := by
      intro hnil
      apply d.not_blank
      rw [← hunescape, hnil]
      rfl
    -- An escaped text goes up to the next tag.
    have hbody : until? ['<'] (escapeText d.text ++ (['<'] ++ ("/description>".toList ++ rest))) =
        some (escapeText d.text, "/description>".toList ++ rest) := by
      apply until?_append (List.cons_ne_nil _ _)
      rw [List.dropLast_singleton, List.append_nil, List.singleton_infix_iff]
      exact lt_not_mem_escapeText d.text
    have hremark : remark (some d) ++ rest =
        "<description>".toList ++ (escapeText d.text ++ (['<'] ++ ("/description>".toList ++ rest))) := by
      rw [remark, element_eq, ending, if_neg hne]
      simp [closing]
    rw [hremark, remark?, after?_append]
    simp only [Option.bind_eq_bind, Option.bind_some, hbody, hunescape, Text.dropMark_append, Option.map_some]

/-- Children do not start as a description does, nor does the end of their parent as they do. -/
theorem parts_append {read : Text → Option (α × Text)} {write : α → Text}
    (hread : ∀ a rest, read (write a ++ rest) = some (a, rest))
    (hwrite : ∀ a rest, after? "<description>".toList (write a ++ rest) = none)
    (hcloses : ∀ s, Closes s → read s = none) (d : Option Description) (as : List α) {s : Text}
    (hs : Closes s) :
    parts read (remark d ++ as.flatMap write ++ s) = ((d.map (·.text), as), s) := by
  have hne : ∀ a, write a ≠ [] := by
    intro a ha
    have hnil := hread a []
    rw [ha, List.nil_append, hcloses [] (.inl rfl)] at hnil
    cases hnil
  have hrest : after? "<description>".toList (as.flatMap write ++ s) = none := by
    cases as with
    | nil => exact after?_of_closes (by decide) "escription>".toList hs
    | cons a as =>
      rw [List.flatMap_cons, List.append_assoc]
      exact hwrite a _
  rw [List.append_assoc, parts]
  simp only [remark?_remark d hrest, many_flatMap hread hne (hcloses s hs)]

end

/-! ## Elements -/

def field? (s : Text) : Option (Field × Text) := do
  let s ← after? ('<' :: "field".toList) s
  let (name, s) ← attribute? "name".toList s
  let (bitOffset, s) ← number? "bit_offset".toList s
  let (width, s) ← number? "width".toList s
  let (description, s) ← content? "field".toList remark? s
  let f ← ({ name, bitOffset, width, description } : FieldSpec).field.toOption
  return (f, s)

def register? (s : Text) : Option (Register × Text) := do
  let s ← after? ('<' :: "register".toList) s
  let (name, s) ← attribute? "name".toList s
  let (byteOffset, s) ← number? "byte_offset".toList s
  let ((description, fields), s) ← content? "register".toList (parts field?) s
  return ((Register.empty name byteOffset (Description.ofOption? description)).addAll fields, s)

def peripheral? (s : Text) : Option (Peripheral × Text) := do
  let s ← after? ('<' :: "peripheral".toList) s
  let (name, s) ← attribute? "name".toList s
  let ((description, registers), s) ← content? "peripheral".toList (parts register?) s
  return ((Peripheral.empty name (Description.ofOption? description)).addAll registers, s)

end Markup

theorem Description.ofOption?_map_text (d : Option Description) :
    Description.ofOption? (d.map (·.text)) = d := by
  cases d with
  | none => rfl
  | some d =>
    simp only [ofOption?, Option.map_some, Option.bind_some, ofText?, dif_neg d.not_blank]

theorem FieldSpec.field_eq_ok (f : Field) :
    FieldSpec.field ⟨f.name, f.bitOffset, f.width, f.description.map (·.text)⟩ = .ok f := by
  have hwidth := f.width_pos
  have hend := f.end_le
  have hoffset_lt : f.bitOffset < wordBits := by omega
  have hwidth_le : f.width ≤ wordBits := by omega
  have hoffset_kept : Field.kept 32 f.bitOffset = f.bitOffset := Field.kept_of_lt (by decide) hoffset_lt
  have hwidth_kept : Field.kept 64 f.width = f.width :=
    Field.kept_of_lt (by decide) (Nat.lt_of_le_of_lt hwidth_le (by decide))
  have hfits : ¬ (f.width = 0 ∨ f.width > wordBits) := by omega
  rw [field, dif_neg (Nat.not_le.mpr hoffset_lt), dif_neg hfits, dif_neg (Nat.not_lt.mpr hend)]
  simp only [hoffset_kept, hwidth_kept, Description.ofOption?_map_text]

namespace Markup

theorem field?_markup (f : Field) (rest : Text) : field? (f.markup ++ rest) = some (f, rest) := by
  have hword : wordBits < wordLimit := by decide
  have hend := f.end_le
  have hoffset_lt : f.bitOffset < wordLimit := by omega
  have hwidth_lt : f.width < wordLimit := by omega
  have hoffset (s : Text) : number? "bit_offset".toList
      (nameValue "bit_offset".toList (Text.decimal f.bitOffset) ++ s) = some (⟨f.bitOffset, hoffset_lt⟩, s) :=
    number?_nameValue _ ⟨f.bitOffset, hoffset_lt⟩ s
  have hwidth (s : Text) : number? "width".toList
      (nameValue "width".toList (Text.decimal f.width) ++ s) = some (⟨f.width, hwidth_lt⟩, s) :=
    number?_nameValue _ ⟨f.width, hwidth_lt⟩ s
  have hremark (s : Text) (hs : Closes s) : remark? (remark f.description ++ s) = (f.description.map (·.text), s) :=
    remark?_remark f.description (after?_of_closes (by decide) "escription>".toList hs)
  have hcontent := content?_ending hremark "field".toList rest
  rw [Field.markup, element_eq]
  simp only [List.append_assoc]
  rw [field?, after?_append]
  simp only [Option.bind_eq_bind, Option.bind_some, attribute?_nameValue, hoffset, hwidth, hcontent,
    FieldSpec.field_eq_ok]
  rfl

theorem field?_of_closes {s : Text} (h : Closes s) : field? s = none := by
  have hopen : after? ('<' :: "field".toList) s = none := after?_of_closes (by decide) "ield".toList h
  rw [field?, hopen]
  rfl

theorem register?_markup (r : Register) (rest : Text) : register? (r.markup ++ rest) = some (r, rest) := by
  have hparts (s : Text) (hs : Closes s) :=
    parts_append field?_markup (fun f => after?_element (by decide) "escription>".toList "ield".toList _ _)
      (fun _ => field?_of_closes) r.description r.fields hs
  have hcontent := content?_ending hparts "register".toList rest
  rw [Register.markup, element_eq]
  simp only [List.append_assoc] at hcontent ⊢
  rw [register?, after?_append]
  simp only [Option.bind_eq_bind, Option.bind_some, attribute?_nameValue, number?_nameValue, hcontent,
    Description.ofOption?_map_text, Register.addAll_empty]
  rfl

theorem register?_of_closes {s : Text} (h : Closes s) : register? s = none := by
  have hopen : after? ('<' :: "register".toList) s = none := after?_of_closes (by decide) "egister".toList h
  rw [register?, hopen]
  rfl

theorem peripheral?_markup (p : Peripheral) (rest : Text) :
    peripheral? (p.markup ++ rest) = some (p, rest) := by
  have hparts (s : Text) (hs : Closes s) :=
    parts_append register?_markup
      (fun r => after?_element (by decide) "escription>".toList "egister".toList _ _)
      (fun _ => register?_of_closes) p.description p.registers hs
  have hcontent := content?_ending hparts "peripheral".toList rest
  rw [Peripheral.markup, element_eq]
  simp only [List.append_assoc] at hcontent ⊢
  rw [peripheral?, after?_append]
  simp only [Option.bind_eq_bind, Option.bind_some, attribute?_nameValue, hcontent,
    Description.ofOption?_map_text, Peripheral.addAll_empty]
  rfl

end Markup

namespace Peripheral

def ofMarkup? (s : Text) : Option Peripheral :=
  match Markup.peripheral? s with
  | some (p, []) => some p
  | _ => none

/-- **Markup can be read back**, so no two peripherals have the same. -/
theorem markup_readBack (p q : Peripheral) :
    ofMarkup? p.markup = some p ∧ (p.markup = q.markup ↔ p = q) := by
  have hread (p : Peripheral) : ofMarkup? p.markup = some p := by
    have hp := Markup.peripheral?_markup p []
    rw [List.append_nil] at hp
    rw [ofMarkup?, hp]
  refine ⟨hread p, ?_, congrArg markup⟩
  intro h
  have hq := hread p
  rw [h, hread q] at hq
  exact (Option.some.inj hq).symm

end Peripheral

end RegisterMap
