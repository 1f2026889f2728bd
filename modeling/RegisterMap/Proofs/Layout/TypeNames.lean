import Mathlib
import RegisterMap.Proofs.Header.Reading
import RegisterMap.Proofs.Layout.Names

/-!
# Types are defined where they are used

Two readers go over the printed lines: one collects the names behind the closing
braces of type definitions, the other the types that members of the aggregate
are declared with. Each reads a whole declaration in front of any further lines,
so both read what the declarations say, and the same names for every layout.
-/

namespace RegisterMap

open Header (isWordChar identifier? identifier?_append)
open Text (after? stops_cons)

def typeOpening : Text := "typedef volatile struct \x7b".toList

def inlineOpening : Text := "    volatile struct \x7b".toList

def inlineClosing : Text := "    \x7d;".toList

def closedName? (line : Text) : Option Text := do
  let (name, rest) ← identifier? (← after? "\x7d ".toList line)
  if rest = [';'] then some name else none

def memberType? (line : Text) : Option Text := do
  let (type, rest) ← identifier? (← after? "    ".toList line)
  if type ≠ "volatile".toList ∧ rest.head? = some ' ' then some type else none

/-- The names of definitions, from lines that may start inside of one. -/
def definedIn : Bool → List Text → List Text
  | _, [] => []
  | false, line :: rest => definedIn (line = typeOpening) rest
  | true, line :: rest =>
    match closedName? line with
    | none => definedIn true rest
    | some name => name :: definedIn false rest

/-- The types of members, from lines that may start inside of an inline struct. -/
def usedIn : Bool → List Text → List Text
  | _, [] => []
  | false, line :: rest => (memberType? line).toList ++ usedIn (line = inlineOpening) rest
  | true, line :: rest => usedIn (line ≠ inlineClosing) rest

namespace Text

def definedNames (types : Text) : List Text := definedIn false types.lines

def usedNames (body : Text) : List Text := usedIn false body.lines

end Text

/-! ## Reading declarations -/

theorem ne_of_begins {mark line other : Text} (h : mark <+: line) (hother : ¬ mark <+: other) :
    line ≠ other := by
  rintro rfl
  exact hother h

theorem commentLines_begin (level : Nat) (comment : Option Description) :
    ∀ line ∈ commentLines level comment, indent level ++ "//".toList <+: line := by
  intro line hline
  cases comment with
  | none => cases hline
  | some d =>
    obtain rfl := List.mem_singleton.mp hline
    exact ⟨' ' :: d.text, by simp⟩

theorem BitMember.lines_begin (level : Nat) (m : BitMember) : ∀ line ∈ m.lines level, indent level <+: line := by
  intro line hline
  cases m with
  | filler width =>
    obtain rfl := List.mem_singleton.mp hline
    simp only [List.append_assoc]
    exact List.prefix_append ..
  | bits comment name width =>
    rcases List.mem_append.mp hline with hline | hline
    · exact (List.prefix_append ..).trans (commentLines_begin level comment line hline)
    · obtain rfl := List.mem_singleton.mp hline
      simp only [List.append_assoc]
      exact List.prefix_append ..

section
variable {ls : List Text} (rest : List Text)

theorem definedIn_outside (h : ∀ line ∈ ls, line ≠ typeOpening) :
    definedIn false (ls ++ rest) = definedIn false rest := by
  induction ls with
  | nil => rfl
  | cons line ls ih =>
    obtain ⟨hline, hls⟩ := List.forall_mem_cons.mp h
    simp [definedIn, hline, ih hls]

theorem definedIn_inside (h : ∀ line ∈ ls, closedName? line = none) :
    definedIn true (ls ++ rest) = definedIn true rest := by
  induction ls with
  | nil => rfl
  | cons line ls ih =>
    obtain ⟨hline, hls⟩ := List.forall_mem_cons.mp h
    simp [definedIn, hline, ih hls]

theorem usedIn_outside (h : ∀ line ∈ ls, memberType? line = none ∧ line ≠ inlineOpening) :
    usedIn false (ls ++ rest) = usedIn false rest := by
  induction ls with
  | nil => rfl
  | cons line ls ih =>
    obtain ⟨hline, hls⟩ := List.forall_mem_cons.mp h
    simp [usedIn, hline, ih hls]

theorem usedIn_inside (h : ∀ line ∈ ls, line ≠ inlineClosing) :
    usedIn true (ls ++ rest) = usedIn true rest := by
  induction ls with
  | nil => rfl
  | cons line ls ih =>
    obtain ⟨hline, hls⟩ := List.forall_mem_cons.mp h
    simp [usedIn, hline, ih hls]

end

theorem closedName?_closing {name : Text} (h : IsWord name) :
    closedName? ("\x7d ".toList ++ name ++ [';']) = some name := by
  have hidentifier := identifier?_append h.nonempty h.all_isWordChar
    (stops_cons (p := isWordChar) (c := ';') (by decide) [])
  rw [closedName?, List.append_assoc, Text.after?_append]
  simp [hidentifier]

theorem memberType?_typed {type : Text} (h : IsWord type) (hkeyword : type ≠ "volatile".toList)
    (s : Text) : memberType? (indent 1 ++ (type ++ ' ' :: s)) = some type := by
  have hidentifier := identifier?_append h.nonempty h.all_isWordChar
    (stops_cons (p := isWordChar) (c := ' ') (by decide) s)
  have hindent : "    ".toList = indent 1 := rfl
  rw [memberType?, hindent, Text.after?_append]
  simp only [Option.bind_eq_bind, Option.bind_some, hidentifier]
  exact if_pos ⟨hkeyword, rfl⟩

theorem usedIn_commentLines {level : Nat} (hlevel : level ≤ 1) (comment : Option Description)
    (rest : List Text) : usedIn false (commentLines level comment ++ rest) = usedIn false rest := by
  apply usedIn_outside
  intro line hline
  have hbegin := commentLines_begin level comment line hline
  rcases Nat.le_one_iff_eq_zero_or_eq_one.mp hlevel with rfl | rfl
  all_goals
    refine ⟨?_, ne_of_begins hbegin (by decide)⟩
    obtain ⟨s, rfl⟩ := hbegin
    rfl

theorem usedIn_scalar {line : Text} (h : indent 1 ++ "volatile uint32_t ".toList <+: line)
    (rest : List Text) : usedIn false (line :: rest) = usedIn false rest := by
  have hline : line ≠ inlineOpening := ne_of_begins h (by decide)
  have hnone : memberType? line = none := by
    obtain ⟨s, rfl⟩ := h
    rfl
  simp [usedIn, hline, hnone]

theorem BitType.definedIn_lines {t : BitType} (h : IsWord t.name) (rest : List Text) :
    definedIn false (t.lines ++ rest) = t.name :: definedIn false rest := by
  have hcomment : ∀ line ∈ commentLines 0 t.comment, line ≠ typeOpening := by
    intro line hline
    exact ne_of_begins (commentLines_begin 0 t.comment line hline) (by decide)
  have hmembers : ∀ line ∈ t.members.flatMap (·.lines 1), closedName? line = none := by
    intro line hline
    obtain ⟨m, -, hline⟩ := List.mem_flatMap.mp hline
    obtain ⟨s, rfl⟩ := m.lines_begin 1 line hline
    rfl
  have hopening (ls : List Text) : definedIn false (typeOpening :: ls) = definedIn true ls := by
    simp [definedIn]
  have hclosing (ls : List Text) :
      definedIn true (("\x7d ".toList ++ t.name ++ [';']) :: [] :: ls) = t.name :: definedIn false ls := by
    rw [definedIn, closedName?_closing h]
    rfl
  simp only [lines, List.append_assoc, List.cons_append, List.nil_append]
  rw [definedIn_outside _ hcomment]
  show definedIn false (typeOpening :: _) = _
  rw [hopening, definedIn_inside _ hmembers]
  exact hclosing rest

theorem definedIn_bitTypes (rest : List Text) : ∀ {types : List BitType}, (∀ t ∈ types, t.WellNamed) →
    definedIn false (types.flatMap BitType.lines ++ rest) = types.map BitType.name ++ definedIn false rest
  | [], _ => rfl
  | t :: types, h => by
    obtain ⟨ht, htypes⟩ := List.forall_mem_cons.mp h
    rw [List.flatMap_cons, List.append_assoc, t.definedIn_lines ht.name, definedIn_bitTypes rest htypes]
    rfl

def Slot.type? : Slot → Option Text
  | .typed _ type _ _ => some type
  | _ => none

theorem Slot.usedIn_lines {s : Slot} (h : s.WellNamed) (rest : List Text) :
    usedIn false (s.lines ++ rest) = s.type?.toList ++ usedIn false rest := by
  cases s with
  | padding index words =>
    have hcomment (ls : List Text) :
        usedIn false ((indent 1 ++ "// Padding.".toList) :: ls) = usedIn false ls := rfl
    have hbegin (s : Text) : indent 1 ++ "volatile uint32_t ".toList <+:
        indent 1 ++ ("volatile uint32_t _padding".toList ++ s) :=
      ⟨"_padding".toList ++ s, rfl⟩
    simp only [lines, List.append_assoc, List.cons_append, List.nil_append]
    rw [hcomment, usedIn_scalar (hbegin _)]
    rfl
  | word comment name length =>
    simp only [lines, List.append_assoc, List.cons_append, List.nil_append]
    rw [usedIn_commentLines (by decide), usedIn_scalar ⟨_, List.append_assoc ..⟩]
    rfl
  | inline comment members =>
    -- The closing line is the first that ends the struct.
    have hmembers : ∀ line ∈ members.flatMap (·.lines 2), line ≠ inlineClosing := by
      intro line hline
      obtain ⟨m, -, hline⟩ := List.mem_flatMap.mp hline
      exact ne_of_begins (m.lines_begin 2 line hline) (by decide)
    have hopening (ls : List Text) : usedIn false (inlineOpening :: ls) = usedIn true ls := rfl
    have hclosing (ls : List Text) : usedIn true (inlineClosing :: ls) = usedIn false ls := rfl
    simp only [lines, List.append_assoc, List.cons_append, List.nil_append]
    rw [usedIn_commentLines (by decide)]
    show usedIn false (inlineOpening :: (_ ++ inlineClosing :: rest)) = _
    rw [hopening, usedIn_inside _ hmembers, hclosing]
    rfl
  | typed comment type name length =>
    have htype := memberType?_typed h.1.1 h.1.2 (name ++ (dimension length ++ [';']))
    have hline : indent 1 ++ (type ++ ' ' :: (name ++ (dimension length ++ [';']))) ≠ inlineOpening := by
      intro heq
      rw [heq] at htype
      cases htype
    simp only [lines, List.append_assoc, List.cons_append, List.nil_append]
    rw [usedIn_commentLines (by decide), usedIn, htype, decide_eq_false hline]
    rfl

theorem usedIn_slots (rest : List Text) : ∀ {slots : List Slot}, (∀ s ∈ slots, s.WellNamed) →
    usedIn false (slots.flatMap Slot.lines ++ rest) = slots.filterMap Slot.type? ++ usedIn false rest
  | [], _ => rfl
  | s :: slots, h => by
    obtain ⟨hs, hslots⟩ := List.forall_mem_cons.mp h
    rw [List.flatMap_cons, List.append_assoc, s.usedIn_lines hs, usedIn_slots rest hslots,
      List.filterMap_cons]
    cases s.type? <;> rfl

theorem Aggregate.usedIn_lines {a : Aggregate} (h : ∀ s ∈ a.slots, s.WellNamed) (rest : List Text) :
    usedIn false (a.lines ++ rest) = a.slots.filterMap Slot.type? ++ usedIn false rest := by
  have hopening (ls : List Text) : usedIn false ("typedef struct \x7b".toList :: ls) = usedIn false ls := rfl
  have hclosing (ls : List Text) :
      usedIn false (("\x7d ".toList ++ a.name ++ [';']) :: [] :: ls) = usedIn false ls := rfl
  simp only [lines, List.append_assoc, List.cons_append, List.nil_append]
  rw [usedIn_commentLines (by decide), hopening, usedIn_slots _ h]
  exact congrArg _ (hclosing rest)

/-! ## Reading layouts -/

namespace Layout

variable {l : Layout}

theorem names_bitTypes (l : Layout) :
    l.bitTypes.map BitType.name = l.aggregate.slots.filterMap Slot.type? := by
  have hregister (r : Register) (length : Option Nat) :
      (r.bitType? l.name length).map BitType.name = (r.slot l.name length).type? := by
    unfold Register.bitType? Register.slot
    by_cases hsimple : r.isSimple
    · simp [hsimple, Slot.type?]
    · by_cases hinline : r.isInline length <;> simp [hsimple, hinline, Slot.type?]
  have hmember (m : Member) : (m.bitType? l.name).map BitType.name = (m.slot l.name).type? := by
    cases m with
    | padding => rfl
    | register r => exact hregister r none
    | array template length => exact hregister template (some length)
  simp only [bitTypes, aggregate, List.map_filterMap, List.filterMap_map]
  congr 1
  funext m
  exact hmember m

theorem definedNames_types (hcomments : OnOneLine (l.bitTypes.flatMap BitType.comments))
    (hnames : ∀ t ∈ l.bitTypes, t.WellNamed) : l.types.definedNames = l.bitTypes.map BitType.name := by
  have hlines : ∀ line ∈ l.bitTypes.flatMap BitType.lines, '\n' ∉ line :=
    lineFeed_not_mem_flatMap (fun _ => BitType.lineFeed_not_mem_lines) hcomments
      (List.forall_mem_flatMap.mpr fun t ht => (hnames t ht).lineFeed_not_mem)
  rw [Text.definedNames, types, Text.lines_unlines_of_not_mem hlines, definedIn_bitTypes _ hnames]
  exact List.append_nil _

theorem usedNames_body (hcomments : OnOneLine l.aggregate.comments) (hname : IsWord l.name)
    (hslots : ∀ s ∈ l.aggregate.slots, s.WellNamed) :
    l.body.usedNames = l.aggregate.slots.filterMap Slot.type? := by
  have hlines : ∀ line ∈ l.aggregate.lines, '\n' ∉ line :=
    Aggregate.lineFeed_not_mem_lines hcomments <| List.forall_mem_cons.mpr
      ⟨(hname.append (by decide)).lineFeed_not_mem,
        List.forall_mem_flatMap.mpr fun s hs => (hslots s hs).lineFeed_not_mem⟩
  rw [Text.usedNames, body, Text.lines_unlines_of_not_mem hlines, Aggregate.usedIn_lines hslots]
  exact List.append_nil _

end Layout

namespace Peripheral

/-- **Types are defined where they are used**, once for each member of the type and in the order
of the members. -/
theorem definedNames_eq_usedNames {p : Peripheral} {l : Layout} (hname : IsWord p.name)
    (hregisters : ∀ r ∈ p.registers, r.WellNamed) (hlines : OnOneLine p.descriptions)
    (hl : p.layout = .ok l) :
    l.types.definedNames = l.body.usedNames ∧
    l.types.definedNames = l.bitTypes.map BitType.name ∧
    l.body.usedNames = l.aggregate.slots.filterMap Slot.type? := by
  obtain ⟨hlayout, -, hplan⟩ := layout_eq_ok hl
  obtain ⟨htypes, hbody⟩ := onOneLine_of_layout hlines hl
  have hmembers : ∀ m ∈ l.members, ∀ r ∈ m.register?, r.WellNamed :=
    forall_register?_of_plan (P := Register.WellNamed) (fun _ h => h.template) hregisters hplan
  have hown : IsWord l.name := hlayout ▸ hname
  have hdefined := Layout.definedNames_types htypes (Layout.wellNamed_bitTypes hown hmembers)
  have hused := Layout.usedNames_body hbody hown (Layout.wellNamed_slots hown hmembers)
  exact ⟨by rw [hdefined, hused, l.names_bitTypes], hdefined, hused⟩

theorem definedNames_eq_usedNames_sample :
    IsWord describedSample.name ∧ (∀ r ∈ describedSample.registers, r.WellNamed) ∧
    OnOneLine describedSample.descriptions ∧
    ∃ l, describedSample.layout = .ok l ∧ l.types.definedNames = l.body.usedNames ∧
      l.bitTypes.map BitType.name = ["dev_ch_ctrl_t".toList, "dev_mode_t".toList] := by
  have hname : IsWord describedSample.name := by decide +kernel
  have hregisters : ∀ r ∈ describedSample.registers, r.WellNamed := by decide +kernel
  have hlines : OnOneLine describedSample.descriptions := by
    unfold OnOneLine
    decide +kernel
  have hnames : describedSample.layout.toOption.map (fun l => l.bitTypes.map BitType.name) =
      some ["dev_ch_ctrl_t".toList, "dev_mode_t".toList] := by
    decide +kernel
  cases hl : describedSample.layout with
  | error e =>
    rw [hl] at hnames
    cases hnames
  | ok l =>
    rw [hl] at hnames
    have hread := definedNames_eq_usedNames hname hregisters hlines hl
    exact ⟨hname, hregisters, hlines, l, rfl, hread.1, Option.some_inj.mp hnames⟩

end Peripheral

end RegisterMap
