import Mathlib
import RegisterMap.Proofs.Header.Places
import RegisterMap.Proofs.Layout.Comments
import RegisterMap.Proofs.Model.IndexedName

/-!
# Names in declarations

When peripherals, registers and fields are named by words, so are templates,
declarations and their types. With descriptions of one line each, every printed
line is then one line of the text.
-/

namespace RegisterMap

open Header (isWordChar lineFeed_not_mem_word)

structure IsWord (s : Text) : Prop where
  nonempty : s ≠ []
  all_isWordChar : s.all isWordChar

namespace IsWord

instance (s : Text) : Decidable (IsWord s) :=
  decidable_of_iff (s ≠ [] ∧ s.all isWordChar) ⟨fun h => ⟨h.1, h.2⟩, fun h => ⟨h.1, h.2⟩⟩

theorem lineFeed_not_mem {s : Text} (h : IsWord s) : '\n' ∉ s := lineFeed_not_mem_word h.all_isWordChar

theorem append {s t : Text} (hs : IsWord s) (ht : t.all isWordChar) : IsWord (s ++ t) := by
  refine ⟨List.append_ne_nil_of_left_ne_nil hs.nonempty t, ?_⟩
  rw [List.all_append, hs.all_isWordChar, ht]
  rfl

theorem of_subset {s t : Text} (ht : IsWord t) (hs : s ≠ []) (h : s ⊆ t) : IsWord s := by
  refine ⟨hs, ?_⟩
  apply List.all_eq_true.mpr
  intro c hc
  exact List.all_eq_true.mp ht.all_isWordChar c (h hc)

end IsWord

namespace IndexedName

variable {name : Text} {n : IndexedName}

theorem parts_of_ofText? (h : ofText? name = some n) : n.stem ≠ [] ∧ n.stem ⊆ name ∧ n.tail ⊆ name := by
  obtain ⟨cut, -, rfl⟩ := ofText?_eq_some_iff.mp h
  exact ⟨cut.stem_nonempty, cut.stem_subset, cut.tail_subset⟩

theorem isWord_stripped (h : ofText? name = some n) (hname : IsWord name) : IsWord n.stripped := by
  obtain ⟨hne, hstem, htail⟩ := parts_of_ofText? h
  exact hname.of_subset (List.append_ne_nil_of_left_ne_nil hne _) (List.append_subset.mpr ⟨hstem, htail⟩)

theorem isWord_memberName (register : IndexedName) (hname : IsWord name) :
    IsWord (register.memberName name) := by
  unfold memberName
  split
  · exact hname
  · rename_i n hn
    obtain ⟨-, -, htail⟩ := parts_of_ofText? hn
    dsimp only
    split
    · rename_i hown
      exact hname.of_subset hown.2.2 (List.Subset.trans (List.dropWhile_subset _) htail)
    · exact isWord_stripped hn hname

end IndexedName

namespace Register

structure WellNamed (r : Register) : Prop where
  name : IsWord r.name
  fields : ∀ f ∈ r.fields, IsWord f.name

instance (r : Register) : Decidable r.WellNamed :=
  decidable_of_iff (IsWord r.name ∧ ∀ f ∈ r.fields, IsWord f.name)
    ⟨fun h => ⟨h.1, h.2⟩, fun h => ⟨h.1, h.2⟩⟩

theorem WellNamed.template {r : Register} (h : r.WellNamed) : r.template.WellNamed := by
  cases hn : IndexedName.ofText? r.name with
  | none =>
    have htemplate : r.template = r := by simp only [Register.template, hn]
    rwa [htemplate]
  | some n =>
    constructor
    · rw [name_template hn]
      exact IndexedName.isWord_stripped hn h.name
    · rw [fields_template hn]
      intro f hf
      obtain ⟨g, hg, rfl⟩ := List.mem_map.mp hf
      exact n.isWord_memberName (h.fields g hg)

end Register

/-! ## Names in declarations -/

def BitMember.WellNamed : BitMember → Prop
  | .filler _ => True
  | .bits _ name _ => IsWord name

structure BitType.WellNamed (t : BitType) : Prop where
  members : ∀ m ∈ t.members, m.WellNamed
  name : IsWord t.name

/-- The keyword of the other members does not name a type. -/
def Slot.WellNamed : Slot → Prop
  | .padding .. => True
  | .word _ name _ => IsWord name
  | .inline _ members => ∀ m ∈ members, m.WellNamed
  | .typed _ type name _ => (IsWord type ∧ type ≠ "volatile".toList) ∧ IsWord name

namespace Register

variable {r : Register} (h : r.WellNamed)
include h

theorem WellNamed.bitMembers {owner : Text} (howner : owner = [] ∨ IsWord owner) :
    ∀ m ∈ r.bitMembers owner, m.WellNamed := by
  intro m hm
  obtain ⟨s, hs, rfl⟩ := List.mem_map.mp hm
  cases s with
  | reserved width => trivial
  | field f =>
    have hf : f ∈ (bitSpansFrom 0 r.fields).filterMap BitSpan.field? :=
      List.mem_filterMap.mpr ⟨_, hs, rfl⟩
    rw [filterMap_field?_bitSpansFrom] at hf
    have hname := h.fields f hf
    rcases howner with rfl | howner
    · exact hname
    · exact howner.append hname.all_isWordChar

theorem WellNamed.typeName {peripheral : Text} (hperipheral : IsWord peripheral) :
    IsWord (r.typeName peripheral) ∧ r.typeName peripheral ≠ "volatile".toList := by
  constructor
  · apply IsWord.append _ (by decide)
    apply hperipheral.append
    rw [List.all_cons, h.name.all_isWordChar]
    rfl
  · intro heq
    have hunderscore : '_' ∈ r.typeName peripheral := by simp [Register.typeName]
    rw [heq] at hunderscore
    exact absurd hunderscore (by decide)

theorem WellNamed.bitType? {peripheral : Text} (hperipheral : IsWord peripheral) (length : Option Nat) :
    ∀ t ∈ r.bitType? peripheral length, t.WellNamed := by
  intro t ht
  unfold Register.bitType? at ht
  split at ht
  · cases ht
  · cases ht
    exact ⟨h.bitMembers (.inl rfl), (h.typeName hperipheral).1⟩

theorem WellNamed.slot {peripheral : Text} (hperipheral : IsWord peripheral) (length : Option Nat) :
    (r.slot peripheral length).WellNamed := by
  unfold Register.slot
  split
  · exact h.name
  split
  · exact h.bitMembers (.inr (h.name.append (by decide)))
  · exact ⟨h.typeName hperipheral, h.name⟩

end Register

namespace Layout

variable {l : Layout} (hname : IsWord l.name) (h : ∀ m ∈ l.members, ∀ r ∈ m.register?, r.WellNamed)
include hname h

theorem wellNamed_bitTypes : ∀ t ∈ l.bitTypes, t.WellNamed :=
  forall_bitTypes h fun _ hr length => hr.bitType? hname length

theorem wellNamed_slots : ∀ s ∈ l.aggregate.slots, s.WellNamed :=
  forall_slots h (fun _ _ => trivial) fun _ hr length => hr.slot hname length

end Layout

/-! ## Lines of declarations -/

def BitMember.names : BitMember → List Text
  | .filler _ => []
  | .bits _ name _ => [name]

def BitType.names (t : BitType) : List Text := t.name :: t.members.flatMap BitMember.names

def Slot.names : Slot → List Text
  | .padding .. => []
  | .word _ name _ => [name]
  | .inline _ members => members.flatMap BitMember.names
  | .typed _ type name _ => [type, name]

def Aggregate.names (a : Aggregate) : List Text := a.name :: a.slots.flatMap Slot.names

theorem BitMember.WellNamed.lineFeed_not_mem {m : BitMember} (h : m.WellNamed) : ∀ n ∈ m.names, '\n' ∉ n := by
  cases m with
  | filler width => simp [names]
  | bits comment name width => exact List.forall_mem_singleton.mpr (IsWord.lineFeed_not_mem h)

theorem BitMember.lineFeed_not_mem_names {members : List BitMember} (h : ∀ m ∈ members, m.WellNamed) :
    ∀ n ∈ members.flatMap BitMember.names, '\n' ∉ n :=
  List.forall_mem_flatMap.mpr fun m hm => (h m hm).lineFeed_not_mem

theorem BitType.WellNamed.lineFeed_not_mem {t : BitType} (h : t.WellNamed) : ∀ n ∈ t.names, '\n' ∉ n :=
  List.forall_mem_cons.mpr ⟨h.name.lineFeed_not_mem, BitMember.lineFeed_not_mem_names h.members⟩

theorem Slot.WellNamed.lineFeed_not_mem {s : Slot} (h : s.WellNamed) : ∀ n ∈ s.names, '\n' ∉ n := by
  cases s with
  | padding => simp [names]
  | word comment name length => exact List.forall_mem_singleton.mpr (IsWord.lineFeed_not_mem h)
  | inline comment members => exact BitMember.lineFeed_not_mem_names h
  | typed comment type name length =>
    exact List.forall_mem_cons.mpr ⟨h.1.1.lineFeed_not_mem, List.forall_mem_singleton.mpr h.2.lineFeed_not_mem⟩

namespace Register

variable {r : Register} (h : r.WellNamed) {peripheral : Text} (hperipheral : '\n' ∉ peripheral)
include h hperipheral

theorem WellNamed.lineFeed_not_mem_typeName : '\n' ∉ r.typeName peripheral := by
  simp [Register.typeName, hperipheral, h.name.lineFeed_not_mem]

theorem WellNamed.lineFeed_not_mem_bitType? (length : Option Nat) :
    ∀ t ∈ r.bitType? peripheral length, ∀ n ∈ t.names, '\n' ∉ n := by
  intro t ht
  unfold Register.bitType? at ht
  split at ht
  · cases ht
  · cases ht
    have hmembers := BitMember.lineFeed_not_mem_names (h.bitMembers (.inl rfl))
    exact List.forall_mem_cons.mpr ⟨h.lineFeed_not_mem_typeName hperipheral, hmembers⟩

theorem WellNamed.lineFeed_not_mem_slot (length : Option Nat) :
    ∀ n ∈ (r.slot peripheral length).names, '\n' ∉ n := by
  have hname := h.name.lineFeed_not_mem
  unfold Register.slot
  split
  · exact List.forall_mem_singleton.mpr hname
  split
  · exact BitMember.lineFeed_not_mem_names (h.bitMembers (.inr (h.name.append (by decide))))
  · exact List.forall_mem_cons.mpr
      ⟨h.lineFeed_not_mem_typeName hperipheral, List.forall_mem_singleton.mpr hname⟩

end Register

@[simp] theorem lineFeed_not_mem_decimal (n : Nat) : '\n' ∉ Text.decimal n := by
  intro h
  have hdigit := Nat.isDigit_of_mem_toDigits (by decide) (by decide) h
  exact absurd hdigit (by decide)

@[simp] theorem lineFeed_not_mem_dimension (length : Option Nat) : '\n' ∉ dimension length := by
  cases length with
  | none => simp [dimension]
  | some n => simp [dimension]

theorem lineFeed_not_mem_commentLines (level : Nat) {comment : Option Description}
    (h : OnOneLine comment.toList) : ∀ line ∈ commentLines level comment, '\n' ∉ line := by
  cases comment with
  | none => simp [commentLines]
  | some d =>
    have htext : '\n' ∉ d.text := h d (by simp)
    simp [commentLines, htext]

theorem lineFeed_not_mem_flatMap {α : Type} {lines : α → List Text} {comments : α → List Description}
    {names : α → List Text}
    (hpart : ∀ a, OnOneLine (comments a) → (∀ n ∈ names a, '\n' ∉ n) → ∀ line ∈ lines a, '\n' ∉ line)
    {parts : List α} (hcomments : OnOneLine (parts.flatMap comments))
    (hnames : ∀ n ∈ parts.flatMap names, '\n' ∉ n) : ∀ line ∈ parts.flatMap lines, '\n' ∉ line := by
  intro line hline
  obtain ⟨a, ha, hline⟩ := List.mem_flatMap.mp hline
  exact hpart a (hcomments.of_flatMap ha) (fun n hn => hnames n (List.mem_flatMap.mpr ⟨a, ha, hn⟩)) line hline

theorem BitMember.lineFeed_not_mem_lines (level : Nat) {m : BitMember} (hcomments : OnOneLine m.comments)
    (hnames : ∀ n ∈ m.names, '\n' ∉ n) : ∀ line ∈ m.lines level, '\n' ∉ line := by
  cases m with
  | filler width => simp [lines]
  | bits comment name width =>
    have hname : '\n' ∉ name := hnames name (List.mem_singleton_self name)
    simp only [lines, List.forall_mem_append]
    refine ⟨lineFeed_not_mem_commentLines level hcomments, ?_⟩
    simp [hname]

theorem BitType.lineFeed_not_mem_lines {t : BitType} (hcomments : OnOneLine t.comments)
    (hnames : ∀ n ∈ t.names, '\n' ∉ n) : ∀ line ∈ t.lines, '\n' ∉ line := by
  obtain ⟨hown, hmembers⟩ := onOneLine_append.mp hcomments
  obtain ⟨hname, hmemberNames⟩ := List.forall_mem_cons.mp hnames
  simp only [lines, List.forall_mem_append, List.forall_mem_cons]
  refine ⟨⟨lineFeed_not_mem_commentLines 0 hown, by decide, ?_⟩, ?_⟩
  · exact lineFeed_not_mem_flatMap (fun _ => BitMember.lineFeed_not_mem_lines 1) hmembers hmemberNames
  · simp [hname]

theorem Slot.lineFeed_not_mem_lines {s : Slot} (hcomments : OnOneLine s.comments)
    (hnames : ∀ n ∈ s.names, '\n' ∉ n) : ∀ line ∈ s.lines, '\n' ∉ line := by
  cases s with
  | padding index words =>
    simp [lines]
  | word comment name length =>
    have hname : '\n' ∉ name := hnames name (List.mem_singleton_self name)
    simp only [lines, List.forall_mem_append]
    refine ⟨lineFeed_not_mem_commentLines 1 hcomments, ?_⟩
    simp [hname]
  | inline comment members =>
    obtain ⟨hown, hmembers⟩ := onOneLine_append.mp hcomments
    simp only [lines, List.forall_mem_append, List.forall_mem_cons]
    refine ⟨⟨lineFeed_not_mem_commentLines 1 hown, by decide, ?_⟩, by decide, by simp⟩
    exact lineFeed_not_mem_flatMap (fun _ => BitMember.lineFeed_not_mem_lines 2) hmembers hnames
  | typed comment type name length =>
    have htype : '\n' ∉ type := hnames type (List.mem_cons_self ..)
    have hname : '\n' ∉ name := hnames name (List.mem_cons_of_mem type (List.mem_singleton_self name))
    simp only [lines, List.forall_mem_append]
    refine ⟨lineFeed_not_mem_commentLines 1 hcomments, ?_⟩
    simp [htype, hname]

theorem Aggregate.lineFeed_not_mem_lines {a : Aggregate} (hcomments : OnOneLine a.comments)
    (hnames : ∀ n ∈ a.names, '\n' ∉ n) : ∀ line ∈ a.lines, '\n' ∉ line := by
  obtain ⟨hown, hparts⟩ := onOneLine_append.mp hcomments
  obtain ⟨hname, hslotNames⟩ := List.forall_mem_cons.mp hnames
  simp only [lines, List.forall_mem_append, List.forall_mem_cons]
  refine ⟨⟨lineFeed_not_mem_commentLines 0 hown, by decide, ?_⟩, ?_⟩
  · exact lineFeed_not_mem_flatMap (fun _ => Slot.lineFeed_not_mem_lines) hparts hslotNames
  · simp [hname]

namespace Layout

variable {l : Layout} (hname : '\n' ∉ l.name) (h : ∀ m ∈ l.members, ∀ r ∈ m.register?, r.WellNamed)
include hname h

/-- Only the name of the peripheral needs to be no word. -/
theorem lineFeed_not_mem_types (hcomments : OnOneLine (l.bitTypes.flatMap BitType.comments)) :
    ∀ line ∈ l.bitTypes.flatMap BitType.lines, '\n' ∉ line := by
  have hnames : ∀ t ∈ l.bitTypes, ∀ n ∈ t.names, '\n' ∉ n :=
    forall_bitTypes h fun _ hr length => hr.lineFeed_not_mem_bitType? hname length
  exact lineFeed_not_mem_flatMap (fun _ => BitType.lineFeed_not_mem_lines) hcomments
    (List.forall_mem_flatMap.mpr hnames)

theorem lineFeed_not_mem_body (hcomments : OnOneLine l.aggregate.comments) :
    ∀ line ∈ l.aggregate.lines, '\n' ∉ line := by
  have hslots : ∀ s ∈ l.aggregate.slots, ∀ n ∈ s.names, '\n' ∉ n :=
    forall_slots h (by simp [Slot.names]) fun _ hr length => hr.lineFeed_not_mem_slot hname length
  have hown : '\n' ∉ l.aggregate.name := by simp [aggregate, hname]
  exact Aggregate.lineFeed_not_mem_lines hcomments
    (List.forall_mem_cons.mpr ⟨hown, List.forall_mem_flatMap.mpr hslots⟩)

end Layout

end RegisterMap
