import Mathlib
import RegisterMap.Finding
import RegisterMap.Proofs.Layout.TypeNames

/-!
# Names of members

An array is declared under the name of its family, which another array or a
register may have as well, be it that no two registers share a name. There is no
other clash: registers keep their names, and types are named after members.
-/

namespace RegisterMap

namespace Slot

/-- The name that a register or an array is declared with. An inline struct has none. -/
def declaredName? : Slot → Option Text
  | .word _ name _ => some name
  | .typed _ _ name _ => some name
  | _ => none

def isArray : Slot → Bool
  | .word _ _ length => length.isSome
  | .typed _ _ _ length => length.isSome
  | _ => false

end Slot

namespace Register

variable (r : Register) (peripheral : Text) (length : Option Nat)

theorem isArray_slot : (r.slot peripheral length).isArray = length.isSome := by
  unfold slot
  by_cases hsimple : r.isSimple
  · rw [if_pos hsimple]
    rfl
  · rw [if_neg hsimple]
    by_cases hinline : r.isInline length
    · rw [if_pos hinline]
      simp only [isInline, Bool.and_eq_true, Option.isNone_iff_eq_none] at hinline
      rw [hinline.2]
      rfl
    · rw [if_neg hinline]
      rfl

theorem declaredName?_slot : ∀ name ∈ (r.slot peripheral length).declaredName?, name = r.name := by
  intro name hname
  unfold slot at hname
  by_cases hsimple : r.isSimple
  · rw [if_pos hsimple] at hname
    exact (Option.some_inj.mp hname).symm
  · rw [if_neg hsimple] at hname
    by_cases hinline : r.isInline length
    · rw [if_pos hinline] at hname
      cases hname
    · rw [if_neg hinline] at hname
      exact (Option.some_inj.mp hname).symm

theorem declaredName?_slot_array (n : Nat) : (r.slot peripheral (some n)).declaredName? = some r.name := by
  unfold slot
  by_cases hsimple : r.isSimple
  · rw [if_pos hsimple]
    rfl
  · have hinline : ¬ r.isInline (some n) := by simp [isInline]
    rw [if_neg hsimple, if_neg hinline]
    rfl

theorem type?_slot : ∀ type ∈ (r.slot peripheral length).type?,
    (r.slot peripheral length).declaredName? = some r.name ∧ type = r.typeName peripheral := by
  intro type htype
  unfold slot at htype ⊢
  by_cases hsimple : r.isSimple
  · rw [if_pos hsimple] at htype
    cases htype
  · rw [if_neg hsimple] at htype ⊢
    by_cases hinline : r.isInline length
    · rw [if_pos hinline] at htype
      cases htype
    · rw [if_neg hinline] at htype ⊢
      exact ⟨rfl, (Option.some_inj.mp htype).symm⟩

end Register

def scalarNames (slots : List Slot) : List Text := (slots.filter (!·.isArray)).filterMap Slot.declaredName?

theorem scalarNames_member (run : Run) (peripheral : Text) :
    List.Sublist (scalarNames [run.member.slot peripheral]) (run.registers.map Register.name) := by
  unfold scalarNames Run.member
  by_cases hothers : run.others = []
  · rw [if_pos hothers]
    have harray : (Member.slot (.register run.first) peripheral).isArray = false :=
      run.first.isArray_slot peripheral none
    have hname := run.first.declaredName?_slot peripheral none
    rw [List.filter_cons_of_pos (by simp [harray]), List.filter_nil, List.filterMap_cons]
    cases hslot : (Member.slot (.register run.first) peripheral).declaredName? with
    | none => exact List.nil_sublist _
    | some name =>
      rw [hname name hslot]
      exact (List.nil_sublist _).cons_cons run.first.name
  · rw [if_neg hothers]
    have harray : (Member.slot (.array run.first.template run.length) peripheral).isArray = true :=
      run.first.template.isArray_slot peripheral (some run.length)
    rw [List.filter_cons_of_neg (by simp [harray])]
    exact List.nil_sublist _

theorem Placed.scalarNames_sublist {reached paddings : Nat} {runs : List Run} {members : List Member}
    (h : Placed reached paddings runs members) (peripheral : Text) :
    List.Sublist (scalarNames (members.map (·.slot peripheral)))
      ((runs.flatMap Run.registers).map Register.name) := by
  have hstep (run : Run) {slots : List Slot} {names : List Text} (ih : List.Sublist (scalarNames slots) names) :
      List.Sublist (scalarNames (run.member.slot peripheral :: slots))
        (run.registers.map Register.name ++ names) := by
    rw [scalarNames, ← List.singleton_append, List.filter_append, List.filterMap_append]
    exact (scalarNames_member run peripheral).append ih
  induction h with
  | done => exact List.nil_sublist _
  | adjoin _ _ ih =>
    rw [List.map_cons, List.flatMap_cons, List.map_append]
    exact hstep _ ih
  | skip _ _ _ ih =>
    -- the padding in front has no name
    rw [List.map_cons, List.map_cons, List.flatMap_cons, List.map_append]
    exact hstep _ ih

/-! ## Names of families -/

theorem Run.precedes_second {registers : List Register} {run : Run} (hrun : run ∈ runs registers)
    (hothers : run.others ≠ []) :
    ∃ second ∈ registers, [run.first, second] <+: run.registers ∧ run.first.precedes second := by
  obtain ⟨second, rest, heq⟩ := List.exists_cons_of_ne_nil hothers
  refine ⟨second, ?_, ⟨rest, by simp [Run.registers, heq]⟩, ?_⟩
  · rw [← flatMap_registers_runs registers]
    exact List.mem_flatMap.mpr ⟨run, hrun, by simp [Run.registers, heq]⟩
  · have hchain := isChain_registers_of_mem_runs hrun
    rw [Run.registers, heq] at hchain
    exact (List.isChain_cons_cons.mp hchain).1

/-- An array is one of the runs, and has the name of the family that all registers of it are of.
The first two of them are why it is an array. -/
def Slot.IsFamily (s : Slot) (peripheral : Text) (registers : List Register) : Prop :=
  ∃ run ∈ runs registers, s = run.member.slot peripheral ∧
    (∀ r ∈ run.registers, s.declaredName? = r.family?) ∧
    ∃ a ∈ registers, ∃ b ∈ registers, [a, b] <+: run.registers ∧ a.precedes b

theorem isFamily_of_array {registers : List Register} {members : List Member}
    (h : (plan registers).members = .ok members) (peripheral : Text) :
    ∀ m ∈ members, (m.slot peripheral).isArray → (m.slot peripheral).IsFamily peripheral registers := by
  apply (Placed.of_plan h).forall_mem
    (P := fun m => (m.slot peripheral).isArray → (m.slot peripheral).IsFamily peripheral registers)
  · intro index words harray
    cases harray
  · intro run hrun harray
    by_cases hothers : run.others = []
    · unfold Run.member at harray
      rw [if_pos hothers] at harray
      have hslot := run.first.isArray_slot peripheral none
      exact absurd (hslot.symm.trans harray) (by simp)
    · obtain ⟨second, hsecond, hfront, hprecedes⟩ := Run.precedes_second hrun hothers
      have hfirst := first_mem_of_mem_runs hrun
      refine ⟨run, hrun, rfl, fun r hr => ?_, run.first, hfirst, second, hsecond, hfront, hprecedes⟩
      have helement := run.element_of_mem (isChain_registers_of_mem_runs hrun) hothers r hr
      unfold Run.member
      rw [if_neg hothers, helement.family?_eq]
      exact run.first.template.declaredName?_slot_array peripheral run.length

/-! ## Clashes -/

theorem nodup_filterMap_iff {α β : Type} (f : α → Option β) (p : α → Bool) (l : List α) :
    (l.filterMap f).Nodup ↔
      ((l.filter p).filterMap f).Nodup ∧ ((l.filter (!p ·)).filterMap f).Nodup ∧
        List.Disjoint ((l.filter p).filterMap f) ((l.filter (!p ·)).filterMap f) := by
  have hperm := (List.filter_append_perm p l).filterMap f
  rw [← hperm.nodup_iff, List.filterMap_append, List.nodup_append']

namespace Layout

def declaredNames (l : Layout) : List Text := l.aggregate.slots.filterMap Slot.declaredName?

def typeNames (l : Layout) : List Text := l.bitTypes.map BitType.name

def arrays (l : Layout) : List Slot := l.aggregate.slots.filter Slot.isArray

def scalars (l : Layout) : List Slot := l.aggregate.slots.filter (!·.isArray)

/-- Of the names that slots have, those of arrays alone can clash. -/
structure ClashesByArrays (l : Layout) (names : List Text) (name? : Slot → Option Text) : Prop where
  scalars : (l.scalars.filterMap name?).Nodup
  nodup_iff : names.Nodup ↔ (l.arrays.filterMap name?).Nodup ∧
    List.Disjoint (l.arrays.filterMap name?) (l.scalars.filterMap name?)

theorem ClashesByArrays.of_scalars {l : Layout} {name? : Slot → Option Text}
    (h : (l.scalars.filterMap name?).Nodup) : l.ClashesByArrays (l.aggregate.slots.filterMap name?) name? := by
  refine ⟨h, ?_⟩
  rw [nodup_filterMap_iff name? Slot.isArray]
  exact and_congr_right fun _ => and_iff_right h

theorem nodup_types {l : Layout} {slots : List Slot} (hslots : slots ⊆ l.aggregate.slots)
    (h : (slots.filterMap Slot.declaredName?).Nodup) : (slots.filterMap Slot.type?).Nodup := by
  have htype : ∀ s ∈ l.aggregate.slots, ∀ type ∈ s.type?, ∃ r : Register,
      s.declaredName? = some r.name ∧ type = r.typeName l.name := by
    have hall : ∀ m ∈ l.members, ∀ r ∈ m.register?, True := fun _ _ _ _ => trivial
    refine forall_slots (Q := fun s => ∀ type ∈ s.type?, ∃ r : Register,
      s.declaredName? = some r.name ∧ type = r.typeName l.name) hall ?_ ?_
    · intro index words type htype
      cases htype
    · intro r _ length type htype
      exact ⟨r, r.type?_slot l.name length type htype⟩
  unfold List.Nodup at h ⊢
  rw [List.pairwise_filterMap] at h ⊢
  refine h.imp_of_mem ?_
  intro s s' hs hs' hne type hmem type' hmem' heq
  obtain ⟨r, hname, rfl⟩ := htype s (hslots hs) type hmem
  obtain ⟨r', hname', rfl⟩ := htype s' (hslots hs') type' hmem'
  apply hne _ hname _ hname'
  unfold Register.typeName at heq
  exact (List.cons.inj (List.append_cancel_left (List.append_cancel_right heq))).2

end Layout

/-- **Names clash by arrays only.** -/
theorem Peripheral.clashesByArrays {p : Peripheral} {l : Layout}
    (hnames : (p.registers.map Register.name).Nodup) (hl : p.layout = .ok l) :
    l.ClashesByArrays l.declaredNames Slot.declaredName? ∧
    l.ClashesByArrays l.typeNames Slot.type? ∧
    (l.declaredNames.Nodup → l.typeNames.Nodup) ∧
    ∀ s ∈ l.arrays, s.IsFamily l.name p.registers := by
  obtain ⟨-, -, hplan⟩ := layout_eq_ok hl
  have hscalars : (l.scalars.filterMap Slot.declaredName?).Nodup := by
    have hsublist := (Placed.of_plan hplan).scalarNames_sublist l.name
    rw [flatMap_registers_runs] at hsublist
    exact hnames.sublist hsublist
  have htypes : l.typeNames = l.aggregate.slots.filterMap Slot.type? := l.names_bitTypes
  refine ⟨.of_scalars hscalars, ?_, ?_, ?_⟩
  · rw [htypes]
    exact .of_scalars (Layout.nodup_types (List.filter_subset_self _) hscalars)
  · intro h
    rw [htypes]
    exact Layout.nodup_types (List.Subset.refl _) h
  · intro s hs
    obtain ⟨hslot, harray⟩ := List.mem_filter.mp hs
    obtain ⟨m, hm, rfl⟩ := List.mem_map.mp hslot
    exact isFamily_of_array hplan l.name m hm harray

namespace Peripheral

theorem clashesByArrays_sample :
    (describedSample.registers.map Register.name).Nodup ∧
    ∃ l, describedSample.layout = .ok l ∧
      l.declaredNames = ["count".toList, "ch_ctrl".toList, "mode".toList] ∧
      l.arrays.filterMap Slot.declaredName? = ["ch_ctrl".toList] ∧
      l.ClashesByArrays l.declaredNames Slot.declaredName? ∧ l.typeNames.Nodup := by
  have hnames : (describedSample.registers.map Register.name).Nodup := by decide +kernel
  have hdeclared : describedSample.layout.toOption.map
      (fun l => (l.declaredNames, l.arrays.filterMap Slot.declaredName?)) =
        some (["count".toList, "ch_ctrl".toList, "mode".toList], ["ch_ctrl".toList]) := by
    decide +kernel
  cases hl : describedSample.layout with
  | error e =>
    rw [hl] at hdeclared
    cases hdeclared
  | ok l =>
    rw [hl] at hdeclared
    obtain ⟨hall, harrays⟩ := Prod.mk.inj (Option.some_inj.mp hdeclared)
    obtain ⟨hclashes, -, htypes, -⟩ := clashesByArrays hnames hl
    have hdistinct : l.declaredNames.Nodup := by
      rw [hall]
      decide
    exact ⟨hnames, l, rfl, hall, harrays, hclashes, htypes hdistinct⟩

def clashingSample : Peripheral :=
  let channel (name : Text) (offset : Word) : RegisterSpec :=
    ⟨name, offset, none, [⟨"en".toList, 0, 1, none⟩, ⟨"mode".toList, 4, 2, none⟩]⟩
  addAll (.empty "dev".toList none) (List.filterMap (fun s : RegisterSpec => s.register.toOption)
    [channel "ch0_ctrl".toList 0, channel "ch1_ctrl".toList 4, ⟨"status".toList, 8, none, []⟩,
      channel "ch2_ctrl".toList 12, channel "ch3_ctrl".toList 16])

/-- Two arrays of one family have one name, and so have their types. -/
theorem names_clash_of_parted_family :
    clashingSample.findings = [] ∧ (clashingSample.registers.map Register.name).Nodup ∧
    (∀ r ∈ clashingSample.registers,
      IsWord r.name ∧ r.name.head?.all (!·.isDigit) ∧ ¬ "_padding".toList <+: r.name) ∧
    ∃ l, clashingSample.layout = .ok l ∧
      l.declaredNames = ["ch_ctrl".toList, "status".toList, "ch_ctrl".toList] ∧ ¬ l.declaredNames.Nodup ∧
      l.typeNames = ["dev_ch_ctrl_t".toList, "dev_ch_ctrl_t".toList] ∧ ¬ l.typeNames.Nodup := by
  have hnames : clashingSample.layout.toOption.map (fun l => (l.declaredNames, l.typeNames)) =
      some (["ch_ctrl".toList, "status".toList, "ch_ctrl".toList],
        ["dev_ch_ctrl_t".toList, "dev_ch_ctrl_t".toList]) := by
    decide +kernel
  refine ⟨by decide +kernel, by decide +kernel, by decide +kernel, ?_⟩
  cases hl : clashingSample.layout with
  | error e =>
    rw [hl] at hnames
    cases hnames
  | ok l =>
    rw [hl] at hnames
    obtain ⟨hdeclared, htypes⟩ := Prod.mk.inj (Option.some_inj.mp hnames)
    refine ⟨l, rfl, hdeclared, ?_, htypes, ?_⟩
    · rw [hdeclared]
      decide
    · rw [htypes]
      decide

end Peripheral

end RegisterMap
