import Mathlib
import RegisterMap.Layout.Declaration
import RegisterMap.Proofs.Layout.Elements

/-!
# Layouts without descriptions

Leaving out all descriptions commutes with every step of a layout: runs,
templates, placement, and the declarations, which only lose their comments.
-/

namespace RegisterMap

def Field.undescribed (f : Field) : Field := { f with description := none }

namespace Register

def undescribed (r : Register) : Register where
  name := r.name
  byteOffset := r.byteOffset
  description := none
  fields := r.fields.map Field.undescribed
  sorted := List.pairwise_map.mpr r.sorted

end Register

def Peripheral.undescribed (p : Peripheral) : Peripheral where
  name := p.name
  description := none
  registers := p.registers.map Register.undescribed
  sorted := List.pairwise_map.mpr p.sorted

def Run.undescribed (run : Run) : Run := ⟨run.first.undescribed, run.others.map Register.undescribed⟩

def Member.undescribed : Member → Member
  | .padding index words => .padding index words
  | .register r => .register r.undescribed
  | .array template length => .array template.undescribed length

def Layout.undescribed (l : Layout) : Layout := ⟨l.name, none, l.members.map Member.undescribed⟩

namespace Register

@[simp] theorem precedes_undescribed (a b : Register) :
    a.undescribed.precedes b.undescribed = a.precedes b := by
  have halike : ∀ p : Field × Field, p.1.undescribed.alike p.2.undescribed = p.1.alike p.2 := fun _ => rfl
  have hstep : a.undescribed.indexedStep b.undescribed = a.indexedStep b := rfl
  simp only [precedes, hstep]
  simp only [undescribed, List.length_map, List.zip_map, List.all_map]
  rfl

theorem template_undescribed (r : Register) : r.undescribed.template = r.template.undescribed := by
  cases hn : IndexedName.ofText? r.name with
  | none =>
    have hn' : IndexedName.ofText? r.undescribed.name = none := hn
    simp only [template, hn, hn']
  | some n =>
    have hn' : IndexedName.ofText? r.undescribed.name = some n := hn
    apply eq_of_parts
    · rw [name_template hn']
      exact (name_template hn).symm
    · simp only [template, hn, undescribed, byteOffset_addAll]
      rfl
    · simp only [template, hn, undescribed, description_addAll]
      rfl
    · rw [fields_template hn']
      simp only [undescribed, fields_template hn, List.map_map]
      rfl

end Register

theorem runLength_undescribed : ∀ registers : List Register,
    runLength (registers.map Register.undescribed) = runLength registers
  | [] => rfl
  | [_] => rfl
  | r :: s :: rest => by
    have ih := runLength_undescribed (s :: rest)
    rw [List.map_cons] at ih
    rw [List.map_cons, List.map_cons, runLength_cons_cons, runLength_cons_cons, ih,
      Register.precedes_undescribed]

theorem runs_undescribed (registers : List Register) :
    runs (registers.map Register.undescribed) = (runs registers).map Run.undescribed := by
  fun_induction runs registers with
  | case1 => rw [List.map_nil, runs_nil, List.map_nil]
  | case2 r rest length ih =>
    have hlength : runLength (r.undescribed :: rest.map Register.undescribed) = length :=
      runLength_undescribed (r :: rest)
    rw [List.map_cons, runs_cons, hlength, List.map_cons, ← ih, List.map_drop, ← List.map_take]
    rfl

/-! ## Plans -/

theorem Run.member_undescribed (run : Run) : run.undescribed.member = run.member.undescribed := by
  simp only [member, undescribed, List.map_eq_nil_iff]
  split
  · rfl
  · rw [Register.template_undescribed]
    simp [Member.undescribed, length]

theorem place_undescribed : ∀ (runs : List Run) (reached paddings : Nat),
    (place reached paddings (runs.map Run.undescribed)).members =
      (place reached paddings runs).members.map (List.map Member.undescribed)
  | [], _, _ => rfl
  | run :: rest, reached, paddings => by
    have hlength : run.undescribed.length = run.length := by simp [Run.undescribed, Run.length]
    have hname : run.undescribed.first.name = run.first.name := rfl
    have hoffset : run.undescribed.first.byteOffset = run.first.byteOffset := rfl
    simp only [List.map_cons, place, hlength, hname, hoffset, Run.member_undescribed, place_undescribed rest]
    split
    · rfl
    split
    · rfl
    generalize hgap : (if reached < run.first.byteOffset.val then _ else _ : List Member) = gap
    have hkept : gap.map Member.undescribed = gap := by
      subst hgap
      split <;> rfl
    cases (place (run.first.byteOffset.val + wordBytes * run.length) (paddings + gap.length) rest).members with
    | error e => rfl
    | ok members => simp [Except.map, hkept]

theorem Peripheral.layout_undescribed (p : Peripheral) :
    p.undescribed.layout = p.layout.map Layout.undescribed := by
  have hplan : p.undescribed.plan.members = p.plan.members.map (List.map Member.undescribed) := by
    simp only [plan, RegisterMap.plan, undescribed, runs_undescribed, place_undescribed]
  rw [layout, layout, hplan]
  cases p.plan.members <;> rfl

/-! ## Declarations -/

def BitMember.uncommented : BitMember → BitMember
  | .filler width => .filler width
  | .bits _ name width => .bits none name width

def BitType.uncommented (t : BitType) : BitType := ⟨none, t.members.map BitMember.uncommented, t.name⟩

def Slot.uncommented : Slot → Slot
  | .padding index words => .padding index words
  | .word _ name length => .word none name length
  | .inline _ members => .inline none (members.map BitMember.uncommented)
  | .typed _ type name length => .typed none type name length

def Aggregate.uncommented (a : Aggregate) : Aggregate := ⟨none, a.slots.map Slot.uncommented, a.name⟩

theorem map_member_undescribed (owner : Text) : ∀ (fields : List Field) (reached : Nat),
    (bitSpansFrom reached (fields.map Field.undescribed)).map (·.member owner) =
      ((bitSpansFrom reached fields).map (·.member owner)).map BitMember.uncommented
  | [], reached => by
    simp only [List.map_nil, bitSpansFrom]
    split <;> rfl
  | f :: fields, reached => by
    have hoffset : f.undescribed.bitOffset = f.bitOffset := rfl
    have hend : f.undescribed.bitEnd = f.bitEnd := rfl
    simp only [List.map_cons, bitSpansFrom, hoffset, hend, List.map_append,
      map_member_undescribed owner fields]
    split <;> rfl

namespace Register

theorem bitMembers_undescribed (r : Register) (owner : Text) :
    r.undescribed.bitMembers owner = (r.bitMembers owner).map BitMember.uncommented :=
  map_member_undescribed owner r.fields 0

theorem isSimple_undescribed (r : Register) : r.undescribed.isSimple = r.isSimple := by
  have hbits : r.undescribed.bits = r.bits := by
    rw [bits, undescribed, List.map_map]
    rfl
  rw [isSimple_eq, isSimple_eq, hbits]

theorem isInline_undescribed (r : Register) (length : Option Nat) :
    r.undescribed.isInline length = r.isInline length := by
  simp [isInline, isCollapsible, undescribed]

theorem bitType?_undescribed (r : Register) (peripheral : Text) (length : Option Nat) :
    r.undescribed.bitType? peripheral length =
      (r.bitType? peripheral length).map BitType.uncommented := by
  unfold bitType?
  rw [isSimple_undescribed, isInline_undescribed, bitMembers_undescribed]
  split <;> rfl

theorem slot_undescribed (r : Register) (peripheral : Text) (length : Option Nat) :
    r.undescribed.slot peripheral length = (r.slot peripheral length).uncommented := by
  have hfirst : r.undescribed.fields.head?.bind (·.description) = none := by
    cases h : r.fields <;> simp [undescribed, h, Field.undescribed]
  have hname : r.undescribed.name = r.name := rfl
  unfold slot
  rw [isSimple_undescribed, isInline_undescribed, bitMembers_undescribed, hfirst, hname]
  split
  · rfl
  split <;> rfl

end Register

namespace Layout

theorem bitTypes_undescribed (l : Layout) :
    l.undescribed.bitTypes = l.bitTypes.map BitType.uncommented := by
  have hmember (m : Member) :
      m.undescribed.bitType? l.name = (m.bitType? l.name).map BitType.uncommented := by
    cases m with
    | padding => rfl
    | register r => exact r.bitType?_undescribed l.name none
    | array template length => exact template.bitType?_undescribed l.name (some length)
  simp only [bitTypes, undescribed, List.filterMap_map, List.map_filterMap]
  congr 1
  funext m
  exact hmember m

theorem aggregate_undescribed (l : Layout) : l.undescribed.aggregate = l.aggregate.uncommented := by
  have hmember (m : Member) : m.undescribed.slot l.name = (m.slot l.name).uncommented := by
    cases m with
    | padding => rfl
    | register r => exact r.slot_undescribed l.name none
    | array template length => exact template.slot_undescribed l.name (some length)
  simp only [aggregate, Aggregate.uncommented, undescribed, List.map_map]
  congr 2
  funext m
  exact hmember m

end Layout

end RegisterMap
