import RegisterMap.Proofs.Layout.Coverage
import RegisterMap.Proofs.Layout.Placement
import RegisterMap.Proofs.Layout.Precedence
import RegisterMap.Proofs.Model.StableOrder

/-!
# Arrays describe their elements

Neighbours in a run have the same bits and names of one family, so all
registers of the run do. The template is made of the first one alone: its
fields are added again one by one under other names, which keeps their order.
Spans, and what a register is declared as, depend on the bits only.
-/

namespace RegisterMap

def Field.bits (f : Field) : Nat × Nat := (f.bitOffset, f.width)

def Register.bits (r : Register) : List (Nat × Nat) := r.fields.map Field.bits

/-- The name without its index. -/
def Register.family? (r : Register) : Option Text :=
  (IndexedName.ofText? r.name).map (·.stripped)

theorem Field.bits_eq_of_alike {f g : Field} (h : f.alike g) : f.bits = g.bits := by
  obtain ⟨_, _, -, -, -, -, hoffset, hwidth⟩ := alike_iff.mp h
  rw [bits, bits, hoffset, hwidth]

namespace Register

theorem bits_eq_of_precedes {a b : Register} (h : a.precedes b) : a.bits = b.bits := by
  rw [bits, bits, ← List.forall₂_eq_eq_eq, List.forall₂_map_left_iff, List.forall₂_map_right_iff]
  exact (precedes_iff.mp h).1.imp fun _ _ => Field.bits_eq_of_alike

theorem family?_of_precedes {a b : Register} (h : a.precedes b) :
    ∃ family, a.family? = some family ∧ b.family? = some family := by
  obtain ⟨stem, tail, i, j, ha, hb, -⟩ := indexedStep_iff.mp (precedes_iff.mp h).2
  exact ⟨stem ++ tail, by rw [family?, ha]; rfl, by rw [family?, hb]; rfl⟩

end Register

theorem eq_first_of_isChain {β : Type} {view : Register → β}
    (hview : ∀ a b : Register, a.precedes b → view a = view b) :
    ∀ {first : Register} {others : List Register}, (first :: others).IsChain (·.precedes ·) →
      ∀ r ∈ first :: others, view r = view first
  | first, [], _, r, hr => by rw [List.mem_singleton.mp hr]
  | first, second :: others, hchain, r, hr => by
    obtain ⟨hstep, hrest⟩ := List.isChain_cons_cons.mp hchain
    rcases List.mem_cons.mp hr with rfl | hr
    · rfl
    · rw [eq_first_of_isChain hview hrest r hr, hview first second hstep]

/-! ## Templates -/

theorem Register.fields_template {r : Register} {n : IndexedName}
    (hn : IndexedName.ofText? r.name = some n) :
    r.template.fields = r.fields.map fun f => f.renamed (n.memberName f.name) := by
  have hsorted : (r.fields.map fun f => f.renamed (n.memberName f.name)).Pairwise
      (·.bitOffset ≤ ·.bitOffset) :=
    List.pairwise_map.mpr r.sorted
  simp only [template, hn, fields_addAll]
  exact sortByKey_of_sorted hsorted

theorem Register.bits_template (r : Register) : r.template.bits = r.bits := by
  cases hn : IndexedName.ofText? r.name with
  | none => simp only [template, hn]
  | some n =>
    rw [bits, fields_template hn, List.map_map]
    rfl

theorem Register.name_template {r : Register} {n : IndexedName}
    (hn : IndexedName.ofText? r.name = some n) : r.template.name = n.stripped := by
  simp only [template, hn, name_addAll]
  rfl

def BitSpan.measure (s : BitSpan) : Bool × Nat := (s.isReserved, s.width)

theorem map_measure_bitSpansFrom : ∀ {fs gs : List Field} (reached : Nat),
    fs.map Field.bits = gs.map Field.bits →
      (bitSpansFrom reached fs).map BitSpan.measure = (bitSpansFrom reached gs).map BitSpan.measure
  | [], [], _, _ => rfl
  | f :: fs, g :: gs, reached, h => by
    rw [List.map_cons, List.map_cons] at h
    obtain ⟨hbits, hrest⟩ := List.cons.inj h
    obtain ⟨hoffset, hwidth⟩ := Prod.mk.inj hbits
    have hend : f.bitEnd = g.bitEnd := by rw [Field.bitEnd, Field.bitEnd, hoffset, hwidth]
    have hspan : (BitSpan.field f).measure = (BitSpan.field g).measure := congrArg (false, ·) hwidth
    rw [bitSpansFrom_cons, bitSpansFrom_cons, List.map_append, List.map_append, List.map_cons,
      List.map_cons, hspan, hoffset, hend, map_measure_bitSpansFrom _ hrest]

theorem Register.isSimple_eq (r : Register) :
    r.isSimple = match r.bits with
      | [] => true
      | [(_, width)] => width = wordBits
      | _ => false := by
  unfold isSimple bits
  split <;> simp_all [Field.bits]

theorem Register.isCollapsible_eq (r : Register) : r.isCollapsible = decide (r.bits.length = 1) := by
  rw [isCollapsible, bits, List.length_map]

/-! ## In a plan -/

/-- The register looks like the template that stands for it in an array. -/
structure Register.Element (template r : Register) : Prop where
  length_eq : template.fields.length = r.fields.length
  bits_eq : ∀ (i : Nat) (f g : Field), template.fields[i]? = some f → r.fields[i]? = some g →
    f.bitOffset = g.bitOffset ∧ f.width = g.width
  spans_eq : template.bitSpans.map BitSpan.measure = r.bitSpans.map BitSpan.measure
  isSimple_eq : template.isSimple = r.isSimple
  isCollapsible_eq : template.isCollapsible = r.isCollapsible
  name_eq : ∃ n, IndexedName.ofText? r.name = some n ∧ n.stripped = template.name

theorem Register.Element.of_bits_eq {template r : Register} (h : template.bits = r.bits)
    (hname : r.family? = some template.name) : Element template r where
  length_eq := by simpa [bits] using congrArg List.length h
  bits_eq := fun i f g hf hg => by
    have hi : template.bits[i]? = r.bits[i]? := by rw [h]
    simp only [bits, List.getElem?_map, hf, hg, Option.map_some, Option.some_inj] at hi
    exact Prod.mk.inj hi
  spans_eq := map_measure_bitSpansFrom 0 h
  isSimple_eq := by rw [template.isSimple_eq, r.isSimple_eq, h]
  isCollapsible_eq := by rw [template.isCollapsible_eq, r.isCollapsible_eq, h]
  name_eq := Option.map_eq_some_iff.mp hname

theorem Register.Element.family?_eq {template r : Register} (h : Element template r) :
    r.family? = some template.name :=
  Option.map_eq_some_iff.mpr h.name_eq

theorem Run.element_of_mem {run : Run} (hchain : run.registers.IsChain (·.precedes ·))
    (hothers : run.others ≠ []) : ∀ r ∈ run.registers, run.first.template.Element r := by
  obtain ⟨first, others⟩ := run
  intro r hr
  have hbits : r.bits = first.bits :=
    eq_first_of_isChain (fun _ _ => Register.bits_eq_of_precedes) hchain r hr
  have hfamily : r.family? = first.family? := by
    refine eq_first_of_isChain (fun a b h => ?_) hchain r hr
    obtain ⟨family, ha, hb⟩ := Register.family?_of_precedes h
    rw [ha, hb]
  -- The first register has a family because another one follows it.
  cases others with
  | nil => cases hothers rfl
  | cons second others =>
    obtain ⟨family, hfirst, -⟩ := Register.family?_of_precedes (List.isChain_cons_cons.mp hchain).1
    obtain ⟨n, hn, -⟩ := Option.map_eq_some_iff.mp hfirst
    refine .of_bits_eq (first.bits_template.trans hbits.symm) ?_
    rw [hfamily, Register.name_template hn, Register.family?, hn]
    rfl

/-- **Arrays describe their elements.** -/
theorem plan_elements {registers : List Register} {members before after : List Member}
    {template : Register} {length : Nat} (h : (plan registers).members = .ok members)
    (hm : members = before ++ .array template length :: after) :
    ∃ elements behind, registers.drop (totalRegisters before) = elements ++ behind ∧
      elements.length = length ∧ Member.StandsFor elements (.array template length) ∧
      ∀ r ∈ elements, template.Element r := by
  obtain ⟨front, run, rest, more, hruns, hmember, hcount, -, -⟩ := (Placed.of_plan h).split hm rfl
  have hmem : run ∈ runs registers := by simp [hruns]
  have hchain := isChain_registers_of_mem_runs hmem
  have hdrop : registers.drop (totalRegisters before) =
      run.registers ++ rest.flatMap Run.registers := by
    rw [← flatMap_registers_runs registers, hruns, hcount, List.flatMap_append, List.drop_left]
    rfl
  have hstands := run.member_standsFor
  rw [← hmember] at hstands
  refine ⟨run.registers, _, hdrop, ?_, hstands, ?_⟩
  · rw [← run.registerCount_member, ← hmember]
    rfl
  · unfold Run.member at hmember
    split at hmember
    · cases hmember
    · rename_i hothers
      cases hmember
      exact run.element_of_mem hchain hothers

def channel (index : Text) (byteOffset : Word) : Register :=
  Register.addAll (.empty ("ch".toList ++ index ++ "_ctrl".toList) byteOffset none)
    (List.filterMap (fun s : FieldSpec => s.field.toOption)
      [⟨"ch".toList ++ index ++ "_mode".toList, 4, 2, none⟩,
        ⟨"ch".toList ++ index ++ "_en".toList, 0, 1, none⟩])

def channelType (byteOffset : Word) : Register :=
  Register.addAll (.empty "ch_ctrl".toList byteOffset none)
    (List.filterMap (fun s : FieldSpec => s.field.toOption)
      [⟨"en".toList, 0, 1, none⟩, ⟨"mode".toList, 4, 2, none⟩])

theorem plan_elements_channels :
    (plan [channel "0".toList 16, channel "1".toList 20, channel "2".toList 24]).members =
      .ok [.padding 0 4, .array (channelType 16) 3] ∧
    ∃ elements behind,
      [channel "0".toList 16, channel "1".toList 20, channel "2".toList 24] = elements ++ behind ∧
      elements.length = 3 ∧ Member.StandsFor elements (.array (channelType 16) 3) ∧
      ∀ r ∈ elements, (channelType 16).Element r := by
  have hplan : (plan [channel "0".toList 16, channel "1".toList 20, channel "2".toList 24]).members =
      .ok ([.padding 0 4] ++ .array (channelType 16) 3 :: []) := by
    cbv
  exact ⟨hplan, plan_elements hplan rfl⟩

end RegisterMap
