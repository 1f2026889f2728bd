import RegisterMap.Proofs.Layout.TemplateNames

/-!
# Templates of other elements

The type of an array is made of its first register. Any register of the run would
give a type of the same name with the same bits. It would call a field the same,
too, unless the field has an own part in one of the registers and none in the other:
families leave the index of a field free, but an own part asks for that of the
register.
-/

namespace RegisterMap

open Text (dropWhile_append_of_stops)

namespace IndexedName

def HasOwnPart (register field : Text) : Prop := ∃ part, IsOwnPart register field part

theorem IsOwnPart.eq_of_tail {register field part : Text} {n : IndexedName} (h : IsOwnPart register field part)
    (hn : ofText? field = some n) : part = n.tail.dropWhile (· = '_') := by
  obtain ⟨stem, index, tail, gap, -, hfield, hgap, -, hhead⟩ := h
  have hbare : (gap ++ part).dropWhile (· = '_') = part := by
    apply dropWhile_append_of_stops hgap
    intro c hc heq
    exact hhead (of_decide_eq_true heq ▸ hc)
  rw [hfield.ofText?_eq] at hn
  split at hn
  · cases hn
    exact hbare.symm
  · cases hn

theorem bare_ne_stripped {field : Text} {n : IndexedName} (hn : ofText? field = some n) {tail : Text}
    (htail : tail = n.tail) : tail.dropWhile (· = '_') ≠ n.stripped := by
  intro heq
  have hstem := List.length_pos_iff.mpr (parts_of_ofText? hn).1
  have hle := (List.dropWhile_suffix (l := tail) (· = '_')).length_le
  rw [heq, stripped, List.length_append, htail] at hle
  omega

section
variable {register register' : Text} {m m' : IndexedName} {i i' : Nat}
  (hm : ofText? register = some m) (hindex : m.index = some i)
  (hm' : ofText? register' = some m') (hindex' : m'.index = some i')
include hm hindex hm' hindex'

theorem memberName_eq_iff_hasOwnPart {f g : Text} {n k : IndexedName} (hn : ofText? f = some n)
    (hk : ofText? g = some k) (hstem : n.stem = k.stem) (htail : n.tail = k.tail) :
    m.memberName f = m'.memberName g ↔ (HasOwnPart register f ↔ HasOwnPart register' g) := by
  have hstripped : n.stripped = k.stripped := by rw [stripped, stripped, hstem, htail]
  rcases memberName_cases hm hn hindex with hown | ⟨hnone, hname⟩
  · have hbare := hown.eq_of_tail hn
    rcases memberName_cases hm' hk hindex' with hown' | ⟨hnone', hname'⟩
    · refine iff_of_true ?_ (iff_of_true ⟨_, hown⟩ ⟨_, hown'⟩)
      rw [hbare, hown'.eq_of_tail hk, htail]
    · refine iff_of_false ?_ fun hboth => ?_
      · rw [hbare, hname', ← stripped_eq_withoutIndex hk]
        exact bare_ne_stripped hk htail
      · obtain ⟨part, hpart⟩ := hboth.mp ⟨_, hown⟩
        exact hnone' part hpart
  · rcases memberName_cases hm' hk hindex' with hown' | ⟨hnone', hname'⟩
    · refine iff_of_false ?_ fun hboth => ?_
      · rw [hname, hown'.eq_of_tail hk, ← stripped_eq_withoutIndex hn]
        exact (bare_ne_stripped hn htail.symm).symm
      · obtain ⟨part, hpart⟩ := hboth.mpr ⟨_, hown'⟩
        exact hnone part hpart
    · refine iff_of_true ?_ (iff_of_false ?_ ?_)
      · rw [hname, hname', ← stripped_eq_withoutIndex hn, ← stripped_eq_withoutIndex hk, hstripped]
      · rintro ⟨part, hpart⟩
        exact hnone part hpart
      · rintro ⟨part, hpart⟩
        exact hnone' part hpart

end

end IndexedName

/-! ## Templates -/

/-- The templates of two registers differ at most in the names of fields, and say where they do. -/
structure Register.SameTemplate (a b : Register) : Prop where
  name_eq : a.template.name = b.template.name
  bits_eq : a.template.bits = b.template.bits
  length_eq : a.template.fields.length = a.fields.length ∧ b.template.fields.length = b.fields.length
  names_iff : ∀ (i : Nat) (f g f' g' : Field), a.fields[i]? = some f → b.fields[i]? = some g →
    a.template.fields[i]? = some f' → b.template.fields[i]? = some g' →
      (f'.name = g'.name ↔ (IndexedName.HasOwnPart a.name f.name ↔ IndexedName.HasOwnPart b.name g.name))

namespace Register

theorem getElem?_fields_template {r : Register} {n : IndexedName} (hn : IndexedName.ofText? r.name = some n)
    {i : Nat} {f f' : Field} (hf : r.fields[i]? = some f) (hf' : r.template.fields[i]? = some f') :
    f'.name = n.memberName f.name := by
  rw [fields_template hn, List.getElem?_map, hf] at hf'
  cases hf'
  rfl

theorem sameTemplate_of_precedes {a b : Register} (h : a.precedes b) : a.SameTemplate b := by
  obtain ⟨halike, hstep⟩ := precedes_iff.mp h
  obtain ⟨stem, tail, i, j, ha, hb, -⟩ := indexedStep_iff.mp hstep
  constructor
  · rw [name_template ha, name_template hb]
    rfl
  · rw [a.bits_template, b.bits_template, bits_eq_of_precedes h]
  · constructor
    · rw [fields_template ha, List.length_map]
    · rw [fields_template hb, List.length_map]
  · intro k f g f' g' hf hg hf' hg'
    have hfg : f.alike g := by
      obtain ⟨hk, rfl⟩ := List.getElem?_eq_some_iff.mp hf
      obtain ⟨hk', rfl⟩ := List.getElem?_eq_some_iff.mp hg
      exact halike.get hk hk'
    obtain ⟨n, n', hn, hn', hstem, htail, -⟩ := Field.alike_iff.mp hfg
    rw [getElem?_fields_template ha hf hf', getElem?_fields_template hb hg hg']
    exact IndexedName.memberName_eq_iff_hasOwnPart ha rfl hb rfl hn hn' hstem htail

end Register

theorem pairwise_precedes_of_mem_runs {registers : List Register} {run : Run} (h : run ∈ runs registers) :
    run.registers.Pairwise (fun a b => a.precedes b) :=
  (isChain_registers_of_mem_runs h).pairwise

/-- **Templates of other elements.** Registers that can be neighbours in an array have templates of
one name with the same bits. The names of two fields are the same if both have an own part, or neither.
In a plan that holds of any two registers of an array. -/
theorem templates_of_elements :
    (∀ a b : Register, a.precedes b → a.SameTemplate b) ∧
    ∀ (registers : List Register) (members before after : List Member) (template : Register) (length : Nat),
      (plan registers).members = .ok members → members = before ++ .array template length :: after →
        ∃ elements behind, registers.drop (totalRegisters before) = elements ++ behind ∧
          elements.length = length ∧ Member.StandsFor elements (.array template length) ∧
          elements.Pairwise Register.SameTemplate := by
  refine ⟨fun _ _ => Register.sameTemplate_of_precedes, ?_⟩
  intro registers members before after template length h hm
  obtain ⟨run, behind, hrun, hmember, hdrop⟩ := exists_run_of_member h hm rfl
  refine ⟨run.registers, behind, hdrop, ?_, ?_, ?_⟩
  · rw [← run.registerCount_member, ← hmember]
    rfl
  · rw [hmember]
    exact run.member_standsFor
  · exact (pairwise_precedes_of_mem_runs hrun).imp Register.sameTemplate_of_precedes

theorem templates_of_elements_shared :
    (sharedChannel "0".toList 0).precedes (sharedChannel "1".toList 4) ∧
    (sharedChannel "0".toList 0).SameTemplate (sharedChannel "1".toList 4) ∧
    (plan [sharedChannel "0".toList 0, sharedChannel "1".toList 4]).members =
      .ok [.array (sharedChannel "0".toList 0).template 2] ∧
    ∃ elements behind, [sharedChannel "0".toList 0, sharedChannel "1".toList 4] = elements ++ behind ∧
      elements.length = 2 ∧ Member.StandsFor elements (.array (sharedChannel "0".toList 0).template 2) ∧
      elements.Pairwise Register.SameTemplate := by
  have hprecedes : (sharedChannel "0".toList 0).precedes (sharedChannel "1".toList 4) := by cbv
  have hplan : (plan [sharedChannel "0".toList 0, sharedChannel "1".toList 4]).members =
      .ok ([] ++ .array (sharedChannel "0".toList 0).template 2 :: []) := by
    cbv
  obtain ⟨hpair, hruns⟩ := templates_of_elements
  exact ⟨hprecedes, hpair _ _ hprecedes, hplan, hruns _ _ [] [] _ _ hplan rfl⟩

def lentChannel (index : Text) (byteOffset : Word) : Register :=
  Register.addAll (.empty ("ch".toList ++ index ++ "_ctrl".toList) byteOffset none)
    (List.filterMap (fun s : FieldSpec => s.field.toOption) [⟨"ch0_en".toList, 0, 1, none⟩])

/-- The first and the fourth of these channels can be neighbours, and the types made of them differ. -/
theorem template_depends_on_element :
    (lentChannel "0".toList 0).precedes (lentChannel "3".toList 12) ∧
    (plan [lentChannel "0".toList 0, lentChannel "1".toList 4, .empty "status".toList 8 none,
        lentChannel "3".toList 12, lentChannel "4".toList 16]).members =
      .ok [.array (lentChannel "0".toList 0).template 2, .register (.empty "status".toList 8 none),
        .array (lentChannel "3".toList 12).template 2] ∧
    (lentChannel "0".toList 0).template.fields.map Field.name = ["en".toList] ∧
    (lentChannel "3".toList 12).template.fields.map Field.name = ["ch_en".toList] :=
  ⟨by cbv, by cbv, rfl, rfl⟩

end RegisterMap
