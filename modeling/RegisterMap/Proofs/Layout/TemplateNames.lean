import RegisterMap.Proofs.Layout.MemberNames

/-!
# Names of template fields

A field of an array loses what sets the elements apart. If its name starts with
the stem and the index of its register, it is called what stands behind them and
the underscores there, its own part; otherwise its name loses the first run of
digits. Names stay words this way, but two fields may come to the same name, and
an own part may start with a digit.
-/

namespace RegisterMap

open Header (isWordChar)
open Text (Stops stops_dropWhile dropWhile_append_of_stops)

/-- A word that does not start with a digit. -/
structure IsIdentifier (s : Text) : Prop extends IsWord s where
  starts : s.head?.all (!·.isDigit)

instance (s : Text) : Decidable (IsIdentifier s) :=
  decidable_of_iff (IsWord s ∧ s.head?.all (!·.isDigit)) ⟨fun h => ⟨h.1, h.2⟩, fun h => ⟨h.1, h.2⟩⟩

namespace IndexedName

/-- The name without the first run of digits behind its letters. -/
def withoutIndex (name : Text) : Text :=
  name.takeWhile isStemChar ++ (name.dropWhile isStemChar).dropWhile Char.isDigit

/-- Letters, the digits of an index, and a tail that does not go on with digits. -/
structure IsIndexed (name stem : Text) (index : Nat) (tail : Text) : Prop where
  stem_nonempty : stem ≠ []
  all_isStemChar : stem.all isStemChar
  tail_stops : Stops Char.isDigit tail
  digits : ∃ digits, name = stem ++ (digits ++ tail) ∧ digits ≠ [] ∧ digits.all Char.isDigit ∧
    Text.numeralValue 10 digits = index

/-- What a field is named behind the stem and the index of its register, and any underscores. -/
def IsOwnPart (register field part : Text) : Prop :=
  ∃ stem index tail gap, IsIndexed register stem index tail ∧ IsIndexed field stem index (gap ++ part) ∧
    gap.all (· = '_') ∧ part ≠ [] ∧ part.head? ≠ some '_'

variable {name : Text}

theorem IsIndexed.exists_cut {stem tail : Text} {index : Nat} (h : IsIndexed name stem index tail) :
    ∃ cut : Cut name, cut.stem = stem ∧ cut.digits ≠ [] ∧ cut.value = index ∧ cut.tail = tail := by
  obtain ⟨digits, hname, hne, hdigits, rfl⟩ := h.digits
  have hdecimal : ∀ c ∈ digits, IsDecimal c := fun c hc => isDigit_iff.mp (List.all_eq_true.mp hdigits c hc)
  let cut : Cut name := {
    stem, digits, tail
    name_eq := hname
    stem_nonempty := h.stem_nonempty
    stem_letters := fun c hc => isStemChar_iff.mp (List.all_eq_true.mp h.all_isStemChar c hc)
    digits_decimal := hdecimal
    tail_not_decimal := stops_isDigit_iff.mp h.tail_stops
    tail_not_letter := fun hnil => absurd hnil hne }
  exact ⟨cut, rfl, hne, (numeralValue_eq_decimalValue hdecimal).symm, rfl⟩

theorem Cut.isIndexed (cut : Cut name) (h : cut.digits ≠ []) : IsIndexed name cut.stem cut.value cut.tail where
  stem_nonempty := cut.stem_nonempty
  all_isStemChar := cut.all_stem
  tail_stops := cut.stops_tail
  digits := ⟨cut.digits, cut.name_eq, h, cut.all_digits, numeralValue_eq_decimalValue cut.digits_decimal⟩

theorem IsIndexed.ofText?_eq {stem tail : Text} {index : Nat} (h : IsIndexed name stem index tail) :
    ofText? name = if index < wordLimit then some ⟨stem, some index, tail⟩ else none := by
  obtain ⟨cut, rfl, hdigits, rfl, rfl⟩ := h.exists_cut
  rw [cut.ofText?_eq, Cut.index, if_neg hdigits]

theorem isIndexed_of_ofText? {stem tail : Text} {index : Nat}
    (h : ofText? name = some ⟨stem, some index, tail⟩) : IsIndexed name stem index tail := by
  obtain ⟨cut, -, heq⟩ := ofText?_eq_some_iff.mp h
  obtain ⟨rfl, hindex, rfl⟩ := IndexedName.mk.inj heq
  rw [Cut.index] at hindex
  split at hindex
  · cases hindex
  · rename_i hdigits
    cases hindex
    exact cut.isIndexed hdigits

theorem stripped_eq_withoutIndex {n : IndexedName} (h : ofText? name = some n) :
    n.stripped = withoutIndex name := by
  obtain ⟨cut, -, rfl⟩ := ofText?_eq_some_iff.mp h
  rw [stripped, withoutIndex, cut.takeWhile_name, cut.dropWhile_rest]

/-! ## Names of members -/

section
variable {register : Text} {m : IndexedName} (hm : ofText? register = some m)
include hm

theorem memberName_of_isOwnPart {field part : Text} (h : IsOwnPart register field part) :
    m.memberName field = part := by
  obtain ⟨stem, index, tail, gap, hregister, hfield, hgap, hpart, hhead⟩ := h
  have hbare : (gap ++ part).dropWhile (· = '_') = part :=
    dropWhile_append_of_stops hgap fun c hc heq => hhead (of_decide_eq_true heq ▸ hc)
  rw [hregister.ofText?_eq] at hm
  split at hm
  · rename_i hindex
    cases hm
    rw [memberName, hfield.ofText?_eq, if_pos hindex]
    simp only [hbare]
    exact if_pos ⟨trivial, trivial, hpart⟩
  · cases hm

theorem memberName_of_not_isOwnPart {field : Text} {n : IndexedName} {index : Nat}
    (hn : ofText? field = some n) (hindex : m.index = some index)
    (h : ∀ part, ¬ IsOwnPart register field part) : m.memberName field = withoutIndex field := by
  rw [memberName, hn, ← stripped_eq_withoutIndex hn]
  refine if_neg ?_
  rintro ⟨hstem, hsame, hpart⟩
  have hregister : IsIndexed register m.stem index m.tail := isIndexed_of_ofText? (by rw [hm, ← hindex])
  have hfield : IsIndexed field m.stem index n.tail :=
    isIndexed_of_ofText? (by rw [hn, ← hstem, ← hindex, ← hsame])
  refine h (n.tail.dropWhile (· = '_')) ⟨m.stem, index, m.tail, n.tail.takeWhile (· = '_'), hregister, ?_,
    List.all_takeWhile, hpart, fun hhead => stops_dropWhile _ n.tail '_' hhead (by decide)⟩
  rwa [List.takeWhile_append_dropWhile]

/-- Two names of fields that come to the same name in the array of a register. -/
def Confused (register f g : Text) : Prop :=
  (∃ part, IsOwnPart register f part ∧ IsOwnPart register g part) ∨
    (∀ part, ¬ IsOwnPart register f part) ∧ (∀ part, ¬ IsOwnPart register g part) ∧
      withoutIndex f = withoutIndex g ∨
    IsOwnPart register f (withoutIndex g) ∧ (∀ part, ¬ IsOwnPart register g part) ∨
    (∀ part, ¬ IsOwnPart register f part) ∧ IsOwnPart register g (withoutIndex f)

theorem memberName_cases {field : Text} {n : IndexedName} {index : Nat} (hn : ofText? field = some n)
    (hindex : m.index = some index) :
    IsOwnPart register field (m.memberName field) ∨
      (∀ part, ¬ IsOwnPart register field part) ∧ m.memberName field = withoutIndex field := by
  by_cases h : ∀ part, ¬ IsOwnPart register field part
  · exact .inr ⟨h, memberName_of_not_isOwnPart hm hn hindex h⟩
  · obtain ⟨part, hpart⟩ := not_forall_not.mp h
    rw [memberName_of_isOwnPart hm hpart]
    exact .inl hpart

theorem memberName_eq_iff {f g : Text} {n k : IndexedName} {index : Nat} (hindex : m.index = some index)
    (hf : ofText? f = some n) (hg : ofText? g = some k) :
    m.memberName f = m.memberName g ↔ Confused register f g := by
  constructor
  · intro heq
    rcases memberName_cases hm hf hindex with hown | ⟨hnone, hname⟩
    · rcases memberName_cases hm hg hindex with hown' | ⟨hnone', hname'⟩
      · exact .inl ⟨_, hown, heq ▸ hown'⟩
      · exact .inr (.inr (.inl ⟨hname' ▸ heq ▸ hown, hnone'⟩))
    · rcases memberName_cases hm hg hindex with hown' | ⟨hnone', hname'⟩
      · exact .inr (.inr (.inr ⟨hnone, hname ▸ heq ▸ hown'⟩))
      · exact .inr (.inl ⟨hnone, hnone', by rw [← hname, ← hname', heq]⟩)
  · rintro (⟨part, hf', hg'⟩ | ⟨hf', hg', heq⟩ | ⟨hf', hg'⟩ | ⟨hf', hg'⟩)
    · rw [memberName_of_isOwnPart hm hf', memberName_of_isOwnPart hm hg']
    · rw [memberName_of_not_isOwnPart hm hf hindex hf', memberName_of_not_isOwnPart hm hg hindex hg', heq]
    · rw [memberName_of_isOwnPart hm hf', memberName_of_not_isOwnPart hm hg hindex hg']
    · rw [memberName_of_not_isOwnPart hm hf hindex hf', memberName_of_isOwnPart hm hg']

end

theorem isStemChar_of_isWordChar {c : Char} (h : isWordChar c) (hdigit : ¬ c.isDigit) : isStemChar c := by
  simp only [isWordChar, Char.isAlphanum, Bool.or_eq_true] at h
  rcases h with (hletter | h) | hunderscore
  · simp [isStemChar, hletter]
  · exact absurd h hdigit
  · simp [isStemChar, hunderscore]

theorem isIdentifier_withoutIndex (h : IsIdentifier name) : IsIdentifier (withoutIndex name) := by
  obtain ⟨c, rest, rfl⟩ := List.exists_cons_of_ne_nil h.nonempty
  have hword : isWordChar c := List.all_eq_true.mp h.all_isWordChar c (List.mem_cons_self ..)
  have hletter : ¬ c.isDigit := by simpa using h.starts
  have hstem : isStemChar c := isStemChar_of_isWordChar hword hletter
  have hcons : withoutIndex (c :: rest) =
      c :: (rest.takeWhile isStemChar ++ (rest.dropWhile isStemChar).dropWhile Char.isDigit) := by
    rw [withoutIndex, List.takeWhile_cons_of_pos hstem, List.dropWhile_cons_of_pos hstem, List.cons_append]
  refine ⟨h.toIsWord.of_subset (by simp [hcons]) ?_, ?_⟩
  · rw [withoutIndex]
    exact List.append_subset.mpr ⟨List.takeWhile_subset _,
      List.Subset.trans (List.dropWhile_subset _) (List.dropWhile_subset _)⟩
  · rw [hcons]
    simpa using hletter

end IndexedName

namespace Register

variable {a b : Register} (h : a.precedes b)
include h

theorem ofText?_field_of_precedes : ∀ f ∈ a.fields, ∃ n, IndexedName.ofText? f.name = some n := by
  have hboth : List.Forall₂ (fun f g => (∃ n, IndexedName.ofText? f.name = some n) ∧ f.alike g)
      a.fields b.fields :=
    (precedes_iff.mp h).1.imp fun f g hfg => by
      obtain ⟨m, _, hm, -⟩ := Field.alike_iff.mp hfg
      exact ⟨⟨m, hm⟩, hfg⟩
  exact ((List.forall₂_and_left _ _).mp hboth).1

theorem ofText?_of_precedes : ∃ m index, IndexedName.ofText? a.name = some m ∧ m.index = some index := by
  obtain ⟨stem, tail, i, j, ha, -⟩ := indexedStep_iff.mp (precedes_iff.mp h).2
  exact ⟨_, i, ha, rfl⟩

end Register

/-! ## Templates -/

theorem first_of_array {registers : List Register} {members before after : List Member}
    {template first : Register} {length : Nat} (h : (plan registers).members = .ok members)
    (hm : members = before ++ .array template length :: after)
    (hfirst : registers[totalRegisters before]? = some first) :
    template = first.template ∧ ∃ second, first.precedes second := by
  obtain ⟨run, behind, hmem, hmember, hdrop⟩ := exists_run_of_member h hm rfl
  have hhead : run.first = first := by
    rw [← List.head?_drop, hdrop] at hfirst
    exact Option.some_inj.mp hfirst
  subst hhead
  unfold Run.member at hmember
  split at hmember
  · cases hmember
  · rename_i hothers
    cases hmember
    obtain ⟨second, -, -, hprecedes⟩ := Run.precedes_second hmem hothers
    exact ⟨rfl, second, hprecedes⟩

/-- **Names of template fields.** They are words, and identifiers but for own parts that start with a
digit. They are distinct unless two fields come to the same name. -/
theorem plan_templateNames {registers : List Register} {members before after : List Member}
    {template first : Register} {length : Nat} (h : (plan registers).members = .ok members)
    (hm : members = before ++ .array template length :: after)
    (hfirst : registers[totalRegisters before]? = some first)
    (hnames : ∀ f ∈ first.fields, IsIdentifier f.name) :
    List.Forall₂ (fun f g : Field => IsWord g.name ∧
        ((∀ part, IndexedName.IsOwnPart first.name f.name part → part.head?.all (!·.isDigit)) →
          IsIdentifier g.name))
      first.fields template.fields ∧
    ((template.fields.map Field.name).Nodup ↔
      first.fields.Pairwise fun f g => ¬ IndexedName.Confused first.name f.name g.name) := by
  obtain ⟨rfl, second, hprecedes⟩ := first_of_array h hm hfirst
  obtain ⟨m, index, hname, hindex⟩ := Register.ofText?_of_precedes hprecedes
  have hfields := Register.ofText?_field_of_precedes hprecedes
  rw [Register.fields_template hname]
  constructor
  · rw [List.forall₂_map_right_iff, List.forall₂_same]
    intro f hf
    have hword : IsWord (m.memberName f.name) := m.isWord_memberName (hnames f hf).toIsWord
    refine ⟨hword, fun hpart => ?_⟩
    obtain ⟨n, hn⟩ := hfields f hf
    show IsIdentifier (m.memberName f.name)
    rcases IndexedName.memberName_cases hname hn hindex with hown | ⟨-, hother⟩
    · exact ⟨hword, hpart _ hown⟩
    · rw [hother]
      exact IndexedName.isIdentifier_withoutIndex (hnames f hf)
  · rw [List.map_map, List.Nodup, List.pairwise_map]
    refine List.Pairwise.iff_of_mem fun {f g} hf hg => not_congr ?_
    obtain ⟨n, hn⟩ := hfields f hf
    obtain ⟨k, hk⟩ := hfields g hg
    exact IndexedName.memberName_eq_iff hname hindex hn hk

theorem channel_names (index : Text) (byteOffset : Word) :
    (channel index byteOffset).fields.map Field.name =
      ["ch".toList ++ index ++ "_en".toList, "ch".toList ++ index ++ "_mode".toList] := rfl

theorem plan_templateNames_channels :
    (plan [channel "0".toList 16, channel "1".toList 20, channel "2".toList 24]).members =
      .ok [.padding 0 4, .array (channelType 16) 3] ∧
    List.Forall₂ (fun _ g => IsIdentifier g.name) (channel "0".toList 16).fields (channelType 16).fields ∧
    (channel "0".toList 16).fields.Pairwise fun f g =>
      ¬ IndexedName.Confused (channel "0".toList 16).name f.name g.name := by
  have hplan : (plan [channel "0".toList 16, channel "1".toList 20, channel "2".toList 24]).members =
      .ok ([.padding 0 4] ++ .array (channelType 16) 3 :: []) := by
    cbv
  have hnames : ∀ f ∈ (channel "0".toList 16).fields, IsIdentifier f.name := by
    rw [← List.forall_mem_map, channel_names]
    decide
  have hparts : ∀ f ∈ (channel "0".toList 16).fields, ∀ part,
      IndexedName.IsOwnPart (channel "0".toList 16).name f.name part → part.head?.all (!·.isDigit) := by
    intro f hf part hpart
    have hname : IndexedName.ofText? (channel "0".toList 16).name = some ⟨"ch".toList, some 0, "_ctrl".toList⟩ := by
      decide
    have hfield : f.name ∈ ["ch0_en".toList, "ch0_mode".toList] := List.mem_map_of_mem hf
    have hall : ∀ name ∈ ["ch0_en".toList, "ch0_mode".toList],
        (IndexedName.memberName ⟨"ch".toList, some 0, "_ctrl".toList⟩ name).head?.all (!·.isDigit) := by decide
    rw [← IndexedName.memberName_of_isOwnPart hname hpart]
    exact hall f.name hfield
  obtain ⟨hidentifiers, hdistinct⟩ := plan_templateNames hplan rfl rfl hnames
  refine ⟨hplan, ?_, hdistinct.mp ?_⟩
  · exact ((List.forall₂_and_left _ _).mpr ⟨hparts, hidentifiers⟩).imp fun f g h => h.2.2 h.1
  · show ["en".toList, "mode".toList].Nodup
    decide

/-- A channel whose enable bit and one-shot bit carry its index, next to an enable bit of all. -/
def sharedChannel (index : Text) (byteOffset : Word) : Register :=
  Register.addAll (.empty ("ch".toList ++ index ++ "_ctrl".toList) byteOffset none)
    (List.filterMap (fun s : FieldSpec => s.field.toOption)
      [⟨"ch".toList ++ index ++ "_en".toList, 0, 1, none⟩, ⟨"en".toList, 1, 1, none⟩,
        ⟨"ch".toList ++ index ++ "_1shot".toList, 2, 1, none⟩])

theorem sharedChannel_names (index : Text) (byteOffset : Word) :
    (sharedChannel index byteOffset).fields.map Field.name =
      ["ch".toList ++ index ++ "_en".toList, "en".toList, "ch".toList ++ index ++ "_1shot".toList] := rfl

/-- Distinct identifiers come to one name twice, and to a name that is no identifier. -/
theorem templateNames_clash :
    (∀ r ∈ [sharedChannel "0".toList 0, sharedChannel "1".toList 4], IsIdentifier r.name ∧
      (∀ name ∈ r.fields.map Field.name, IsIdentifier name) ∧ (r.fields.map Field.name).Nodup) ∧
    ∃ template, (plan [sharedChannel "0".toList 0, sharedChannel "1".toList 4]).members =
        .ok [.array template 2] ∧
      template.fields.map Field.name = ["en".toList, "en".toList, "1shot".toList] ∧
      ¬ IsIdentifier "1shot".toList := by
  refine ⟨List.forall_mem_cons.mpr ⟨⟨by decide, ?_⟩, List.forall_mem_singleton.mpr ⟨by decide, ?_⟩⟩,
    (sharedChannel "0".toList 0).template, by cbv, rfl, by decide⟩
  · rw [sharedChannel_names]
    decide
  · rw [sharedChannel_names]
    decide

end RegisterMap
