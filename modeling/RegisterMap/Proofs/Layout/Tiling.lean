import RegisterMap.Proofs.Layout.Placement

/-!
# Members tile the addresses

The members of a plan follow each other without a hole. The bytes of all
members before one that declares registers add up to the offset of its first
register, and a padding measures exactly the gap it stands in.
-/

namespace RegisterMap

/-- Members laid out for registers taken in order. -/
structure Tiles (registers : List Register) (members : List Member) : Prop where
  /-- A member that declares registers takes the next ones, and starts at the first of them. -/
  start_eq : ∀ before m after, members = before ++ m :: after → m.isPadding = false →
    ∃ r others rest, registers.drop (totalRegisters before) = (r :: others) ++ rest ∧
      m.StandsFor (r :: others) ∧ totalBytes before = r.byteOffset.val
  /-- A padding reaches from the end of what comes before it to the member behind it. -/
  gap_eq : ∀ before index words after, members = before ++ .padding index words :: after →
    ∃ m more r rest, after = m :: more ∧ m.isPadding = false ∧
      registers.drop (totalRegisters before) = r :: rest ∧ 0 < words ∧ words < wordLimit ∧
      words = (r.byteOffset.val - totalBytes before) / wordBytes ∧
      r.byteOffset.val = totalBytes before + wordBytes * words
  indices_eq : members.filterMap Member.paddingIndex? =
    List.range (members.countP Member.isPadding)
  separated : members.IsChain fun m n => ¬ (m.isPadding ∧ n.isPadding)
  ends : ∀ m ∈ members.getLast?, m.isPadding = false

namespace Placed

variable {reached paddings : Nat} {runs : List Run} {members : List Member}

theorem start_eq (h : Placed reached paddings runs members) {before after : List Member}
    {m : Member} (hm : members = before ++ m :: after) (hpadding : m.isPadding = false) :
    ∃ r others rest,
      (runs.flatMap Run.registers).drop (totalRegisters before) = (r :: others) ++ rest ∧
        m.StandsFor (r :: others) ∧ reached + totalBytes before = r.byteOffset.val := by
  obtain ⟨front, run, rest, _, rfl, rfl, hcount, hoffset, -⟩ := h.split hm hpadding
  refine ⟨run.first, run.others, rest.flatMap Run.registers, ?_, run.member_standsFor, hoffset.symm⟩
  rw [hcount, List.flatMap_append, List.drop_left]
  rfl

theorem words_pos (h : Placed reached paddings runs members) :
    ∀ m ∈ members, m.isPadding → 0 < m.words := by
  induction h with
  | done => simp
  | @adjoin _ _ run _ _ _ _ ih =>
    simp only [List.forall_mem_cons]
    exact ⟨fun hpadding => by simp [run.isPadding_member] at hpadding, ih⟩
  | @skip _ _ _ run _ _ hwords _ _ ih =>
    simp only [List.forall_mem_cons]
    exact ⟨fun _ => hwords, fun hpadding => by simp [run.isPadding_member] at hpadding, ih⟩

theorem indices_eq (h : Placed reached paddings runs members) :
    members.filterMap Member.paddingIndex? =
      List.range' paddings (members.countP Member.isPadding) := by
  induction h with
  | done => rfl
  | @adjoin _ _ run _ _ _ _ ih =>
    rw [List.filterMap_cons_none run.paddingIndex?_member,
      List.countP_cons_of_neg (by simp [run.isPadding_member]), ih]
  | @skip _ paddings words run _ _ _ _ _ ih =>
    have hindex : (Member.padding paddings words).paddingIndex? = some paddings := rfl
    rw [List.filterMap_cons_some hindex, List.filterMap_cons_none run.paddingIndex?_member,
      List.countP_cons_of_pos rfl, List.countP_cons_of_neg (by simp [run.isPadding_member]), ih]
    exact (List.range'_succ ..).symm

/-- What stands next to a padding is a member of a run. -/
theorem isChain (h : Placed reached paddings runs members) :
    members.IsChain fun m n => ¬ (m.isPadding ∧ n.isPadding) := by
  induction h with
  | done => exact .nil
  | @adjoin _ _ run _ _ _ _ ih =>
    exact List.isChain_cons.mpr ⟨fun _ _ => by simp [run.isPadding_member], ih⟩
  | @skip _ _ _ run _ _ _ _ _ ih =>
    refine List.isChain_cons_cons.mpr ⟨by simp [run.isPadding_member], ?_⟩
    exact List.isChain_cons.mpr ⟨fun _ _ => by simp [run.isPadding_member], ih⟩

theorem ends (h : Placed reached paddings runs members) :
    ∀ m ∈ members.getLast?, m.isPadding = false := by
  induction h with
  | done => simp
  | @adjoin _ _ run _ members _ _ ih =>
    cases members with
    | nil => simp [run.isPadding_member]
    | cons n members => rwa [List.getLast?_cons_cons]
  | @skip _ _ _ run _ members _ _ _ ih =>
    rw [List.getLast?_cons_cons]
    cases members with
    | nil => simp [run.isPadding_member]
    | cons n members => rwa [List.getLast?_cons_cons]

end Placed

/-- **Tiling.** Whatever the order of the registers, a plan that succeeds leaves no byte out. -/
theorem plan_tiles {registers : List Register} {members : List Member}
    (h : (plan registers).members = .ok members) : Tiles registers members := by
  have hplaced := Placed.of_plan h
  have hregisters := flatMap_registers_runs registers
  have hstart : ∀ before m after, members = before ++ m :: after → m.isPadding = false →
      ∃ r others rest, registers.drop (totalRegisters before) = (r :: others) ++ rest ∧
        m.StandsFor (r :: others) ∧ totalBytes before = r.byteOffset.val := by
    intro before m after hm hpadding
    obtain ⟨r, others, rest, hdrop, hfor, hbytes⟩ := hplaced.start_eq hm hpadding
    rw [hregisters] at hdrop
    rw [Nat.zero_add] at hbytes
    exact ⟨r, others, rest, hdrop, hfor, hbytes⟩
  refine ⟨hstart, ?_, ?_, hplaced.isChain, hplaced.ends⟩
  · intro before index words after hm
    have hwords : 0 < words := hplaced.words_pos (.padding index words) (by simp [hm]) rfl
    cases after with
    | nil =>
      have := hplaced.ends (.padding index words) (by simp [hm])
      cases this
    | cons m more =>
      have hpadding : m.isPadding = false := by
        have hchain := hplaced.isChain
        rw [hm, List.isChain_append_cons_cons] at hchain
        simpa [Member.isPadding] using hchain.2.1
      obtain ⟨r, others, rest, hdrop, -, hbytes⟩ :=
        hstart (before ++ [.padding index words]) m more (by simp [hm]) hpadding
      have hcount : totalRegisters (before ++ [.padding index words]) = totalRegisters before := by
        simp [totalRegisters, Member.registerCount]
      rw [hcount] at hdrop
      rw [totalBytes_concat, Member.bytes, Member.words] at hbytes
      have hlimit := r.byteOffset.isLt
      have hbound : words ≤ wordBytes * words := Nat.le_mul_of_pos_left words (by decide)
      refine ⟨m, more, r, others ++ rest, rfl, hpadding, hdrop, hwords, by omega, ?_, hbytes.symm⟩
      rw [← hbytes, Nat.add_sub_cancel_left, Nat.mul_div_cancel_left words (by decide)]
  · rw [hplaced.indices_eq, List.range_eq_range']

theorem plan_tiles_around_array :
    (plan [.empty "boot".toList 8 none, .empty "ch0_ctrl".toList 16 none,
        .empty "ch1_ctrl".toList 20 none, .empty "date".toList 252 none]).members =
      .ok [.padding 0 2, .register (.empty "boot".toList 8 none), .padding 1 1,
        .array (.empty "ch_ctrl".toList 16 none) 2, .padding 2 57,
        .register (.empty "date".toList 252 none)] ∧
    Tiles [.empty "boot".toList 8 none, .empty "ch0_ctrl".toList 16 none,
        .empty "ch1_ctrl".toList 20 none, .empty "date".toList 252 none]
      [.padding 0 2, .register (.empty "boot".toList 8 none), .padding 1 1,
        .array (.empty "ch_ctrl".toList 16 none) 2, .padding 2 57,
        .register (.empty "date".toList 252 none)] :=
  ⟨by cbv, plan_tiles (by cbv)⟩

end RegisterMap
