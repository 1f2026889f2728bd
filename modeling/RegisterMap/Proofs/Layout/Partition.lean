import RegisterMap.Proofs.Layout.Placement

/-!
# Plans partition their registers

Leaving out the padding, a plan has one member for each segment between
breaks: a lone register as it is, a longer segment as an array of its length
under the template of its first register. Arrays are the only thing reported.
-/

namespace RegisterMap

/-- Segments of a list cut at the neighbours of which the first does not precede the second. -/
structure CutAtBreaks (registers : List Register) (segments : List (List Register)) : Prop where
  flatten_eq : registers = segments.flatten
  nil_notMem : [] ∉ segments
  isChain : ∀ s ∈ segments, s.IsChain (·.precedes ·)
  breaks : segments.IsChain fun s t => ∃ hs ht, (s.getLast hs).precedes (t.head ht) = false

/-- What is reported of a segment that becomes an array. -/
structure Coalescence.Reports (c : Coalescence) (segment : List Register) : Prop where
  first_eq : segment.head? = some c.first
  length_eq : c.length = segment.length
  template_eq : c.template = c.first.template
  level_eq : c.log.level = .info
  message_eq : c.log.message = '[' :: c.first.name ++ "] at ".toList ++
    Text.hexadecimal c.first.byteOffset ++ ": ".toList ++ Text.decimal segment.length ++
    " registers coalesced into [".toList ++ c.first.template.name ++ [']']

theorem cutAtBreaks_runs (registers : List Register) :
    CutAtBreaks registers ((runs registers).map Run.registers) := by
  obtain ⟨hflatten, hne, hchain, hbreaks⟩ := List.splitBy_eq_iff.mp (registers_runs registers).symm
  exact ⟨hflatten, hne, hchain, hbreaks⟩

theorem Placed.filter_members {reached paddings : Nat} {runs : List Run} {members : List Member}
    (h : Placed reached paddings runs members) :
    members.filter (!·.isPadding) = runs.map Run.member := by
  induction h with
  | done => rfl
  | @adjoin _ _ run _ _ _ _ ih =>
    rw [List.filter_cons_of_pos (by simp [run.isPadding_member]), ih, List.map_cons]
  | @skip _ _ _ run _ _ _ _ _ ih =>
    rw [List.filter_cons_of_neg (by simp [Member.isPadding]),
      List.filter_cons_of_pos (by simp [run.isPadding_member]), ih, List.map_cons]

theorem coalescences_place : ∀ {runs : List Run} {reached paddings : Nat} {members : List Member},
    (place reached paddings runs).members = .ok members →
      (place reached paddings runs).coalescences = runs.flatMap Run.coalescences
  | [], _, _, _, _ => rfl
  | run :: rest, reached, paddings, members, h => by
    obtain ⟨-, -, hcoalescences, _, hmore, -⟩ := place_cons_ok h
    rw [hcoalescences, coalescences_place hmore, List.flatMap_cons]

theorem Run.reports {run : Run} (h : run.others ≠ []) :
    ∃ c : Coalescence, run.coalescences = [c] ∧ c.Reports run.registers := by
  refine ⟨⟨run.first, run.length, run.first.template⟩, ?_, ?_⟩
  · rw [Run.coalescences, if_neg h]
  · exact ⟨rfl, rfl, rfl, rfl, rfl⟩

theorem reports_coalescences : ∀ runs : List Run,
    List.Forall₂ Coalescence.Reports (runs.flatMap Run.coalescences)
      ((runs.map Run.registers).filter (1 < ·.length))
  | [] => .nil
  | run :: rest => by
    have ih := reports_coalescences rest
    rw [List.flatMap_cons, List.map_cons]
    by_cases h : run.others = []
    · have hlength : ¬ 1 < run.registers.length := by simp [Run.registers, h]
      rw [List.filter_cons_of_neg (by simpa using hlength), Run.coalescences, if_pos h]
      exact ih
    · obtain ⟨c, hc, hreports⟩ := Run.reports h
      have hlength : 1 < run.registers.length := by
        simp [Run.registers, List.length_pos_iff, h]
      rw [List.filter_cons_of_pos (by simpa using hlength), hc]
      exact .cons hreports ih

/-- **Partition.** The registers are cut at the breaks, and every segment becomes one member. -/
theorem plan_partitions {registers : List Register} {members : List Member}
    (h : (plan registers).members = .ok members) :
    ∃ segments, CutAtBreaks registers segments ∧
      List.Forall₂ Member.StandsFor segments (members.filter (!·.isPadding)) ∧
      List.Forall₂ Coalescence.Reports (plan registers).coalescences
        (segments.filter (1 < ·.length)) := by
  refine ⟨(runs registers).map Run.registers, cutAtBreaks_runs registers, ?_, ?_⟩
  · rw [(Placed.of_plan h).filter_members, List.forall₂_map_left_iff, List.forall₂_map_right_iff]
    exact List.forall₂_same.mpr fun run _ => run.member_standsFor
  · rw [plan, coalescences_place h]
    exact reports_coalescences _

theorem plan_partitions_families :
    (plan [.empty "tx0".toList 0 none, .empty "tx1".toList 4 none, .empty "rx0".toList 8 none,
        .empty "rx1".toList 12 none, .empty "status".toList 16 none]).members =
      .ok [.array (.empty "tx".toList 0 none) 2, .array (.empty "rx".toList 8 none) 2,
        .register (.empty "status".toList 16 none)] ∧
    ∃ segments, CutAtBreaks [.empty "tx0".toList 0 none, .empty "tx1".toList 4 none,
        .empty "rx0".toList 8 none, .empty "rx1".toList 12 none, .empty "status".toList 16 none]
        segments ∧
      List.Forall₂ Member.StandsFor segments [.array (.empty "tx".toList 0 none) 2,
        .array (.empty "rx".toList 8 none) 2, .register (.empty "status".toList 16 none)] ∧
      List.Forall₂ Coalescence.Reports
        (plan [.empty "tx0".toList 0 none, .empty "tx1".toList 4 none, .empty "rx0".toList 8 none,
          .empty "rx1".toList 12 none, .empty "status".toList 16 none]).coalescences
        (segments.filter (1 < ·.length)) := by
  have hplan : (plan [.empty "tx0".toList 0 none, .empty "tx1".toList 4 none,
        .empty "rx0".toList 8 none, .empty "rx1".toList 12 none,
        .empty "status".toList 16 none]).members =
      .ok [.array (.empty "tx".toList 0 none) 2, .array (.empty "rx".toList 8 none) 2,
        .register (.empty "status".toList 16 none)] := by
    cbv
  exact ⟨hplan, plan_partitions hplan⟩

end RegisterMap
