import RegisterMap.Layout.Declaration
import RegisterMap.Proofs.Layout.Runs

/-!
# Placement

What a plan is made of when no check fails. `Placed` says it step by step, and
`Placed.of_place` is the only place that opens `place` for it. The members then
fill the bytes from 0 on without gap or overlap, up to the first register of
each run.
-/

namespace RegisterMap

namespace Member

def isPadding : Member → Bool
  | .padding .. => true
  | _ => false

def paddingIndex? : Member → Option Nat
  | .padding index _ => some index
  | _ => none

def bytes (m : Member) : Nat := wordBytes * m.words

def registerCount : Member → Nat
  | .padding .. => 0
  | .register _ => 1
  | .array _ length => length

/-- The member declares these registers, all of them and no others. -/
inductive StandsFor : List Register → Member → Prop where
  | register (r : Register) : StandsFor [r] (.register r)
  | array (r : Register) {others : List Register} (h : others ≠ []) :
    StandsFor (r :: others) (.array r.template (others.length + 1))

end Member

def totalBytes (members : List Member) : Nat := (members.map Member.bytes).sum

def totalRegisters (members : List Member) : Nat := (members.map Member.registerCount).sum

theorem totalBytes_cons (m : Member) (members : List Member) :
    totalBytes (m :: members) = m.bytes + totalBytes members := by
  simp [totalBytes]

theorem totalBytes_concat (members : List Member) (m : Member) :
    totalBytes (members ++ [m]) = totalBytes members + m.bytes := by
  simp [totalBytes]

theorem totalRegisters_cons (m : Member) (members : List Member) :
    totalRegisters (m :: members) = m.registerCount + totalRegisters members := by
  simp [totalRegisters]

namespace Run

theorem member_standsFor (run : Run) : run.member.StandsFor run.registers := by
  obtain ⟨first, others⟩ := run
  by_cases h : others = []
  · subst h
    exact .register first
  · simp only [member, h, ite_false]
    exact .array first h

theorem isPadding_member (run : Run) : run.member.isPadding = false := by
  unfold member
  split <;> rfl

theorem paddingIndex?_member (run : Run) : run.member.paddingIndex? = none := by
  unfold member
  split <;> rfl

theorem words_member (run : Run) : run.member.words = run.length := by
  unfold member
  split
  · rename_i h
    simp [Member.words, length, h]
  · rfl

theorem registerCount_member (run : Run) : run.member.registerCount = run.registers.length := by
  unfold member
  split
  · rename_i h
    simp [Member.registerCount, registers, h]
  · rfl

end Run

/-! ## Successful placements -/

/-- The members of runs that are placed from byte `reached` on, after so many
paddings, when every check holds. -/
inductive Placed : Nat → Nat → List Run → List Member → Prop where
  | done {reached paddings : Nat} : Placed reached paddings [] []
  | adjoin {reached paddings : Nat} {run : Run} {rest : List Run} {members : List Member}
      (hoffset : run.first.byteOffset.val = reached)
      (hrest : Placed (reached + wordBytes * run.length) paddings rest members) :
      Placed reached paddings (run :: rest) (run.member :: members)
  | skip {reached paddings words : Nat} {run : Run} {rest : List Run} {members : List Member}
      (hwords : 0 < words) (hoffset : run.first.byteOffset.val = reached + wordBytes * words)
      (hrest : Placed (reached + wordBytes * words + wordBytes * run.length) (paddings + 1) rest
        members) :
      Placed reached paddings (run :: rest) (.padding paddings words :: run.member :: members)

theorem place_cons_ok {reached paddings : Nat} {run : Run} {rest : List Run} {members : List Member}
    (h : (place reached paddings (run :: rest)).members = .ok members) :
    let offset := run.first.byteOffset.val
    let gap := if reached < offset then
        [Member.padding paddings ((offset - reached) / wordBytes % wordLimit)] else []
    let behind := place (offset + wordBytes * run.length) (paddings + gap.length) rest
    wordBytes ∣ offset ∧ reached ≤ offset ∧
      (place reached paddings (run :: rest)).coalescences = run.coalescences ++ behind.coalescences ∧
      ∃ more, behind.members = .ok more ∧ members = gap ++ run.member :: more := by
  intro offset gap behind
  simp only [place] at h ⊢
  split at h
  · cases h
  split at h
  · cases h
  rename_i haligned hreached
  rw [if_neg haligned, if_neg hreached]
  refine ⟨Nat.dvd_of_mod_eq_zero (Decidable.not_not.mp haligned), Nat.le_of_not_lt hreached, rfl, ?_⟩
  cases hbehind : behind.members with
  | error e =>
    simp only [behind, gap, offset] at hbehind
    rw [hbehind] at h
    cases h
  | ok more =>
    simp only [behind, gap, offset] at hbehind
    rw [hbehind] at h
    cases h
    exact ⟨more, rfl, rfl⟩

theorem Placed.of_place : ∀ {runs : List Run} {reached paddings : Nat} {members : List Member},
    wordBytes ∣ reached → (place reached paddings runs).members = .ok members →
      Placed reached paddings runs members
  | [], _, _, _, _, h => by
    cases h
    exact .done
  | run :: rest, reached, paddings, members, hreached, h => by
    obtain ⟨hoffset, hle, -, more, hmore, rfl⟩ := place_cons_ok h
    have hbehind := Placed.of_place
      (Nat.dvd_add hoffset (Nat.dvd_mul_right wordBytes run.length)) hmore
    rcases Nat.lt_or_eq_of_le hle with hlt | heq
    · obtain ⟨words, hwords⟩ := Nat.dvd_sub hoffset hreached
      have hlimit := run.first.byteOffset.isLt
      have hbound : words ≤ wordBytes * words := Nat.le_mul_of_pos_left words (by decide)
      have hpos : 0 < words := by
        rcases Nat.eq_zero_or_pos words with rfl | hpos
        · omega
        · exact hpos
      have hmod : words % wordLimit = words := Nat.mod_eq_of_lt (by omega)
      have heq : run.first.byteOffset.val = reached + wordBytes * words := by omega
      rw [if_pos hlt] at hbehind ⊢
      rw [hwords, Nat.mul_div_cancel_left words (by decide), hmod] at hbehind ⊢
      rw [heq] at hbehind
      exact .skip hpos heq hbehind
    · rw [if_neg (by omega)] at hbehind ⊢
      rw [← heq] at hbehind
      exact .adjoin heq.symm hbehind

theorem Placed.of_plan {registers : List Register} {members : List Member}
    (h : (plan registers).members = .ok members) : Placed 0 0 (runs registers) members :=
  .of_place (Nat.dvd_zero _) h

/-! ## Declared registers -/

def Member.register? : Member → Option Register
  | .padding .. => none
  | .register r => some r
  | .array template _ => some template

theorem Placed.forall_mem {P : Member → Prop} (hpadding : ∀ index words, P (.padding index words))
    {reached paddings : Nat} {runs : List Run} {members : List Member}
    (h : Placed reached paddings runs members) (hrun : ∀ run ∈ runs, P run.member) :
    ∀ m ∈ members, P m := by
  induction h with
  | done => simp
  | adjoin _ _ ih =>
    simp only [List.forall_mem_cons] at hrun ⊢
    exact ⟨hrun.1, ih hrun.2⟩
  | skip _ _ _ ih =>
    simp only [List.forall_mem_cons] at hrun ⊢
    exact ⟨hpadding _ _, hrun.1, ih hrun.2⟩

theorem first_mem_of_mem_runs {registers : List Register} {run : Run} (h : run ∈ runs registers) :
    run.first ∈ registers := by
  rw [← flatMap_registers_runs registers]
  exact List.mem_flatMap.mpr ⟨run, h, List.mem_cons_self ..⟩

theorem forall_register?_of_plan {P : Register → Prop} (htemplate : ∀ r, P r → P r.template)
    {registers : List Register} (hall : ∀ r ∈ registers, P r) {members : List Member}
    (h : (plan registers).members = .ok members) : ∀ m ∈ members, ∀ r ∈ m.register?, P r := by
  refine (Placed.of_plan h).forall_mem (P := fun m => ∀ r ∈ m.register?, P r) ?_ ?_
  · intro index words r hr
    cases hr
  · intro run hmem r hr
    have hfirst := hall _ (first_mem_of_mem_runs hmem)
    unfold Run.member at hr
    split at hr
    · cases hr
      exact hfirst
    · cases hr
      exact htemplate _ hfirst

namespace Layout

variable {l : Layout} {P : Register → Prop} (hall : ∀ m ∈ l.members, ∀ r ∈ m.register?, P r)
include hall

theorem forall_bitTypes {Q : BitType → Prop}
    (h : ∀ r, P r → ∀ length, ∀ t ∈ r.bitType? l.name length, Q t) : ∀ t ∈ l.bitTypes, Q t := by
  intro t ht
  obtain ⟨m, hm, hmt⟩ := List.mem_filterMap.mp ht
  cases m with
  | padding => cases hmt
  | register r => exact h r (hall _ hm r rfl) none t hmt
  | array template length => exact h template (hall _ hm template rfl) (some length) t hmt

theorem forall_slots {Q : Slot → Prop} (hpadding : ∀ index words, Q (.padding index words))
    (h : ∀ r, P r → ∀ length, Q (r.slot l.name length)) : ∀ s ∈ l.aggregate.slots, Q s := by
  intro s hs
  obtain ⟨m, hm, rfl⟩ := List.mem_map.mp hs
  cases m with
  | padding index words => exact hpadding index words
  | register r => exact h r (hall _ hm r rfl) none
  | array template length => exact h template (hall _ hm template rfl) (some length)

end Layout

theorem Peripheral.layout_eq_ok {p : Peripheral} {l : Layout} (h : p.layout = .ok l) :
    l.name = p.name ∧ l.description = p.description ∧ p.plan.members = .ok l.members := by
  rw [layout] at h
  cases hplan : p.plan.members with
  | error e =>
    rw [hplan] at h
    cases h
  | ok members =>
    rw [hplan] at h
    cases h
    exact ⟨rfl, rfl, rfl⟩

theorem totalBytes_member (run : Run) (before : List Member) :
    totalBytes (run.member :: before) = wordBytes * run.length + totalBytes before := by
  rw [totalBytes_cons, Member.bytes, Run.words_member]

theorem totalRegisters_member (run : Run) (before : List Member) :
    totalRegisters (run.member :: before) = run.registers.length + totalRegisters before := by
  rw [totalRegisters_cons, Run.registerCount_member]

/-- A member that declares registers was placed for one run: what comes before
it took the runs before that one, and the rest is placed behind it. -/
theorem Placed.split {reached paddings : Nat} {runs : List Run} {members : List Member}
    (h : Placed reached paddings runs members) {before after : List Member} {m : Member}
    (hm : members = before ++ m :: after) (hpadding : m.isPadding = false) :
    ∃ front run rest more, runs = front ++ run :: rest ∧ m = run.member ∧
      totalRegisters before = (front.flatMap Run.registers).length ∧
      run.first.byteOffset.val = reached + totalBytes before ∧
      Placed (reached + totalBytes before + wordBytes * run.length) more rest after := by
  induction h generalizing before with
  | done => cases before <;> cases hm
  | @adjoin reached paddings run rest members hoffset hrest ih =>
    rcases List.cons_eq_append_iff.mp hm with ⟨rfl, hcons⟩ | ⟨before, rfl, hmore⟩
    · cases hcons
      exact ⟨[], run, rest, paddings, rfl, rfl, rfl, hoffset, hrest⟩
    · obtain ⟨front, run', rest', more, rfl, rfl, hcount, hfirst, hbehind⟩ := ih hmore
      refine ⟨run :: front, run', rest', more, rfl, rfl, ?_, ?_, ?_⟩
      · rw [totalRegisters_member, hcount, List.flatMap_cons, List.length_append]
      · rw [hfirst, totalBytes_member, Nat.add_assoc]
      · rwa [totalBytes_member, ← Nat.add_assoc]
  | @skip reached paddings words run rest members _ hoffset hrest ih =>
    rcases List.cons_eq_append_iff.mp hm with ⟨rfl, hcons⟩ | ⟨before, rfl, hbehind⟩
    · cases hcons
      cases hpadding
    -- The padding is passed over, so it is the first of the members before `m`.
    have hgap (ms : List Member) :
        totalBytes (.padding paddings words :: ms) = wordBytes * words + totalBytes ms :=
      totalBytes_cons ..
    have hnone (ms : List Member) :
        totalRegisters (.padding paddings words :: ms) = totalRegisters ms := by
      rw [totalRegisters_cons, Member.registerCount, Nat.zero_add]
    rcases List.cons_eq_append_iff.mp hbehind with ⟨rfl, hcons⟩ | ⟨before, rfl, hmore⟩
    · cases hcons
      refine ⟨[], run, rest, paddings + 1, rfl, rfl, ?_, ?_, ?_⟩
      · rw [hnone]; rfl
      · rw [hgap, hoffset]; rfl
      · rw [hgap]; exact hrest
    · obtain ⟨front, run', rest', more, rfl, rfl, hcount, hfirst, hbehind⟩ := ih hmore
      refine ⟨run :: front, run', rest', more, rfl, rfl, ?_, ?_, ?_⟩
      · rw [hnone, totalRegisters_member, hcount, List.flatMap_cons, List.length_append]
      · rw [hfirst, hgap, totalBytes_member]
        simp only [Nat.add_assoc]
      · rw [hgap, totalBytes_member]
        simpa only [Nat.add_assoc] using hbehind

theorem exists_run_of_member {registers : List Register} {members before after : List Member} {m : Member}
    (h : (plan registers).members = .ok members) (hm : members = before ++ m :: after)
    (hpadding : m.isPadding = false) :
    ∃ run behind, run ∈ runs registers ∧ m = run.member ∧
      registers.drop (totalRegisters before) = run.registers ++ behind := by
  obtain ⟨front, run, rest, more, hruns, hmember, hcount, -, -⟩ := (Placed.of_plan h).split hm hpadding
  refine ⟨run, rest.flatMap Run.registers, by simp [hruns], hmember, ?_⟩
  rw [← flatMap_registers_runs registers, hruns, hcount, List.flatMap_append, List.drop_left]
  rfl

end RegisterMap
