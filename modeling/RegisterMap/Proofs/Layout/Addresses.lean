import RegisterMap.Proofs.Layout.Placement
import RegisterMap.Proofs.Layout.Precedence

/-!
# Addresses of array elements

A register of a run stands as many words behind the first one as its index is
above the first index, while an array gives each register one word. The two
agree for a register exactly when no index is skipped before it.
-/

namespace RegisterMap

theorem isChain_addresses {a : Register} {i₀ : Nat} (ha : a.index? = some i₀) :
    ∀ {others : List Register}, (a :: others).IsChain (·.precedes ·) →
      ∀ k (hk : k < (a :: others).length), ∃ i, (a :: others)[k].index? = some i ∧ i₀ + k ≤ i ∧
        (a :: others)[k].byteOffset.val = a.byteOffset.val + wordBytes * (i - i₀) := by
  intro others hchain k
  induction k with
  | zero =>
    intro _
    exact ⟨i₀, ha, Nat.le_refl _, by simp⟩
  | succ k ih =>
    intro hk
    obtain ⟨i, hi, hle, hoffset⟩ := ih (by omega)
    obtain ⟨i', j, hi', hj, hlt, hstep⟩ :=
      Register.precedes_step (List.isChain_iff_getElem.mp hchain k hk)
    rw [hi, Option.some_inj] at hi'
    subst hi'
    refine ⟨j, hj, by omega, ?_⟩
    rw [hstep, hoffset, Nat.add_assoc, ← Nat.mul_add]
    congr 2
    omega

theorem Placed.reached_le {reached paddings : Nat} {runs : List Run} {members : List Member}
    (h : Placed reached paddings runs members)
    (hchain : ∀ run ∈ runs, run.registers.IsChain (·.precedes ·)) :
    ∀ r ∈ runs.flatMap Run.registers, reached ≤ r.byteOffset.val := by
  -- No register of a run is below the first.
  have hrun {run : Run} (hrun : run.registers.IsChain (·.precedes ·)) :
      ∀ r ∈ run.registers, run.first.byteOffset.val ≤ r.byteOffset.val := by
    have hle : run.registers.IsChain (fun a b => a.byteOffset.val ≤ b.byteOffset.val) :=
      hrun.imp fun a b hab => by
        obtain ⟨i, j, -, -, -, hstep⟩ := Register.precedes_step hab
        omega
    have htrans : IsTrans Register fun a b => a.byteOffset.val ≤ b.byteOffset.val :=
      ⟨fun _ _ _ => Nat.le_trans⟩
    simp only [Run.registers, List.forall_mem_cons, Nat.le_refl, true_and]
    exact (List.pairwise_cons.mp hle.pairwise).1
  induction h with
  | done => simp
  | @adjoin reached _ run rest _ hoffset _ ih =>
    obtain ⟨hfirst, hrest⟩ := List.forall_mem_cons.mp hchain
    intro r hr
    rw [List.flatMap_cons, List.mem_append] at hr
    rcases hr with hr | hr
    · exact hoffset ▸ hrun hfirst r hr
    · exact Nat.le_trans (Nat.le_add_right ..) (ih hrest r hr)
  | @skip reached _ words run rest _ _ hoffset _ ih =>
    obtain ⟨hfirst, hrest⟩ := List.forall_mem_cons.mp hchain
    intro r hr
    rw [List.flatMap_cons, List.mem_append] at hr
    rcases hr with hr | hr
    · have := hrun hfirst r hr
      omega
    · have := ih hrest r hr
      omega

/-- Registers that make up an array at byte `start`, and what was planned behind them. -/
structure ElementAddresses (start : Nat) (elements behind : List Register) : Prop where
  first_eq : ∀ r ∈ elements.head?, r.byteOffset.val = start
  /-- The `k`-th register is the `k`-th word if and only if no index before it is skipped. -/
  word_iff : ∀ k (hk : k < elements.length), ∃ i₀ i,
    elements.head?.bind Register.index? = some i₀ ∧ elements[k].index? = some i ∧ i₀ + k ≤ i ∧
      elements[k].byteOffset.val = start + wordBytes * (i - i₀) ∧
      (elements[k].byteOffset.val = start + wordBytes * k ↔ i = i₀ + k)
  behind_ge : ∀ r ∈ behind, start + wordBytes * elements.length ≤ r.byteOffset.val

/-- **Element addresses.** An array gives its registers consecutive words, which are their own
words exactly as far as their indices are consecutive. -/
theorem plan_elementAddresses {registers : List Register} {members before after : List Member}
    {template : Register} {length : Nat} (h : (plan registers).members = .ok members)
    (hm : members = before ++ .array template length :: after) :
    ∃ elements behind, registers.drop (totalRegisters before) = elements ++ behind ∧
      elements.length = length ∧ Member.StandsFor elements (.array template length) ∧
      ElementAddresses (totalBytes before) elements behind := by
  obtain ⟨front, run, rest, more, hruns, hmember, hcount, hoffset, hplaced⟩ :=
    (Placed.of_plan h).split hm rfl
  rw [Nat.zero_add] at hoffset hplaced
  have hchain : ∀ r ∈ runs registers, r.registers.IsChain (·.precedes ·) :=
    fun _ => isChain_registers_of_mem_runs
  have hself : run.registers.IsChain (·.precedes ·) := hchain run (by simp [hruns])
  have hlength : run.registers.length = length := by
    rw [← run.registerCount_member, ← hmember]
    rfl
  have hdrop : registers.drop (totalRegisters before) =
      run.registers ++ rest.flatMap Run.registers := by
    rw [← flatMap_registers_runs registers, hruns, hcount, List.flatMap_append, List.drop_left]
    rfl
  refine ⟨run.registers, _, hdrop, hlength, hmember ▸ run.member_standsFor, ?_, ?_, ?_⟩
  · intro r hr
    cases hr
    exact hoffset
  · obtain ⟨first, others⟩ := run
    cases others with
    | nil => cases hmember
    | cons second others =>
      obtain ⟨i₀, _, hi₀, -⟩ := Register.precedes_step (List.isChain_cons_cons.mp hself).1
      intro k hk
      obtain ⟨i, hi, hle, haddress⟩ := isChain_addresses hi₀ hself k hk
      rw [hoffset] at haddress
      refine ⟨i₀, i, hi₀, hi, hle, haddress, ?_⟩
      show ((first :: second :: others)[k].byteOffset.val = _ ↔ _)
      rw [haddress, Nat.add_left_cancel_iff, Nat.mul_right_inj (by decide)]
      omega
  · intro r hr
    exact hplaced.reached_le (fun run hrun => hchain run (by simp [hruns, hrun])) r hr

theorem plan_elementAddresses_consecutive :
    (plan [.empty "ch0_ctrl".toList 0 none, .empty "ch1_ctrl".toList 4 none,
        .empty "status".toList 12 none]).members =
      .ok [.array (.empty "ch_ctrl".toList 0 none) 2, .padding 0 1,
        .register (.empty "status".toList 12 none)] ∧
    ∃ elements behind, [.empty "ch0_ctrl".toList 0 none, .empty "ch1_ctrl".toList 4 none,
        .empty "status".toList 12 none] = elements ++ behind ∧ elements.length = 2 ∧
      Member.StandsFor elements (.array (.empty "ch_ctrl".toList 0 none) 2) ∧
      ElementAddresses 0 elements behind := by
  refine ⟨by cbv, ?_⟩
  exact @plan_elementAddresses _ _ [] _ _ _ (by cbv) rfl

/-- Where an index is skipped, a register is declared at a word that is not its own. -/
theorem element_of_skipping_array_displaced :
    ¬ ∀ (registers : List Register) (members before after : List Member) (template : Register)
        (length : Nat), (plan registers).members = .ok members →
      members = before ++ .array template length :: after →
      ∀ k < length, ∀ r₀ r, registers[totalRegisters before]? = some r₀ →
        registers[totalRegisters before + k]? = some r →
        r.byteOffset.val = r₀.byteOffset.val + wordBytes * k := by
  intro h
  have hplan : (plan [.empty "ch0_ctrl".toList 0 none, .empty "ch2_ctrl".toList 8 none]).members =
      .ok [.array (.empty "ch_ctrl".toList 0 none) 2] := by
    cbv
  have := h _ _ [] [] _ 2 hplan rfl 1 (by decide) _ _ rfl rfl
  exact absurd this (by decide)

end RegisterMap
