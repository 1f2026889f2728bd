import RegisterMap.Proofs.Layout.Addresses

/-!
# Where a plan fails

Only the first register of a run is checked. What is known of all registers
that a plan has passed is carried by `Passed`: they are aligned, and the next
free byte is at most one word behind the last one. So a plan fails at the first
register that is not aligned or not above its predecessor, and the next free
byte never leaves the addresses.
-/

namespace RegisterMap

theorem Run.aligned_and_above {run : Run} (hchain : run.registers.IsChain (·.precedes ·))
    (hfirst : wordBytes ∣ run.first.byteOffset.val) :
    ∀ k (hk : k < run.registers.length), wordBytes ∣ run.registers[k].byteOffset.val ∧
      run.first.byteOffset.val + wordBytes * k ≤ run.registers[k].byteOffset.val := by
  intro k
  induction k with
  | zero =>
    intro _
    exact ⟨hfirst, Nat.le_refl _⟩
  | succ k ih =>
    intro hk
    obtain ⟨haligned, habove⟩ := ih (by omega)
    obtain ⟨i, j, -, -, hlt, hstep⟩ :=
      Register.precedes_step (List.isChain_iff_getElem.mp hchain k hk)
    rw [hstep]
    refine ⟨Nat.dvd_add haligned (Nat.dvd_mul_right ..), ?_⟩
    calc run.first.byteOffset.val + wordBytes * (k + 1)
        = run.first.byteOffset.val + wordBytes * k + wordBytes * 1 := by rw [Nat.mul_add, Nat.add_assoc]
      _ ≤ run.registers[k].byteOffset.val + wordBytes * (j - i) :=
        Nat.add_le_add habove (Nat.mul_le_mul_left _ (by omega))

/-! ## What a plan has passed -/

/-- Registers that were placed, with byte `reached` as the next free one. -/
structure Passed (registers : List Register) (reached : Nat) : Prop where
  aligned : ∀ r ∈ registers, wordBytes ∣ r.byteOffset.val
  reached_dvd : wordBytes ∣ reached
  reached_le : reached ≤ registers.getLast?.elim 0 (·.byteOffset.val + wordBytes)

namespace Passed

theorem nil : Passed [] 0 where
  aligned := by simp
  reached_dvd := Nat.dvd_zero _
  reached_le := Nat.le_refl _

theorem reached_le_limit {registers : List Register} {reached : Nat} (h : Passed registers reached) :
    reached ≤ wordLimit := by
  refine Nat.le_trans h.reached_le ?_
  cases hlast : registers.getLast? with
  | none => exact Nat.zero_le _
  | some last =>
    obtain ⟨word, hword⟩ := h.aligned last (List.mem_of_getLast? hlast)
    have hlimit : last.byteOffset.val < wordLimit := last.byteOffset.isLt
    simp only [Option.elim_some, wordLimit, wordBytes] at *
    omega

theorem append_run {registers : List Register} {reached : Nat} {run : Run}
    (h : Passed registers reached) (hchain : run.registers.IsChain (·.precedes ·))
    (hfirst : wordBytes ∣ run.first.byteOffset.val) :
    Passed (registers ++ run.registers) (run.first.byteOffset.val + wordBytes * run.length) := by
  have hrun := run.aligned_and_above hchain hfirst
  refine ⟨?_, Nat.dvd_add hfirst (Nat.dvd_mul_right ..), ?_⟩
  · intro r hr
    rcases List.mem_append.mp hr with hr | hr
    · exact h.aligned r hr
    · obtain ⟨k, hk, rfl⟩ := List.getElem_of_mem hr
      exact (hrun k hk).1
  · have hlength : run.others.length < run.registers.length := Nat.lt_succ_self _
    have hlast : (registers ++ run.registers).getLast? = some run.registers[run.others.length] := by
      have hindex : run.registers.length - 1 = run.others.length := rfl
      rw [List.getLast?_append, List.getLast?_eq_getElem?, hindex,
        List.getElem?_eq_getElem hlength, Option.some_or]
    rw [hlast]
    have habove := (hrun run.others.length hlength).2
    show run.first.byteOffset.val + wordBytes * (run.others.length + 1) ≤ _ + wordBytes
    rw [Nat.mul_add, ← Nat.add_assoc]
    exact Nat.add_le_add_right habove _

end Passed

/-! ## The failing register -/

/-- What is wrong with register `r` behind the registers `before`. -/
inductive LayoutError.FoundAt (before : List Register) (r : Register) : LayoutError → Prop where
  | misaligned (hoffset : ¬ wordBytes ∣ r.byteOffset.val) :
    FoundAt before r (.misaligned r.name r.byteOffset)
  | overlap {previous : Register} {expected : Nat} (hprevious : before.getLast? = some previous)
      (haligned : wordBytes ∣ r.byteOffset.val) (hle : r.byteOffset ≤ previous.byteOffset)
      (hexpected : wordBytes ∣ expected) (hlt : r.byteOffset.val < expected)
      (hlimit : expected ≤ wordLimit) :
    FoundAt before r (.overlap r.name r.byteOffset expected)

theorem error_of_map {α β ε : Type} {f : α → β} {e : ε} {x : Except ε α}
    (h : x.map f = .error e) : x = .error e := by
  cases x with
  | error e' =>
    cases h
    rfl
  | ok a => cases h

theorem place_cons_error {reached paddings : Nat} {run : Run} {rest : List Run} {e : LayoutError}
    (h : (place reached paddings (run :: rest)).members = .error e) :
    let r := run.first
    (¬ wordBytes ∣ r.byteOffset.val ∧ e = .misaligned r.name r.byteOffset) ∨
    (wordBytes ∣ r.byteOffset.val ∧ r.byteOffset.val < reached ∧
      e = .overlap r.name r.byteOffset reached) ∨
    (wordBytes ∣ r.byteOffset.val ∧ ∃ more,
      (place (r.byteOffset.val + wordBytes * run.length) more rest).members = .error e) := by
  intro r
  simp only [place] at h
  split at h
  · rename_i hoffset
    cases h
    exact .inl ⟨fun hdvd => hoffset (Nat.mod_eq_zero_of_dvd hdvd), rfl⟩
  rename_i haligned
  have haligned : wordBytes ∣ r.byteOffset.val :=
    Nat.dvd_of_mod_eq_zero (Decidable.not_not.mp haligned)
  split at h
  · rename_i hlt
    cases h
    exact .inr (.inl ⟨haligned, hlt, rfl⟩)
  · exact .inr (.inr ⟨haligned, _, error_of_map h⟩)

theorem Passed.overlap_foundAt {registers : List Register} {reached : Nat} {r : Register}
    (h : Passed registers reached) (haligned : wordBytes ∣ r.byteOffset.val)
    (hlt : r.byteOffset.val < reached) :
    LayoutError.FoundAt registers r (.overlap r.name r.byteOffset reached) := by
  have hreached := h.reached_le
  cases hlast : registers.getLast? with
  | none =>
    rw [hlast] at hreached
    exact absurd hlt (Nat.not_lt.mpr (Nat.le_trans hreached (Nat.zero_le _)))
  | some previous =>
    rw [hlast, Option.elim_some] at hreached
    have hprevious := h.aligned previous (List.mem_of_getLast? hlast)
    have hle : r.byteOffset.val ≤ previous.byteOffset.val := by
      obtain ⟨i, hi⟩ := haligned
      obtain ⟨j, hj⟩ := hprevious
      simp only [wordBytes] at *
      omega
    exact .overlap hlast haligned hle h.reached_dvd hlt h.reached_le_limit

theorem Passed.foundAt_of_place {registers : List Register} {reached paddings : Nat} {e : LayoutError} :
    ∀ {runs : List Run}, Passed registers reached →
      (∀ run ∈ runs, run.registers.IsChain (·.precedes ·)) →
      (place reached paddings runs).members = .error e →
      ∃ before r after, registers ++ runs.flatMap Run.registers = before ++ r :: after ∧
        (∀ b ∈ before, wordBytes ∣ b.byteOffset.val) ∧ e.FoundAt before r
  | [], _, _, h => by cases h
  | run :: rest, hpassed, hchain, h => by
    obtain ⟨hself, hrest⟩ := List.forall_mem_cons.mp hchain
    have hcut : registers ++ (run :: rest).flatMap Run.registers =
        registers ++ run.first :: (run.others ++ rest.flatMap Run.registers) := rfl
    rcases place_cons_error h with ⟨hoffset, rfl⟩ | ⟨haligned, hlt, rfl⟩ | ⟨haligned, more, hmore⟩
    · exact ⟨registers, run.first, _, hcut, hpassed.aligned, .misaligned hoffset⟩
    · exact ⟨registers, run.first, _, hcut, hpassed.aligned, hpassed.overlap_foundAt haligned hlt⟩
    · rw [List.flatMap_cons, ← List.append_assoc]
      exact foundAt_of_place (hpassed.append_run hself haligned) hrest hmore

theorem foundAt_of_plan {registers : List Register} {e : LayoutError}
    (h : (plan registers).members = .error e) :
    ∃ before r after, registers = before ++ r :: after ∧
      (∀ b ∈ before, wordBytes ∣ b.byteOffset.val) ∧ e.FoundAt before r := by
  have hfound := Passed.nil.foundAt_of_place (fun _ => isChain_registers_of_mem_runs) h
  rwa [List.nil_append, flatMap_registers_runs] at hfound

theorem place_cons_of_fits {reached : Nat} {run : Run} (paddings : Nat) (rest : List Run)
    (haligned : wordBytes ∣ run.first.byteOffset.val) (hle : reached ≤ run.first.byteOffset.val) :
    let offset := run.first.byteOffset.val
    let gap := if reached < offset then
        [Member.padding paddings ((offset - reached) / wordBytes % wordLimit)] else []
    (place reached paddings (run :: rest)).members =
      (place (offset + wordBytes * run.length) (paddings + gap.length) rest).members.map
        (gap ++ run.member :: ·) := by
  intro offset gap
  rw [place, if_neg (not_not_intro (Nat.mod_eq_zero_of_dvd haligned)), if_neg (Nat.not_lt.mpr hle)]

theorem map_append_map {ε α : Type} (xs ys : List α) (e : Except ε (List α)) :
    (e.map (ys ++ ·)).map (xs ++ ·) = e.map (xs ++ ys ++ ·) := by
  cases e with
  | error _ => rfl
  | ok zs => simp only [Except.map, List.append_assoc]

/-- What comes behind placed runs is placed from the end of their members on. -/
theorem Placed.place_append {reached paddings : Nat} {front : List Run} {members : List Member}
    (h : Placed reached paddings front members) (hreached : wordBytes ∣ reached) (back : List Run) :
    ∃ more, (place reached paddings (front ++ back)).members =
      (place (reached + totalBytes members) more back).members.map (members ++ ·) := by
  induction h with
  | @done reached paddings =>
    refine ⟨paddings, ?_⟩
    show _ = (place reached paddings back).members.map id
    cases h : (place reached paddings back).members <;> exact h
  | @adjoin reached paddings run rest members hoffset _ ih =>
    have haligned : wordBytes ∣ run.first.byteOffset.val := hoffset ▸ hreached
    obtain ⟨more, hmore⟩ := ih (Nat.dvd_add hreached (Nat.dvd_mul_right ..))
    refine ⟨more, ?_⟩
    rw [List.cons_append, place_cons_of_fits _ _ haligned (Nat.le_of_eq hoffset.symm), hoffset,
      if_neg (Nat.lt_irrefl _)]
    show (place _ paddings _).members.map ([run.member] ++ ·) = _
    rw [hmore, map_append_map, totalBytes_member, Nat.add_assoc]
    rfl
  | @skip reached paddings words run rest members hwords hoffset _ ih =>
    have haligned : wordBytes ∣ run.first.byteOffset.val :=
      hoffset ▸ Nat.dvd_add hreached (Nat.dvd_mul_right ..)
    obtain ⟨more, hmore⟩ := ih
      (Nat.dvd_add (Nat.dvd_add hreached (Nat.dvd_mul_right ..)) (Nat.dvd_mul_right ..))
    have hlt : reached < reached + wordBytes * words :=
      Nat.lt_add_of_pos_right (Nat.mul_pos (by decide) hwords)
    -- The gap ends at an offset, so its words are counted without loss.
    have hlimit : words < wordLimit := by
      have := run.first.byteOffset.isLt
      simp only [wordBytes] at *
      omega
    refine ⟨more, ?_⟩
    rw [List.cons_append, place_cons_of_fits _ _ haligned (hoffset ▸ Nat.le_of_lt hlt), hoffset,
      if_pos hlt, Nat.add_sub_cancel_left, Nat.mul_div_cancel_left _ (by decide),
      Nat.mod_eq_of_lt hlimit]
    show (place _ (paddings + 1) _).members.map ([.padding paddings words, run.member] ++ ·) = _
    rw [hmore, map_append_map, totalBytes_cons, totalBytes_member]
    simp only [Member.bytes, Member.words, Nat.add_assoc]
    rfl

theorem Placed.passed {reached paddings : Nat} {front : List Run} {members : List Member}
    {registers : List Register} (h : Placed reached paddings front members)
    (hpassed : Passed registers reached) (hchain : ∀ run ∈ front, run.registers.IsChain (·.precedes ·)) :
    Passed (registers ++ front.flatMap Run.registers) (reached + totalBytes members) := by
  induction h generalizing registers with
  | done => simpa [totalBytes] using hpassed
  | @adjoin reached _ run rest _ hoffset _ ih =>
    obtain ⟨hself, hrest⟩ := List.forall_mem_cons.mp hchain
    have hrun := hpassed.append_run hself (hoffset ▸ hpassed.reached_dvd)
    rw [hoffset] at hrun
    rw [List.flatMap_cons, ← List.append_assoc, totalBytes_member, ← Nat.add_assoc]
    exact ih hrun hrest
  | @skip reached _ words run rest _ _ hoffset _ ih =>
    obtain ⟨hself, hrest⟩ := List.forall_mem_cons.mp hchain
    have hrun := hpassed.append_run hself
      (hoffset ▸ Nat.dvd_add hpassed.reached_dvd (Nat.dvd_mul_right ..))
    rw [hoffset] at hrun
    rw [List.flatMap_cons, ← List.append_assoc, totalBytes_cons, totalBytes_member, ← Nat.add_assoc,
      ← Nat.add_assoc]
    exact ih hrun hrest

/-! ## No false alarm -/

theorem isChain_lt_of_append {before after : List Register} {previous r : Register}
    (h : (before ++ r :: after).IsChain (·.byteOffset < ·.byteOffset))
    (hprevious : before.getLast? = some previous) : previous.byteOffset < r.byteOffset :=
  (List.isChain_append.mp h).2.2 previous hprevious r rfl

/-- How planning a list of registers can fail, and how far it can get. -/
structure PlansInRange (registers : List Register) : Prop where
  /-- An error names the first register at fault. -/
  error_at : ∀ e, (plan registers).members = .error e →
    ∃ before r after, registers = before ++ r :: after ∧
      (∀ b ∈ before, wordBytes ∣ b.byteOffset.val) ∧ e.FoundAt before r
  ok_of_increasing : (∀ r ∈ registers, wordBytes ∣ r.byteOffset.val) →
    registers.IsChain (·.byteOffset < ·.byteOffset) → ∃ members, (plan registers).members = .ok members
  /-- Behind the runs at the front, planning goes on from the end of their members, which is at
  most the end of all addresses. -/
  reached_le : ∀ front back members, runs registers = front ++ back →
    (place 0 0 front).members = .ok members → totalBytes members ≤ wordLimit ∧
      ∃ paddings, (plan registers).members =
        (place (totalBytes members) paddings back).members.map (members ++ ·)

theorem plan_ok_of_increasing {registers : List Register}
    (haligned : ∀ r ∈ registers, wordBytes ∣ r.byteOffset.val)
    (hlt : registers.IsChain (·.byteOffset < ·.byteOffset)) :
    ∃ members, (plan registers).members = .ok members := by
  cases h : (plan registers).members with
  | ok members => exact ⟨members, rfl⟩
  | error e =>
    obtain ⟨before, r, after, rfl, -, hfound⟩ := foundAt_of_plan h
    cases hfound with
    | misaligned hoffset => exact absurd (haligned r (by simp)) hoffset
    | overlap hprevious _ hle =>
      exact absurd (isChain_lt_of_append hlt hprevious) (Fin.not_lt.mpr hle)

theorem totalBytes_front_le {registers : List Register} {front back : List Run} {members : List Member}
    (hruns : runs registers = front ++ back) (h : (place 0 0 front).members = .ok members) :
    totalBytes members ≤ wordLimit ∧ ∃ paddings, (plan registers).members =
      (place (totalBytes members) paddings back).members.map (members ++ ·) := by
  have hplaced := Placed.of_place (Nat.dvd_zero _) h
  have hchain : ∀ run ∈ front, run.registers.IsChain (·.precedes ·) := fun run hrun =>
    isChain_registers_of_mem_runs (by rw [hruns]; exact List.mem_append_left _ hrun)
  have hpassed := hplaced.passed .nil hchain
  have hbehind := hplaced.place_append (Nat.dvd_zero _) back
  rw [Nat.zero_add] at hpassed hbehind
  rw [plan, hruns]
  exact ⟨hpassed.reached_le_limit, hbehind⟩

/-- **No false alarm.** The last part is about registers in order of their offsets, as a
peripheral keeps them: there, nothing but two registers at one offset overlaps. -/
theorem plan_inRange :
    (∀ registers, PlansInRange registers) ∧
    ∀ (p : Peripheral) (register : Text) (offset : Word) (expected : Nat),
      p.plan.members = .error (.overlap register offset expected) →
      ∃ before a b after, p.registers = before ++ a :: b :: after ∧ a.byteOffset = offset ∧
        b.byteOffset = offset ∧ b.name = register := by
  refine ⟨fun registers => ⟨fun _ => foundAt_of_plan, plan_ok_of_increasing,
    fun _ _ _ => totalBytes_front_le⟩, ?_⟩
  intro p register offset expected h
  obtain ⟨before, b, after, hcut, -, hfound⟩ := foundAt_of_plan h
  cases hfound with
  | @overlap a _ ha _ hle =>
    obtain ⟨front, rfl⟩ := List.getLast?_eq_some_iff.mp ha
    have hsorted := p.sorted
    rw [hcut, List.append_assoc, List.singleton_append] at hsorted
    have hge : a.byteOffset ≤ b.byteOffset :=
      (List.pairwise_cons.mp (List.pairwise_append.mp hsorted).2.1).1 b (by simp)
    refine ⟨front, a, b, after, ?_, Fin.le_antisymm hge hle, rfl, rfl⟩
    rw [hcut, List.append_assoc, List.singleton_append]

/-- Two registers at the last word, behind which the next free byte is the end of all addresses. -/
theorem plan_inRange_last_word :
    (Peripheral.addAll (.empty "dev".toList none)
        [.empty "a".toList 4294967292 none, .empty "b".toList 4294967292 none]).plan.members =
      .error (.overlap "b".toList 4294967292 4294967296) ∧
    ∃ before a b after, (Peripheral.addAll (.empty "dev".toList none)
        [.empty "a".toList 4294967292 none, .empty "b".toList 4294967292 none]).registers =
        before ++ a :: b :: after ∧ a.byteOffset = 4294967292 ∧ b.byteOffset = 4294967292 ∧
      b.name = "b".toList := by
  have hplan : (Peripheral.addAll (.empty "dev".toList none)
        [.empty "a".toList 4294967292 none, .empty "b".toList 4294967292 none]).plan.members =
      .error (.overlap "b".toList 4294967292 4294967296) := by
    cbv
  exact ⟨hplan, plan_inRange.2 _ _ _ _ hplan⟩

end RegisterMap
