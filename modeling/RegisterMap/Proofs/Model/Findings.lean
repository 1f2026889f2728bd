import Mathlib
import RegisterMap.Finding
import RegisterMap.Proofs.Layout.Names

/-!
# Findings

A finding names registers and fields of its peripheral. Where these are named by
words, what is said of a finding stands on one line.
-/

namespace RegisterMap

theorem mem_of_mem_overlappingPairs {f g : Field} : ∀ {fields : List Field},
    (f, g) ∈ overlappingPairs fields → f ∈ fields ∧ g ∈ fields
  | [], h => by cases h
  | first :: rest, h => by
    rw [overlappingPairs, List.mem_append, List.mem_map] at h
    rcases h with ⟨later, hlater, heq⟩ | hrest
    · cases heq
      exact ⟨List.mem_cons_self .., List.mem_cons_of_mem _ (List.takeWhile_subset _ hlater)⟩
    · obtain ⟨hf, hg⟩ := mem_of_mem_overlappingPairs hrest
      exact ⟨List.mem_cons_of_mem _ hf, List.mem_cons_of_mem _ hg⟩

def Finding.names : Finding → List Text
  | .overlap register first second => [register, first, second]
  | .duplicate name _ _ => [name]

theorem names_of_mem_duplicatesAfter {finding : Finding} : ∀ {seen registers : List Register},
    finding ∈ duplicatesAfter seen registers → ∃ r ∈ registers, finding.names = [r.name]
  | _, [], h => by cases h
  | seen, r :: rest, h => by
    have hrest (h : finding ∈ duplicatesAfter (seen ++ [r]) rest) :
        ∃ s ∈ r :: rest, finding.names = [s.name] := by
      obtain ⟨s, hs, hnames⟩ := names_of_mem_duplicatesAfter h
      exact ⟨s, List.mem_cons_of_mem _ hs, hnames⟩
    rw [duplicatesAfter] at h
    split at h
    · rcases List.mem_cons.mp h with rfl | h
      · exact ⟨r, List.mem_cons_self .., rfl⟩
      · exact hrest h
    · exact hrest h

theorem isWord_of_mem_findings {p : Peripheral} (h : ∀ r ∈ p.registers, r.WellNamed) :
    ∀ f ∈ p.findings, ∀ name ∈ f.names, IsWord name := by
  intro finding hfinding name hname
  rcases List.mem_append.mp hfinding with hoverlap | hduplicate
  · obtain ⟨r, hr, hmem⟩ := List.mem_flatMap.mp hoverlap
    obtain ⟨⟨f, g⟩, hpair, rfl⟩ := List.mem_map.mp hmem
    obtain ⟨hf, hg⟩ := mem_of_mem_overlappingPairs hpair
    simp only [Finding.names, List.mem_cons, List.not_mem_nil, or_false] at hname
    rcases hname with rfl | rfl | rfl
    · exact (h r hr).name
    · exact (h r hr).fields f hf
    · exact (h r hr).fields g hg
  · obtain ⟨r, hr, hnames⟩ := names_of_mem_duplicatesAfter hduplicate
    rw [hnames] at hname
    obtain rfl := List.mem_singleton.mp hname
    exact (h r hr).name

theorem lineFeed_not_mem_hexadecimal (n : Nat) : '\n' ∉ Text.hexadecimal n := by
  have hdigits (n : Nat) : '\n' ∉ Nat.toDigits 16 n := by
    induction n using Nat.strongRecOn with
    | ind n ih =>
      rw [Nat.toDigits_eq_if (by decide)]
      by_cases h : n < 16
      · simp [h]
      · have hless := ih (n / 16) (by omega)
        simp [h, hless]
  simp [Text.hexadecimal, hdigits]

theorem Finding.lineFeed_not_mem_message {f : Finding} (h : ∀ name ∈ f.names, IsWord name) :
    '\n' ∉ f.message := by
  have hnames : ∀ name ∈ f.names, '\n' ∉ name := fun name hname => (h name hname).lineFeed_not_mem
  unfold message
  cases f with
  | overlap register first second =>
    obtain ⟨hregister, hfirst, hsecond, -⟩ := by simpa only [names, List.forall_mem_cons] using hnames
    simp only [List.mem_append, not_or]
    refine ⟨⟨⟨⟨⟨hregister, ?_⟩, hfirst⟩, ?_⟩, hsecond⟩, ?_⟩
    all_goals decide
  | duplicate name first second =>
    have hname : '\n' ∉ name := hnames name (List.mem_cons_self ..)
    have hhexadecimal (n : Nat) := lineFeed_not_mem_hexadecimal n
    simp only [List.mem_append, not_or]
    refine ⟨⟨⟨⟨⟨?_, hname⟩, ?_⟩, hhexadecimal _⟩, ?_⟩, hhexadecimal _⟩
    all_goals decide

end RegisterMap
