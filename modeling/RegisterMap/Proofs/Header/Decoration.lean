import RegisterMap.Proofs.Header.Descriptions

/-!
# Decoration of comments

Stars at the start of a line, and blanks around them and behind the line, decorate a
block comment. Its description is what the lines hold apart from that.
-/

namespace RegisterMap.Header.Comment

open Text (Trimmed Stops lines)

/-- A line of a block comment: what it holds, behind any blanks, stars and blanks, and in front of blanks. -/
structure DecoratedLine where
  front : Text
  stars : Nat
  gap : Text
  content : Text
  behind : Text
  front_blank : front.all Text.isBlank
  gap_blank : gap.all Text.isBlank
  behind_blank : behind.all Text.isBlank
  content_trimmed : Trimmed content
  content_no_star : content.head? ≠ some '*'
  one_line : ∀ part ∈ [front, gap, content, behind], '\n' ∉ part

namespace DecoratedLine

def bare (l : DecoratedLine) : Text := List.replicate l.stars '*' ++ l.gap ++ l.content

def text (l : DecoratedLine) : Text := l.front ++ l.bare ++ l.behind

theorem lineFeed_not_mem_text (l : DecoratedLine) : '\n' ∉ l.text := by
  have hparts := l.one_line
  simp only [List.forall_mem_cons] at hparts
  obtain ⟨hfront, hgap, hcontent, hbehind, -⟩ := hparts
  simp [text, bare, hfront, hgap, hcontent, hbehind]

theorem trim_text (l : DecoratedLine) : Text.trim l.text = Text.trim l.bare := by
  rw [text, Text.trim_append_blanks l.behind_blank, Text.trim_blanks_append l.front_blank]

theorem trim_gap_content (l : DecoratedLine) : Text.trim (l.gap ++ l.content) = l.content := by
  rw [Text.trim_blanks_append l.gap_blank, l.content_trimmed.trim_eq]

theorem stops_content (l : DecoratedLine) : Stops (· = '*') l.content := by
  intro c hc hstar
  rw [of_decide_eq_true hstar] at hc
  exact l.content_no_star hc

theorem stops_gap (l : DecoratedLine) : Stops (· = '*') l.gap := by
  intro c hc hstar
  have hblank := List.all_eq_true.mp l.gap_blank c (List.mem_of_mem_head? hc)
  rw [of_decide_eq_true hstar] at hblank
  exact absurd hblank (by decide)

theorem stops_gap_content (l : DecoratedLine) : Stops (· = '*') (l.gap ++ l.content) := by
  by_cases hgap : l.gap = []
  · rw [hgap, List.nil_append]
    exact l.stops_content
  · exact l.stops_gap.append hgap l.content

theorem all_stars (l : DecoratedLine) : (List.replicate l.stars '*').all (· = '*') := by
  simp [List.all_replicate]

/-- Only without stars do the blanks behind them go in the first trim. -/
theorem trim_bare_of_stars {l : DecoratedLine} (hstars : l.stars ≠ 0) (hcontent : l.content ≠ []) :
    Text.trim l.bare = l.bare := by
  have hrun : Trimmed (List.replicate l.stars '*') := by
    constructor
    · intro c hc
      rw [List.eq_of_mem_replicate (List.mem_of_mem_head? hc)]
      decide
    · intro c hc
      rw [List.eq_of_mem_replicate (List.mem_of_mem_getLast? hc)]
      decide
  apply Text.Trimmed.trim_eq
  exact hrun.append l.content_trimmed (by simpa using hstars) hcontent l.gap

theorem undecorated_text (l : DecoratedLine) : undecorated l.text = l.content := by
  by_cases hcontent : l.content = []
  · rw [hcontent, undecorated_eq_nil_iff]
    refine ⟨l.front, List.replicate l.stars '*', l.gap ++ l.behind, ?_, l.front_blank, l.all_stars, ?_⟩
    · simp [text, bare, hcontent]
    · rw [List.all_append, l.gap_blank, l.behind_blank]
      rfl
  · rw [undecorated, trim_text]
    by_cases hstars : l.stars = 0
    · have hbare : l.bare = l.gap ++ l.content := by simp [bare, hstars]
      have hdrop : l.content.dropWhile (· = '*') = l.content :=
        @Text.dropWhile_append_of_stops (· = '*') [] l.content rfl l.stops_content
      rw [hbare, trim_gap_content, hdrop, l.content_trimmed.trim_eq]
    · rw [trim_bare_of_stars hstars hcontent, bare, List.append_assoc,
        Text.dropWhile_append_of_stops l.all_stars l.stops_gap_content, trim_gap_content]

end DecoratedLine

theorem map_undecorated_text (ls : List DecoratedLine) :
    (ls.map DecoratedLine.text).map undecorated = ls.map DecoratedLine.content := by
  rw [List.map_map]
  exact List.map_congr_left fun l _ => l.undecorated_text

theorem filter_undecorated (ls : List DecoratedLine) :
    ((lines (['\n'].intercalate (ls.map DecoratedLine.text))).map undecorated).filter (· ≠ []) =
      (ls.map DecoratedLine.content).filter (· ≠ []) := by
  cases ls with
  | nil => rfl
  | cons l ls =>
    have hlines : ∀ line ∈ (l :: ls).map DecoratedLine.text, '\n' ∉ line := by
      intro line hline
      obtain ⟨l, -, rfl⟩ := List.mem_map.mp hline
      exact l.lineFeed_not_mem_text
    rw [Text.lines_intercalate hlines (by simp), map_undecorated_text]

/-- **Decoration does not matter.** The description in a block comment is what its lines hold, joined by
spaces, without the lines that hold nothing. There is none just when no line holds anything. -/
theorem description_of_decoratedLines (ls : List DecoratedLine) :
    let description := blockText? (['\n'].intercalate (ls.map DecoratedLine.text))
    (description = none ↔ ∀ l ∈ ls, l.content = []) ∧
      (description = some ([' '].intercalate ((ls.map DecoratedLine.content).filter (· ≠ []))) ↔
        ∃ l ∈ ls, l.content ≠ []) := by
  intro description
  have hnone : (ls.map DecoratedLine.content).filter (· ≠ []) = [] ↔ ∀ l ∈ ls, l.content = [] := by
    simp [List.filter_eq_nil_iff]
  have hsome : (∃ l ∈ ls, l.content ≠ []) ↔ ¬ ∀ l ∈ ls, l.content = [] := by
    simp
  rw [hsome, ← hnone]
  simp only [description, blockText?, filter_undecorated]
  split
  · rename_i hnil
    exact ⟨iff_of_true rfl hnil, iff_of_false (by simp) (not_not_intro hnil)⟩
  · rename_i hne
    exact ⟨iff_of_false (by simp) hne, iff_of_true rfl hne⟩

/-- A line with one star, one of stars and blanks alone, and one without stars in front. -/
def starredLines : List DecoratedLine :=
  [⟨" ".toList, 1, " ".toList, "Channel".toList, "\t".toList, rfl, rfl, rfl, by decide, by decide, by decide⟩,
    ⟨[], 3, "  ".toList, [], [], rfl, rfl, rfl, by decide, by decide, by decide⟩,
    ⟨"\u3000".toList, 0, [], "control *".toList, " ".toList, rfl, rfl, rfl, by decide, by decide, by decide⟩]

theorem description_of_starredLines :
    ['\n'].intercalate (starredLines.map DecoratedLine.text) = " * Channel\t\n***  \n\u3000control * ".toList ∧
      blockText? (['\n'].intercalate (starredLines.map DecoratedLine.text)) = some "Channel control *".toList := by
  obtain ⟨-, hsome⟩ := description_of_decoratedLines starredLines
  exact ⟨by decide +kernel, hsome.mpr ⟨_, List.mem_cons_self .., by decide⟩⟩

end RegisterMap.Header.Comment
