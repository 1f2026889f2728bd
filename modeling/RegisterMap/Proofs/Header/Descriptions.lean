import RegisterMap.Proofs.Header.Written
import RegisterMap.Proofs.Text.Blank
import RegisterMap.Proofs.Text.Line

/-!
# Descriptions read back

Cleaning a comment body does not see the blanks that the comment marks stand
behind, and gives plain text back as it is.
-/

namespace RegisterMap

namespace Header

open Text (lines)

namespace Comment

theorem undecorated_cons_space (line : Text) : undecorated (' ' :: line) = undecorated line := by
  rw [undecorated, Text.trim_cons_blank (by decide)]
  rfl

theorem undecorated_concat_space (line : Text) : undecorated (line ++ [' ']) = undecorated line := by
  rw [undecorated, Text.trim_concat_blank (by decide)]
  rfl

theorem map_undecorated_cons_space (body : Text) :
    (lines (' ' :: body)).map undecorated = (lines body).map undecorated := by
  rw [lines, lines]
  by_cases hbody : '\n' ∈ body
  · obtain ⟨line, rest, rfl, hline⟩ := List.eq_append_cons_of_mem hbody
    have hline' : '\n' ∉ ' ' :: line := by simp [hline]
    rw [← List.cons_append, List.splitOn_append_cons_self_of_not_mem hline',
      List.splitOn_append_cons_self_of_not_mem hline, List.map_cons, List.map_cons,
      undecorated_cons_space]
  · have hbody' : '\n' ∉ ' ' :: body := by simp [hbody]
    rw [List.splitOn_eq_singleton hbody', List.splitOn_eq_singleton hbody, List.map_singleton,
      List.map_singleton, undecorated_cons_space]

theorem map_undecorated_concat_space (body : Text) :
    (lines (body ++ [' '])).map undecorated = (lines body).map undecorated := by
  rw [lines, lines]
  by_cases hbody : '\n' ∈ body
  · obtain ⟨line, rest, rfl, _⟩ := List.eq_append_cons_of_mem hbody
    have ih := map_undecorated_concat_space rest
    rw [lines, lines] at ih
    rw [List.append_assoc, List.cons_append, List.splitOn_append_cons_self,
      List.splitOn_append_cons_self, List.map_append, List.map_append, ih]
  · have hbody' : '\n' ∉ body ++ [' '] := by simp [hbody]
    rw [List.splitOn_eq_singleton hbody', List.splitOn_eq_singleton hbody, List.map_singleton,
      List.map_singleton, undecorated_concat_space]
termination_by body.length

theorem blockText?_padded (body : Text) : blockText? (' ' :: body ++ [' ']) = blockText? body := by
  have hlines : (lines (' ' :: body ++ [' '])).map undecorated = (lines body).map undecorated := by
    rw [map_undecorated_concat_space, map_undecorated_cons_space]
  rw [blockText?, blockText?, hlines]

theorem blockText?_of_isPlain {d : Remark} (hd : d.isPlain) : blockText? d.text = some d.text := by
  rw [Remark.isPlain, decide_eq_true_eq] at hd
  obtain ⟨hne, hline, htrim, hstar⟩ := hd
  have hdrop : d.text.dropWhile (· = '*') = d.text := by
    cases h : d.text with
    | nil => exact absurd h hne
    | cons c rest =>
      rw [h, List.head?_cons, ne_eq, Option.some_inj] at hstar
      exact List.dropWhile_cons_of_neg (by simpa using hstar)
  have hclean : undecorated d.text = d.text := by rw [undecorated, htrim, hdrop, htrim]
  rw [blockText?, lines, List.splitOn_eq_singleton hline, List.map_singleton, hclean]
  simp [hne]

theorem blockText?_not_blank {body d : Text} (h : blockText? body = some d) : ¬ d.all Text.isBlank := by
  unfold blockText? at h
  cases hlines : (body.lines.map undecorated).filter (· ≠ []) with
  | nil =>
    rw [hlines] at h
    cases h
  | cons line lines =>
    rw [hlines] at h
    cases h
    have hline : line ∈ (body.lines.map undecorated).filter (· ≠ []) := by
      rw [hlines]
      exact List.mem_cons_self ..
    obtain ⟨hmap, hne⟩ := List.mem_filter.mp hline
    obtain ⟨raw, -, rfl⟩ := List.mem_map.mp hmap
    intro hall
    refine Text.trim_not_blank (of_decide_eq_true hne) (List.all_eq_true.mpr fun c hc => ?_)
    exact List.all_eq_true.mp hall c (Text.subset_intercalate [' '] (List.mem_cons_self ..) hc)

/-- Nothing but blanks around one run of stars. -/
def IsDecoration (line : Text) : Prop :=
  ∃ front stars behind, line = front ++ stars ++ behind ∧ front.all Text.isBlank ∧
    stars.all (· = '*') ∧ behind.all Text.isBlank

theorem undecorated_eq_nil_iff {line : Text} : undecorated line = [] ↔ IsDecoration line := by
  rw [undecorated, Text.trim_eq_nil_iff]
  constructor
  · intro h
    obtain ⟨front, behind, hline, hfront, hbehind⟩ := Text.eq_append_trim line
    refine ⟨front, (Text.trim line).takeWhile (· = '*'), (Text.trim line).dropWhile (· = '*') ++ behind,
      ?_, hfront, List.all_takeWhile, ?_⟩
    · rw [← List.append_assoc, List.append_assoc front, List.takeWhile_append_dropWhile]
      exact hline
    · rw [List.all_append, h, hbehind]
      rfl
  · rintro ⟨front, stars, behind, rfl, hfront, hstars, hbehind⟩
    rw [Text.trim_append_blanks hbehind, Text.trim_blanks_append hfront]
    obtain ⟨gone, gone', hparts, -, -⟩ := Text.eq_append_trim stars
    have hleft : (Text.trim stars).all (· = '*') := by
      rw [hparts, List.all_append, List.all_append, Bool.and_eq_true, Bool.and_eq_true] at hstars
      exact hstars.1.2
    rw [List.dropWhile_eq_nil_iff.mpr (List.all_eq_true.mp hleft)]
    rfl

theorem blockText?_eq_none_iff {body : Text} :
    blockText? body = none ↔ ∀ line ∈ lines body, IsDecoration line := by
  have hlines : (body.lines.map undecorated).filter (· ≠ []) = [] ↔ ∀ line ∈ lines body, IsDecoration line := by
    simp only [List.filter_eq_nil_iff, List.forall_mem_map, decide_eq_true_eq, ne_eq, not_not,
      undecorated_eq_nil_iff]
  rw [← hlines, blockText?]
  split
  · rename_i hnil
    exact iff_of_true rfl hnil
  · rename_i hne
    exact iff_of_false (by simp) hne

/-! ## Field comments -/

theorem fieldText?_nil : fieldText? [] = none := rfl

theorem fieldText?_concat_fullStop (e : Text) :
    fieldText? (e ++ ['.']) =
      if Text.trim (e.filter (· ≠ '\n')) = [] then none else some (Text.trim (e.filter (· ≠ '\n'))) := by
  have hfilter : (e ++ ['.']).filter (· ≠ '\n') = e.filter (· ≠ '\n') ++ ['.'] :=
    List.filter_append ..
  have hend : Text.trimEnd (e.filter (· ≠ '\n') ++ ['.']) = e.filter (· ≠ '\n') ++ ['.'] :=
    List.rdropWhile_concat_neg _ _ _ (by decide)
  have hstop : dropFullStop (e.filter (· ≠ '\n') ++ ['.']) = e.filter (· ≠ '\n') := by
    rw [dropFullStop, List.getLast?_concat, if_pos rfl, List.dropLast_concat]
  rw [fieldText?, hfilter, hend, hstop]

theorem fieldText?_not_blank {body d : Text} (h : fieldText? body = some d) : ¬ d.all Text.isBlank := by
  simp only [fieldText?] at h
  split at h
  · cases h
  · rename_i hne
    cases h
    exact Text.trim_not_blank hne

end Comment

theorem RegisterEntry.description_eq (r : RegisterEntry) :
    r.description = r.remark.bind fun d => Comment.blockText? (' ' :: d.text ++ [' ']) := by
  unfold description
  congr 1
  funext d
  rw [Comment.blockText?_padded]
  by_cases hd : d.isPlain
  · rw [if_pos hd, Comment.blockText?_of_isPlain hd]
  · rw [if_neg hd]

theorem FieldEntry.fieldText?_remarkText (f : FieldEntry) :
    Comment.fieldText? f.remarkText = f.description := by
  unfold remarkText description
  cases f.remark with
  | none => exact Comment.fieldText?_nil
  | some e => exact Comment.fieldText?_concat_fullStop e.text

end Header

end RegisterMap
