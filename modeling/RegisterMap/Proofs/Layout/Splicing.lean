import RegisterMap.Proofs.Layout.Names
import RegisterMap.Proofs.Text.Splice

/-!
# Comments that go on

No line of code ends in a backslash. So C joins a printed line with the next one
just where a comment ends in one, and then the declaration below the comment is
not read.
-/

namespace RegisterMap

open Text (Continues spliced unlines not_continues_concat)

def Description.IsCommentOn (d : Description) (line : Text) : Prop :=
  ∃ level, line = indent level ++ "// ".toList ++ d.text

theorem Description.IsCommentOn.continues_iff {d : Description} {line : Text} (h : d.IsCommentOn line) :
    Continues line ↔ Continues d.text := by
  obtain ⟨level, rfl⟩ := h
  have hne : d.text ≠ [] := fun hnil => d.not_blank (by rw [hnil]; rfl)
  exact Text.continues_append hne _

/-- Each comment is on one of the lines, and no others go on. -/
structure GoOnIn (comments : List Description) (lines : List Text) : Prop where
  printed : ∀ d ∈ comments, ∃ line ∈ lines, d.IsCommentOn line
  comment : ∀ line ∈ lines, Continues line → ∃ d ∈ comments, d.IsCommentOn line

namespace GoOnIn

theorem code {lines : List Text} (h : ∀ line ∈ lines, ¬ Continues line) : GoOnIn [] lines :=
  ⟨by simp, fun line hline hgoes => absurd hgoes (h line hline)⟩

theorem append {comments comments' : List Description} {lines lines' : List Text} (h : GoOnIn comments lines)
    (h' : GoOnIn comments' lines') : GoOnIn (comments ++ comments') (lines ++ lines') where
  printed := List.forall_mem_append.mpr
    ⟨fun d hd => (h.printed d hd).imp fun _ => And.imp_left (List.mem_append_left lines'),
      fun d hd => (h'.printed d hd).imp fun _ => And.imp_left (List.mem_append_right lines)⟩
  comment := List.forall_mem_append.mpr
    ⟨fun line hl hgoes => (h.comment line hl hgoes).imp fun _ => And.imp_left (List.mem_append_left comments'),
      fun line hl hgoes => (h'.comment line hl hgoes).imp fun _ => And.imp_left (List.mem_append_right comments)⟩

theorem append_code {comments : List Description} {lines code : List Text} (h : GoOnIn comments lines)
    (hcode : ∀ line ∈ code, ¬ Continues line) : GoOnIn comments (lines ++ code) := by
  have happend := h.append (.code hcode)
  rwa [List.append_nil] at happend

theorem cons_code {comments : List Description} {lines : List Text} {line : Text} (hcode : ¬ Continues line)
    (h : GoOnIn comments lines) : GoOnIn comments (line :: lines) :=
  (GoOnIn.code (List.forall_mem_singleton.mpr hcode)).append h

theorem flatMap {α : Type} {comments : α → List Description} {lines : α → List Text}
    (hpart : ∀ a, GoOnIn (comments a) (lines a)) : ∀ parts : List α,
    GoOnIn (parts.flatMap comments) (parts.flatMap lines)
  | [] => .code (by simp)
  | a :: parts => (hpart a).append (flatMap hpart parts)

theorem commentLines (level : Nat) (comment : Option Description) :
    GoOnIn comment.toList (RegisterMap.commentLines level comment) := by
  cases comment with
  | none => exact .code (by simp [RegisterMap.commentLines])
  | some d =>
    have hprinted : d.IsCommentOn (indent level ++ "// ".toList ++ d.text) := ⟨level, rfl⟩
    exact ⟨List.forall_mem_singleton.mpr ⟨_, List.mem_singleton_self _, hprinted⟩,
      List.forall_mem_singleton.mpr fun _ => ⟨d, List.mem_singleton_self d, hprinted⟩⟩

/-- C reads the lines as they are written if and only if no comment goes on. -/
theorem spliced_eq_self_iff {comments : List Description} {lines : List Text} (h : GoOnIn comments lines)
    (hlines : ∀ line ∈ lines, '\n' ∉ line) :
    spliced (unlines lines) = unlines lines ↔ ∀ d ∈ comments, ¬ Continues d.text := by
  rw [Text.spliced_unlines_eq_self_iff hlines]
  constructor
  · intro hnone d hd
    obtain ⟨line, hline, hprinted⟩ := h.printed d hd
    rw [← hprinted.continues_iff]
    exact hnone line hline
  · intro hnone line hline hgoes
    obtain ⟨d, hd, hprinted⟩ := h.comment line hline hgoes
    exact hnone d hd (hprinted.continues_iff.mp hgoes)

end GoOnIn

/-! ## Declarations -/

theorem not_continues_semicolon (s : Text) : ¬ Continues (s ++ [';']) := not_continues_concat (by decide) s

theorem not_continues_declaration (s : Text) : ∀ line ∈ [s ++ [';']], ¬ Continues line :=
  List.forall_mem_singleton.mpr (not_continues_semicolon s)

theorem not_continues_closing (name : Text) : ∀ line ∈ ["\x7d ".toList ++ name ++ [';'], []], ¬ Continues line :=
  List.forall_mem_cons.mpr ⟨not_continues_semicolon _, List.forall_mem_singleton.mpr (by decide)⟩

theorem BitMember.goOnIn (level : Nat) (m : BitMember) : GoOnIn m.comments (m.lines level) := by
  cases m with
  | filler width => exact .code (not_continues_declaration _)
  | bits comment name width => exact (GoOnIn.commentLines level comment).append_code (not_continues_declaration _)

theorem BitType.goOnIn (t : BitType) : GoOnIn t.comments t.lines := by
  have hmembers := (GoOnIn.flatMap (BitMember.goOnIn 1) t.members).cons_code
    (show ¬ Continues "typedef volatile struct \x7b".toList by decide)
  exact ((GoOnIn.commentLines 0 t.comment).append hmembers).append_code (not_continues_closing t.name)

theorem Slot.goOnIn (s : Slot) : GoOnIn s.comments s.lines := by
  cases s with
  | padding index words =>
    exact .code (List.forall_mem_cons.mpr
      ⟨not_continues_concat (by decide) (indent 1 ++ "// Padding".toList), not_continues_declaration _⟩)
  | word comment name length => exact (GoOnIn.commentLines 1 comment).append_code (not_continues_declaration _)
  | inline comment members =>
    have hmembers := (GoOnIn.flatMap (BitMember.goOnIn 2) members).cons_code
      (show ¬ Continues (indent 1 ++ "volatile struct \x7b".toList) by decide)
    exact ((GoOnIn.commentLines 1 comment).append hmembers).append_code (List.forall_mem_singleton.mpr (by decide))
  | typed comment type name length =>
    exact (GoOnIn.commentLines 1 comment).append_code (not_continues_declaration _)

theorem Aggregate.goOnIn (a : Aggregate) : GoOnIn a.comments a.lines := by
  have hslots := (GoOnIn.flatMap Slot.goOnIn a.slots).cons_code
    (show ¬ Continues "typedef struct \x7b".toList by decide)
  exact ((GoOnIn.commentLines 0 a.comment).append hslots).append_code (not_continues_closing a.name)

namespace Layout

variable {l : Layout} (hname : '\n' ∉ l.name) (hmembers : ∀ m ∈ l.members, ∀ r ∈ m.register?, r.WellNamed)
include hname hmembers

theorem goOnIn_types (hcomments : OnOneLine (l.bitTypes.flatMap BitType.comments)) :
    GoOnIn (l.bitTypes.flatMap BitType.comments) l.types.lines ∧
      (spliced l.types = l.types ↔ ∀ d ∈ l.bitTypes.flatMap BitType.comments, ¬ Continues d.text) := by
  have hlines := lineFeed_not_mem_types hname hmembers hcomments
  have hgo := GoOnIn.flatMap BitType.goOnIn l.bitTypes
  refine ⟨?_, hgo.spliced_eq_self_iff hlines⟩
  rw [types, Text.lines_unlines_of_not_mem hlines]
  exact hgo.append_code (List.forall_mem_singleton.mpr (by decide))

theorem goOnIn_body (hcomments : OnOneLine l.aggregate.comments) :
    GoOnIn l.aggregate.comments l.body.lines ∧
      (spliced l.body = l.body ↔ ∀ d ∈ l.aggregate.comments, ¬ Continues d.text) := by
  have hlines := lineFeed_not_mem_body hname hmembers hcomments
  refine ⟨?_, l.aggregate.goOnIn.spliced_eq_self_iff hlines⟩
  rw [body, Text.lines_unlines_of_not_mem hlines]
  exact l.aggregate.goOnIn.append_code (List.forall_mem_singleton.mpr (by decide))

end Layout

end RegisterMap
