import RegisterMap.Proofs.Text.LineEnds
import RegisterMap.Tool.Script

/-!
# Line ends do not matter

A header says the same however its line ends are written: the same records on the
same lines, so the same peripheral and the same log, and a run takes the same steps.
-/

namespace RegisterMap.Tool

open Text (withReturns returnsOnly)

/-- **Line ends do not matter.** A carriage return in front of any of the line feeds of a header, or
one in place of each of them, changes nothing that is read from it, reported or written. -/
theorem script_lineEnds {text text' : Text} (hreturn : '\r' ∉ text)
    (hends : (∃ chosen, text' = text.withReturns chosen) ∨ text' = text.returnsOnly) (macroPrefix : Text) :
    Header.extract text' macroPrefix = Header.extract text macroPrefix ∧
    (∀ name description,
      Header.read text' name description macroPrefix = Header.read text name description macroPrefix) ∧
    ∀ r : Request, r.script (some text') = r.script (some text) := by
  have hunified : text'.unifyLineEnds = text.unifyLineEnds := by
    rw [Text.unifyLineEnds_of_not_mem hreturn]
    rcases hends with ⟨chosen, rfl⟩ | rfl
    · exact Text.unifyLineEnds_withReturns hreturn chosen
    · exact Text.unifyLineEnds_returnsOnly hreturn
  have hextract (macroPrefix : Text) : Header.extract text' macroPrefix = Header.extract text macroPrefix := by
    rw [Header.extract, Header.extract, hunified]
  have hread (name : Text) (description : Option Text) (macroPrefix : Text) :
      Header.read text' name description macroPrefix = Header.read text name description macroPrefix := by
    rw [Header.read, Header.read, hextract]
  refine ⟨hextract macroPrefix, fun name description => hread name description macroPrefix, fun r => ?_⟩
  simp only [Request.script, Request.reading, hread]

def linedText : Text :=
  ("\n\n/** Channel\n * control */\n#define CH_REG (TIMG_BASE + 0x4)\n" ++
    "/* CH_EN : R/W ;bitpos:[0] ; */\n/*description: On,\n or off.*/\n").toList

theorem script_lineEnds_linedText :
    '\r' ∉ linedText ∧
      linedText.withReturns (fun place => place = 1 ∨ 40 < place) =
        ("\n\r\n/** Channel\n * control */\n#define CH_REG (TIMG_BASE + 0x4)\r\n" ++
          "/* CH_EN : R/W ;bitpos:[0] ; */\r\n/*description: On,\r\n or off.*/\r\n").toList ∧
      ∀ text' ∈ [linedText.withReturns (fun place => place = 1 ∨ 40 < place), linedText.returnsOnly],
        Header.extract text' [] =
          [⟨"ch".toList, 4, some "Channel control".toList, 5,
            [⟨"ch_en".toList, .single 0, some "On, or off".toList, 6⟩]⟩] := by
  have hreturn : '\r' ∉ linedText := by decide +kernel
  have hplain : Header.extract linedText [] =
      [⟨"ch".toList, 4, some "Channel control".toList, 5,
        [⟨"ch_en".toList, .single 0, some "On, or off".toList, 6⟩]⟩] := by
    decide +kernel
  refine ⟨hreturn, by decide +kernel, List.forall_mem_cons.mpr ⟨?_, List.forall_mem_singleton.mpr ?_⟩⟩
  · rw [← hplain]
    exact (script_lineEnds hreturn (.inl ⟨_, rfl⟩) []).1
  · rw [← hplain]
    exact (script_lineEnds hreturn (.inr rfl) []).1

end RegisterMap.Tool
