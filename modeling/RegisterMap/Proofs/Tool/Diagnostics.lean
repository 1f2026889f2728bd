import Mathlib
import RegisterMap.Proofs.Header.Names
import RegisterMap.Proofs.Model.Findings
import RegisterMap.Proofs.Tool.Steps

/-!
# Diagnostics never influence artifacts

Asking for findings only puts reports between the steps of a run, and a filter
only decides which reports are shown. Two runs that differ in nothing else carry
out the same other steps, so they end alike and leave the same files and output.
-/

namespace RegisterMap.Tool

/-- Two runs with the same outcome, files and output. -/
structure SameArtifacts (a b : Outcome × World) : Prop where
  outcome_eq : a.1 = b.1
  files_eq : a.2.files = b.2.files
  output_eq : a.2.output = b.2.output

def LintFree (arguments : List Text) : Prop :=
  ∀ parsed, Argument.ofTexts? arguments = some parsed → .lint ∉ parsed

def Request.linted (r : Request) : Request := { r with lint := true }

def Command.linted : Command → Command
  | .help p => .help p
  | .generate r => .generate r.linted

theorem Argument.ofTexts?_lint (texts : List Text) :
    ofTexts? ("--lint".toList :: texts) = (ofTexts? texts).map (.lint :: ·) := by
  conv => lhs; unfold ofTexts?
  rfl

theorem Argument.nodup_option?_lint {parsed : List Argument} (h : .lint ∉ parsed) :
    ((lint :: parsed).filterMap option?).Nodup ↔ (parsed.filterMap option?).Nodup := by
  have hnone : none ∉ parsed.filterMap option? := by
    intro hmem
    obtain ⟨a, ha, hoption⟩ := List.mem_filterMap.mp hmem
    cases a with
    | lint => exact h ha
    | value => cases hoption
    | setting => cases hoption
    | help => cases hoption
  rw [List.filterMap_cons_some (show option? lint = some none from rfl), List.nodup_cons]
  exact and_iff_right hnone

namespace Command

theorem ofArguments?_lint {parsed : List Argument} (h : .lint ∉ parsed) :
    ofArguments? (.lint :: parsed) = (ofArguments? parsed).map linted := by
  have hvalues : (Argument.lint :: parsed).filterMap Argument.value? = parsed.filterMap Argument.value? := rfl
  have hfind (s : Setting) : Argument.find? (.lint :: parsed) s = Argument.find? parsed s := rfl
  have hhelp : Argument.help ∈ Argument.lint :: parsed ↔ .help ∈ parsed := by simp
  simp only [ofArguments?, hvalues, hfind, hhelp, Argument.nodup_option?_lint h]
  by_cases hshape : (parsed.filterMap Argument.value?).length ≤ 3 ∧ (parsed.filterMap Argument.option?).Nodup
  · rw [if_pos hshape, if_pos hshape]
    by_cases hasked : .help ∈ parsed
    · rw [if_pos hasked, if_pos hasked]
      rfl
    · rw [if_neg hasked, if_neg hasked]
      cases parsed.filterMap Argument.value? with
      | nil => rfl
      | cons name places => simp [linted, Request.linted]
  · rw [if_neg hshape, if_neg hshape]
    rfl

theorem lint_of_ofArguments? {parsed : List Argument} {r : Request} (h : ofArguments? parsed = some (.generate r)) :
    r.lint = decide (.lint ∈ parsed) := by
  unfold ofArguments? at h
  by_cases hshape : (parsed.filterMap Argument.value?).length ≤ 3 ∧ (parsed.filterMap Argument.option?).Nodup
  · rw [if_pos hshape] at h
    by_cases hasked : .help ∈ parsed
    · simp [hasked] at h
    · rw [if_neg hasked] at h
      cases hvalues : parsed.filterMap Argument.value? with
      | nil => simp [hvalues] at h
      | cons name places =>
        simp only [hvalues, Option.some.injEq, generate.injEq] at h
        rw [← h]
  · simp [hshape] at h

theorem ofTexts?_lint {arguments : List Text} (h : LintFree arguments) :
    ofTexts? ("--lint".toList :: arguments) = (ofTexts? arguments).map linted := by
  unfold ofTexts?
  rw [Argument.ofTexts?_lint]
  cases harguments : Argument.ofTexts? arguments with
  | none => rfl
  | some parsed => exact ofArguments?_lint (h parsed harguments)

end Command

theorem Request.lint_of_lintFree {arguments : List Text} {r : Request} (hr : ofTexts? arguments = some r)
    (h : LintFree arguments) : r.lint = false := by
  obtain ⟨command, hcommand, hrequest⟩ := Option.bind_eq_some_iff.mp hr
  obtain ⟨parsed, hparsed, hshape⟩ := Option.bind_eq_some_iff.mp hcommand
  cases command with
  | help p => cases hrequest
  | generate r' =>
    obtain rfl := Option.some.inj hrequest
    rw [Command.lint_of_ofArguments? hshape]
    exact decide_eq_false (h parsed hparsed)

theorem Request.ofTexts?_lint {arguments : List Text} {r : Request} (hr : ofTexts? arguments = some r)
    (h : LintFree arguments) : ofTexts? ("--lint".toList :: arguments) = some r.linted := by
  obtain ⟨command, hcommand, hrequest⟩ := Option.bind_eq_some_iff.mp hr
  unfold ofTexts?
  rw [Command.ofTexts?_lint h, hcommand]
  cases command with
  | help p => cases hrequest
  | generate r' =>
    obtain rfl := Option.some.inj hrequest
    rfl

/-! ## Two runs -/

namespace World

/-- What a run does with a text that it reads, whatever was reported before. -/
theorem carryOut_eq_filtered (keep : LogFilter) {r : Request} {w : World} {text : Text}
    (htext : w.text? r.input = some text) :
    let reading := r.reading text
    let reported := r.readRecords reading ++ if r.lint then warnings reading.peripheral else []
    let later := (system everything).perform (r.laterSteps reading.peripheral) w.unlogged
    (system keep).carryOut r w = (later.1, later.2.filtered (w.log ++ reported.filter keep) keep) := by
  intro reading reported later
  have hworld : w.unlogged.filtered (w.log ++ reported.filter keep) keep = w.logged (reported.filter keep) := by
    simp [filtered, unlogged, logged]
  rw [carryOut_of_text? keep htext, ← hworld]
  exact follows_perform _ _

theorem carryOut_eq_logged (keep : LogFilter) {r : Request} {w : World} (htext : w.text? r.input = none) :
    ∃ records, (system keep).carryOut r w = (false, w.logged records) := by
  obtain ⟨reason, hsteps⟩ := steps_of_text?_eq_none htext
  rw [carryOut_eq, hsteps, perform_fail]
  exact ⟨_, rfl⟩

theorem sameArtifacts_carryOut (keep keep' : LogFilter) {r r' : Request} (h : r' = r ∨ r' = r.linted) (w : World) :
    SameArtifacts (.finished ((system keep').carryOut r' w).1, ((system keep').carryOut r' w).2)
      (.finished ((system keep).carryOut r w).1, ((system keep).carryOut r w).2) := by
  have hinput : r'.input = r.input := by
    rcases h with rfl | rfl
    · rfl
    · rfl
  have hsteps (text : Text) : r'.laterSteps (r'.reading text).peripheral = r.laterSteps (r.reading text).peripheral := by
    rcases h with rfl | rfl
    · rfl
    · rfl
  cases htext : w.text? r.input with
  | none =>
    obtain ⟨records, hrun⟩ := carryOut_eq_logged keep htext
    obtain ⟨records', hrun'⟩ := carryOut_eq_logged (r := r') keep' (hinput ▸ htext)
    rw [hrun, hrun']
    exact ⟨rfl, rfl, rfl⟩
  | some text =>
    rw [carryOut_eq_filtered keep htext, carryOut_eq_filtered (r := r') keep' (hinput ▸ htext), hsteps]
    exact ⟨rfl, rfl, rfl⟩

theorem sameArtifacts_run (keep keep' : LogFilter) {arguments arguments' : List Text} {f : Command → Command}
    (hf : f = id ∨ f = Command.linted)
    (h : Command.ofTexts? arguments' = (Command.ofTexts? arguments).map f) (w : World) :
    SameArtifacts (w.run keep' arguments') (w.run keep arguments) := by
  rw [run_eq, run_eq, h]
  cases Command.ofTexts? arguments with
  | none => exact ⟨rfl, rfl, rfl⟩
  | some command =>
    have hplaces : (f command).places = command.places := by
      rcases hf with rfl | rfl
      · rfl
      · cases command with
        | help p => rfl
        | generate r => rfl
    simp only [Option.map_some, hplaces]
    by_cases husable : command.places.isUsable w.files.kind
    · rw [if_pos husable, if_pos husable]
      cases command with
      | help p =>
        rcases hf with rfl | rfl
        · exact ⟨rfl, rfl, rfl⟩
        · exact ⟨rfl, rfl, rfl⟩
      | generate r =>
        rcases hf with rfl | rfl
        · exact sameArtifacts_carryOut keep keep' (.inl rfl) w
        · exact sameArtifacts_carryOut keep keep' (.inr rfl) w
    · rw [if_neg husable, if_neg husable]
      exact ⟨rfl, rfl, rfl⟩

end World

/-! ## What is reported -/

theorem lineFeed_not_mem_warnings (r : Request) (text : Text) :
    ∀ warning ∈ warnings (r.reading text).peripheral, '\n' ∉ warning.text := by
  intro warning hwarning
  obtain ⟨finding, hfinding, rfl⟩ := List.mem_map.mp hwarning
  have hmessage : '\n' ∉ finding.message := Finding.lineFeed_not_mem_message
    (isWord_of_mem_findings (Header.read_wellNamed text r.name r.description r.macroPrefix) finding hfinding)
  have hlabel : '\n' ∉ Level.warn.name ++ ' ' :: "structgen".toList ++ ": ".toList := by decide
  exact List.not_mem_append hlabel hmessage

theorem filter_warnings {keep : LogFilter} (h : ∀ message, keep (record .warn message)) (p : Peripheral) :
    (warnings p).filter keep = warnings p := by
  apply List.filter_eq_self.mpr
  intro warning hwarning
  obtain ⟨finding, -, rfl⟩ := List.mem_map.mp hwarning
  exact h _

/-- Reading is reported first, then findings if asked for, then what comes of the later steps. -/
theorem log_run {arguments : List Text} {r : Request} (keep : LogFilter) {w : World}
    (hr : Request.ofTexts? arguments = some r) (husable : r.places.isUsable w.files.kind) {text : Text}
    (htext : w.text? r.input = some text) :
    let reading := r.reading text
    let later := ((World.system everything).perform (r.laterSteps reading.peripheral) w.unlogged).2.log
    (w.run keep arguments).2.log = w.log ++ (r.readRecords reading).filter keep ++
      (if r.lint then warnings reading.peripheral else []).filter keep ++ later.filter keep := by
  intro reading later
  rw [World.run_of_isUsable keep hr husable, World.carryOut_eq_filtered keep htext]
  simp [World.filtered, reading, later, List.filter_append, List.append_assoc]

/-- **Diagnostics never influence artifacts.** Asking for findings adds one line of warning for
each of them, behind what reading reports and in front of all that comes later. -/
theorem run_ignores_diagnostics {arguments : List Text} (hlint : LintFree arguments) (keep : LogFilter) (w : World) :
    (∀ keep' : LogFilter, SameArtifacts (w.run keep' arguments) (w.run keep arguments) ∧
      SameArtifacts (w.run keep' ("--lint".toList :: arguments)) (w.run keep arguments)) ∧
    ∀ r text, Request.ofTexts? arguments = some r → (w.run keep arguments).1 ≠ .usage →
      w.text? r.input = some text →
      let reading := r.reading text
      let later := ((World.system everything).perform (r.laterSteps reading.peripheral) w.unlogged).2.log
      (w.run keep arguments).2.log =
        w.log ++ (r.readRecords reading).filter keep ++ later.filter keep ∧
      (w.run keep ("--lint".toList :: arguments)).2.log =
        w.log ++ (r.readRecords reading).filter keep ++ (warnings reading.peripheral).filter keep ++ later.filter keep ∧
      ((∀ message, keep (record .warn message)) →
        (warnings reading.peripheral).filter keep = warnings reading.peripheral) ∧
      ∀ warning ∈ warnings reading.peripheral,
        warning.level = .warn ∧ warning.component = "structgen".toList ∧ '\n' ∉ warning.text := by
  constructor
  · intro keep'
    exact ⟨World.sameArtifacts_run keep keep' (.inl rfl) (by simp) w,
      World.sameArtifacts_run keep keep' (.inr rfl) (Command.ofTexts?_lint hlint) w⟩
  · intro r text hr hrun htext reading later
    have husable := World.isUsable_of_run hr hrun
    have hplain := log_run keep hr husable htext
    have hasked := log_run keep (Request.ofTexts?_lint hr hlint) husable htext
    rw [Request.lint_of_lintFree hr hlint] at hplain
    refine ⟨?_, hasked, fun hkeep => filter_warnings hkeep _, fun warning hwarning => ?_⟩
    · simpa using hplain
    · obtain ⟨finding, -, hfinding⟩ := List.mem_map.mp hwarning
      refine ⟨?_, ?_, lineFeed_not_mem_warnings r text warning hwarning⟩
      · rw [← hfinding]
        rfl
      · rw [← hfinding]
        rfl

def overlapText : Text :=
  ("\n\n#define CLK_CONF_REG (CLK_BASE + 0x4)\n/* CLK_DIV : R/W ;bitpos:[7:0] ; */\n/*description: Divider.*/\n" ++
    "/* CLK_EN : R/W ;bitpos:[7] ; */\n/*description: Enable.*/\n").toList

/-- Its directory is not the one that the run works in. -/
def overlapWorld : World where
  files := (Workspace.empty ["home".toList]).update ["clk_reg.h".toList] (some (.file (encode overlapText)))
  input := .empty
  output := .empty
  log := []

def overlapArguments : List Text := ["clk", "/clk_reg.h", "clk.h", "--prefix=CLK_"].map String.toList

def overlapRequest : Request :=
  ⟨"clk".toList, .path "/clk_reg.h".toList, .path "clk.h".toList, none, "CLK_".toList, false, none⟩

theorem run_ignores_diagnostics_overlap :
    let keep := LogFilter.ofText (some "info,structgen=warn".toList)
    LintFree overlapArguments ∧ (overlapWorld.run keep overlapArguments).1 ≠ .usage ∧
    SameArtifacts (overlapWorld.run (fun _ => false) ("--lint".toList :: overlapArguments))
      (overlapWorld.run keep overlapArguments) ∧
    ∃ reported later, (overlapWorld.run keep overlapArguments).2.log = reported ++ later ∧
      (overlapWorld.run keep ("--lint".toList :: overlapArguments)).2.log =
        reported ++ [record .warn "conf: fields [div] and [en] overlap".toList] ++ later := by
  intro keep
  have hparsed : Argument.ofTexts? overlapArguments = some [.value "clk".toList, .value "/clk_reg.h".toList,
      .value "clk.h".toList, .setting .macroPrefix "CLK_".toList] := by
    decide +kernel
  have hlint : LintFree overlapArguments := by
    intro parsed h
    obtain rfl := Option.some.inj (hparsed.symm.trans h)
    simp
  have hr : Request.ofTexts? overlapArguments = some overlapRequest := by decide +kernel
  have husable : overlapRequest.places.isUsable overlapWorld.files.kind := by decide +kernel
  have hrun : (overlapWorld.run keep overlapArguments).1 ≠ .usage := by
    rw [World.run_of_isUsable keep hr husable]
    nofun
  have hlocate : overlapWorld.files.locate "/clk_reg.h".toList = .ok ["clk_reg.h".toList] := by decide +kernel
  have hentry : overlapWorld.files.at? "/clk_reg.h".toList = some (.file (encode overlapText)) :=
    (Workspace.at?_of_locate hlocate).trans (Workspace.entries_update ..)
  have htext : overlapWorld.text? overlapRequest.input = some overlapText := World.text?_of_at? rfl hentry
  have hwarnings : warnings (overlapRequest.reading overlapText).peripheral =
      [record .warn "conf: fields [div] and [en] overlap".toList] := by
    decide +kernel
  have hkept : keep (record .warn "conf: fields [div] and [en] overlap".toList) := by decide +kernel
  obtain ⟨hsame, hlog⟩ := run_ignores_diagnostics hlint keep overlapWorld
  obtain ⟨hplain, hasked, -⟩ := hlog overlapRequest overlapText hr hrun htext
  rw [hwarnings, List.filter_cons_of_pos hkept] at hasked
  exact ⟨hlint, hrun, (hsame fun _ => false).2, _, _, hplain, hasked⟩

end RegisterMap.Tool
