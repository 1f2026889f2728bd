import Mathlib
import RegisterMap.Proofs.Tool.Steps

/-!
# What a run leaves behind

A header is written last. So a run that works leaves the whole header at its
output, and one that stops before leaves the output as it was. If the header
cannot be written, what was opened for it is removed; where that is refused too,
a first part of the header stays, and a warning says so.
-/

namespace RegisterMap.Tool

/-! ## What a run comes to -/

namespace Request

/-- The model is not asked for, or nothing keeps it from being written. -/
def DumpAccepted (r : Request) (w : World) (p : Peripheral) : Prop :=
  ∀ target, r.model = some target → w.Accepts .model target (encode p.markup)

/-- There is no text to read, or the model cannot be written, or the registers cannot be laid out. -/
def StopsEarly (r : Request) (w : World) : Prop :=
  w.text? r.input = none ∨ ∃ text, w.text? r.input = some text ∧
    (¬ r.DumpAccepted w (r.reading text).peripheral ∨ ∃ e, (r.reading text).peripheral.layout = .error e)

/-- The header that a run has to write, if it does not stop before. -/
def ComesTo (r : Request) (w : World) (header : Text) : Prop :=
  ∃ text layout, w.text? r.input = some text ∧ r.DumpAccepted w (r.reading text).peripheral ∧
    (r.reading text).peripheral.layout = .ok layout ∧ header = layout.header r.input.text.quoted

/-- The model is not written to the file of a path. -/
def DumpsElsewhere (r : Request) (w : World) (path : Text) : Prop :=
  ∀ other, r.model = some (.path other) → ¬ w.files.SameFile other path

theorem ComesTo.not_stopsEarly {r : Request} {w : World} {header : Text} (h : r.ComesTo w header) :
    ¬ r.StopsEarly w := by
  obtain ⟨text, layout, hread, hdump, hlayout, -⟩ := h
  intro hstops
  obtain hunread | ⟨text', hread', hearly⟩ := hstops
  · simp [hread] at hunread
  · obtain rfl : text = text' := Option.some.inj (hread.symm.trans hread')
    obtain hrefused | ⟨e, herror⟩ := hearly
    · exact hrefused hdump
    · simp [hlayout] at herror

theorem ComesTo.unique {r : Request} {w : World} {header header' : Text} (h : r.ComesTo w header)
    (h' : r.ComesTo w header') : header = header' := by
  obtain ⟨text, layout, hread, -, hlayout, rfl⟩ := h
  obtain ⟨text', layout', hread', -, hlayout', rfl⟩ := h'
  obtain rfl : text = text' := Option.some.inj (hread.symm.trans hread')
  obtain rfl : layout = layout' := Except.ok.inj (hlayout.symm.trans hlayout')
  rfl

end Request

/-! ## How a run ends -/

inductive Dumped (keep : LogFilter) (r : Request) (w : World) (p : Peripheral) : World → Prop
  | unasked (hmodel : r.model = none) : Dumped keep r w p w
  | written {target : Place} {w' : World} (hmodel : r.model = some target)
      (hwrite : Stored keep w .model p.markup target (.ok ()) w') : Dumped keep r w p w'

/-- How a run ends, reports apart: where it stops, and what its writes leave. -/
inductive Ends (keep : LogFilter) (r : Request) (w : World) : Bool → World → Prop
  | unread {records : List LogRecord} (hread : w.text? r.input = none) : Ends keep r w false (w.logged records)
  | undumped {text : Text} {records records' : List LogRecord} {target : Place} {e : FileError} {w' : World}
      (hread : w.text? r.input = some text) (hmodel : r.model = some target)
      (hwrite : Stored keep (w.logged records) .model (r.reading text).peripheral.markup target (.error e) w') :
      Ends keep r w false (w'.logged records')
  | unlaid {text : Text} {records records' : List LogRecord} {dumped : World} {e : LayoutError}
      (hread : w.text? r.input = some text)
      (hdump : Dumped keep r (w.logged records) (r.reading text).peripheral dumped)
      (hlayout : (r.reading text).peripheral.layout = .error e) : Ends keep r w false (dumped.logged records')
  | headed {text : Text} {records records' records'' : List LogRecord} {dumped w' : World} {layout : Layout}
      {written : Except FileError Unit} (hread : w.text? r.input = some text)
      (hdump : Dumped keep r (w.logged records) (r.reading text).peripheral dumped)
      (hlayout : (r.reading text).peripheral.layout = .ok layout)
      (hwrite : Stored keep (dumped.logged records') .header (layout.header r.input.text.quoted) r.output written w') :
      Ends keep r w written.isOk (w'.logged records'')

theorem Stored.stopsEarly {keep : LogFilter} {r : Request} {w w' : World} {records : List LogRecord} {text : Text}
    {target : Place} {e : FileError} (hread : w.text? r.input = some text) (hmodel : r.model = some target)
    (h : Stored keep (w.logged records) .model (r.reading text).peripheral.markup target (.error e) w') :
    r.StopsEarly w := by
  refine .inr ⟨text, hread, .inl fun hdump => ?_⟩
  cases h.isOk_iff.mpr (hdump target hmodel)

namespace World

theorem logged_nil (w : World) : w.logged [] = w := by simp [logged]

theorem perform_write_last (keep : LogFilter) (artifact : Artifact) (target : Place) (text : Text) (w : World) :
    ∃ written w' records, Stored keep w artifact text target written w' ∧
      (system keep).perform [.write artifact target text] w = (written.isOk, w'.logged records) := by
  have hstored := stored_store keep w artifact target text
  rw [perform_write]
  cases hstore : (system keep).store artifact target text w with
  | mk written w' =>
    rw [hstore] at hstored
    cases written with
    | ok _ => exact ⟨.ok (), w', [], hstored, by rw [logged_nil]; rfl⟩
    | error e => exact ⟨.error e, w', _, hstored, rfl⟩

theorem ends_headerSteps {keep : LogFilter} {r : Request} {w dumped : World} {text : Text}
    {records : List LogRecord} (hread : w.text? r.input = some text)
    (hdump : Dumped keep r (w.logged records) (r.reading text).peripheral dumped) :
    Ends keep r w ((system keep).perform (r.headerSteps (r.reading text).peripheral) dumped).1
      ((system keep).perform (r.headerSteps (r.reading text).peripheral) dumped).2 := by
  have hlogs (coalescences : List Coalescence) :
      coalescences.map (Step.log ·.log) = (coalescences.map (·.log)).map Step.log := by
    simp
  unfold Request.headerSteps
  rw [hlogs, perform_logs]
  generalize List.filter keep _ = shown
  cases hlayout : (r.reading text).peripheral.layout with
  | error e =>
    simp only [perform_fail, logged_logged]
    exact .unlaid hread hdump hlayout
  | ok layout =>
    obtain ⟨written, w', records', hwrite, hperform⟩ := perform_write_last keep .header r.output
      (layout.header r.input.text.quoted) (dumped.logged shown)
    simp only [hperform]
    exact .headed hread hdump hlayout hwrite

theorem ends_carryOut (keep : LogFilter) (r : Request) (w : World) :
    Ends keep r w ((system keep).carryOut r w).1 ((system keep).carryOut r w).2 := by
  cases hread : w.text? r.input with
  | none =>
    obtain ⟨reason, hsteps⟩ := steps_of_text?_eq_none hread
    rw [carryOut_eq, hsteps, perform_fail]
    exact .unread hread
  | some text =>
    rw [carryOut_of_text? keep hread]
    generalize List.filter keep _ = shown
    unfold Request.laterSteps Request.modelSteps
    cases hmodel : r.model with
    | none => exact ends_headerSteps hread (.unasked hmodel)
    | some target =>
      have hstored := stored_store keep (w.logged shown) .model target (r.reading text).peripheral.markup
      show Ends keep r w ((system keep).perform (.write .model target _ :: _) _).1
        ((system keep).perform (.write .model target _ :: _) _).2
      rw [perform_write]
      cases hstore : (system keep).store .model target (r.reading text).peripheral.markup (w.logged shown) with
      | mk written w' =>
        rw [hstore] at hstored
        cases written with
        | ok _ => exact ends_headerSteps hread (.written hmodel hstored)
        | error e => exact .undumped hread hmodel hstored

end World

/-! ## What the model leaves -/

/-- What is written to a place goes to the standard output. -/
def Place.IsOutput (w : World) : Place → Prop
  | .standard => True
  | .path s => w.files.at? s = some (.device .output)

theorem Place.isOutput_of_channel? {w : World} {artifact : Artifact} {target : Place}
    (h : w.channel? artifact target = .ok (.device .output)) : target.IsOutput w := by
  cases target with
  | standard => trivial
  | path s =>
    obtain ⟨l, hlocate, hchannel⟩ := World.exists_locate_of_channel? h
    exact (Workspace.at?_of_locate hlocate).trans (Workspace.entries_of_channelAt_device hchannel)

theorem Place.IsOutput.eq_of_channel? {w : World} {artifact : Artifact} {target : Place} {c : Channel}
    (houtput : target.IsOutput w) (h : w.channel? artifact target = .ok c) : c = .device .output := by
  cases target with
  | standard => exact World.channel?_standard h
  | path s =>
    obtain ⟨l, hlocate, hchannel⟩ := World.exists_locate_of_channel? h
    have hentry := (Workspace.at?_of_locate hlocate).symm.trans houtput
    rw [Workspace.channelAt_of_device hentry] at hchannel
    exact (Except.ok.inj hchannel).symm

namespace Dumped

variable {keep : LogFilter} {r : Request} {w dumped : World} {p : Peripheral} (h : Dumped keep r w p dumped)
include h

theorem dumpAccepted : r.DumpAccepted w p := by
  intro target htarget
  cases h with
  | unasked hmodel => simp [hmodel] at htarget
  | written hmodel hwrite =>
    obtain rfl := Option.some.inj (hmodel.symm.trans htarget)
    exact hwrite.isOk_iff.mp rfl

theorem channel?_iff (artifact : Artifact) (target : Place) (c : Channel) :
    dumped.channel? artifact target = .ok c ↔ w.channel? artifact target = .ok c := by
  cases h with
  | unasked => exact Iff.rfl
  | written hmodel hwrite =>
    cases hwrite with
    | whole hopen => exact World.channel?_filled hopen ..

theorem obstacles_eq : dumped.obstacles = w.obstacles := by
  cases h with
  | unasked => rfl
  | written hmodel hwrite =>
    cases hwrite with
    | whole => exact World.obstacles_filled ..

theorem accepts_iff (artifact : Artifact) (target : Place) (content : ByteArray) :
    dumped.Accepts artifact target content ↔ w.Accepts artifact target content := by
  unfold World.Accepts
  simp only [h.channel?_iff, h.obstacles_eq]

theorem sameDirectories : w.files.SameDirectories dumped.files := by
  cases h with
  | unasked => exact .refl w.files
  | written hmodel hwrite => exact hwrite.sameDirectories

theorem at?_eq {path : Text} (helse : r.DumpsElsewhere w path) : dumped.files.at? path = w.files.at? path := by
  cases h with
  | unasked => rfl
  | written hmodel hwrite =>
    apply hwrite.at?_eq
    rintro other rfl
    exact helse other hmodel

theorem exists_output : ∃ part, dumped.output = w.output ++ part ∧
    (part ≠ .empty → ∃ target, r.model = some target ∧ target.IsOutput w) ∧
    IsFirstPart part (encode p.markup) ∧
    ∀ target, r.model = some target → target.IsOutput w → part = encode p.markup := by
  cases h with
  | unasked hmodel =>
    refine ⟨.empty, by simp, fun hne => absurd rfl hne, .empty _, fun target htarget => ?_⟩
    simp [hmodel] at htarget
  | @written target _ hmodel hwrite =>
    obtain ⟨part, houtput, hpart, hchannel, hwhole⟩ := hwrite.exists_output
    refine ⟨part, houtput, fun hne => ⟨target, hmodel, Place.isOutput_of_channel? (hchannel hne)⟩, hpart, ?_⟩
    intro other hother hplace
    obtain rfl := Option.some.inj (hmodel.symm.trans hother)
    obtain ⟨c, hopen, rfl⟩ := hwhole rfl
    rw [hplace.eq_of_channel? hopen]
    rfl

end Dumped

/-! ## What a run leaves -/

/-- What a run leaves on the standard output: a first part of the model where that goes there, all of
it if the run gets to its header, and behind it a first part of the header, all of it if the run works. -/
structure LeavesOutput (r : Request) (w w' : World) (status : Nat) (model header : ByteArray) : Prop where
  output_eq : w'.output = w.output ++ model ++ header
  model_part : model ≠ .empty → ∃ text target, w.text? r.input = some text ∧ r.model = some target ∧
    target.IsOutput w ∧ IsFirstPart model (encode (r.reading text).peripheral.markup)
  model_whole : ∀ text target, w.text? r.input = some text → r.DumpAccepted w (r.reading text).peripheral →
    r.model = some target → target.IsOutput w → model = encode (r.reading text).peripheral.markup
  header_part : header ≠ .empty → ∃ text, r.ComesTo w text ∧ r.output.IsOutput w ∧ IsFirstPart header (encode text)
  header_whole : status = 0 → r.output.IsOutput w → ∃ text, r.ComesTo w text ∧ header = encode text

/-- What is left at the path of a header that could not be written. -/
structure LeavesRest (keep : LogFilter) (w w' : World) (path : Text) (header : ByteArray) : Prop where
  unopened : (∀ c, w.channel? .header (.path path) ≠ .ok c) → w'.files.at? path = w.files.at? path
  removed : ∀ c, w.channel? .header (.path path) = .ok c → (w.obstacles .header (.path path)).remove = none →
    w'.files.at? path = none
  /-- A first part, unless it went to a device, and a warning. -/
  left : ∀ c reason, w.channel? .header (.path path) = .ok c →
    (w.obstacles .header (.path path)).remove = some reason →
    ((∃ part, IsFirstPart part header ∧ w'.files.at? path = some (.file part)) ∨
      ∃ d, w.files.at? path = some (.device d) ∧ w'.files.at? path = some (.device d)) ∧
    (keep (unremovable path reason.message) → unremovable path reason.message ∈ w'.log)

/-- What a run leaves at the path of its header. -/
structure LeavesFile (keep : LogFilter) (r : Request) (w w' : World) (status : Nat) (path : Text) : Prop where
  /-- All of the header is there. -/
  done : status = 0 → ¬ r.output.IsOutput w →
    ∃ header, r.ComesTo w header ∧ w'.files.at? path = some (.file (encode header))
  /-- What was there before is there still. -/
  early : r.StopsEarly w → status = 1 ∧ w'.files.at? path = w.files.at? path
  late : ∀ header, r.ComesTo w header → ¬ w.Accepts .header r.output (encode header) →
    status = 1 ∧ LeavesRest keep w w' path (encode header)
  stops : status ≠ 0 → r.StopsEarly w ∨ ∃ header, r.ComesTo w header ∧ ¬ w.Accepts .header r.output (encode header)

theorem Stored.leavesRest {keep : LogFilter} {w w' : World} {text path : Text} {e : FileError}
    (h : Stored keep w .header text (.path path) (.error e) w') : LeavesRest keep w w' path (encode text) := by
  cases h with
  | unopened hopen =>
    have hnone (c : Channel) : w.channel? .header (.path path) ≠ .ok c := by simp [hopen]
    exact ⟨fun _ => rfl, fun c hc => absurd hc (hnone c), fun c _ hc => absurd hc (hnone c)⟩
  | @removed _ c l n _ hopen hlocate hrefuses hremove =>
    refine ⟨fun hnone => absurd hopen (hnone c), fun _ _ _ => ?_, fun _ reason _ hrefused => ?_⟩
    · obtain ⟨l', hl', hchannel⟩ := World.exists_locate_of_channel? hopen
      obtain rfl : l = l' := Except.ok.inj (hlocate.symm.trans hl')
      have hsame : w.files.SameDirectories (w.files.update l none) :=
        .update (Workspace.not_directory_of_channelAt hchannel) nofun
      show (w.files.update l none).at? path = none
      rw [Workspace.at?_of_locate (hsame.locate hlocate), Workspace.entries_update]
    · simp [hremove] at hrefused
  | @left _ c n _ reason hopen hrefuses hremove =>
    refine ⟨fun hnone => absurd hopen (hnone c), fun _ _ hnone => ?_, fun c' reason' hopen' hremove' => ⟨?_, ?_⟩⟩
    · simp [hremove] at hnone
    · rw [World.files_report]
      obtain ⟨l, -, hat⟩ | ⟨d, -, hat, hat'⟩ := World.at?_filled hopen ((encode text).extract 0 n)
      · exact .inl ⟨_, ⟨n, rfl⟩, hat⟩
      · exact .inr ⟨d, hat, hat'⟩
    · intro hkeep
      obtain rfl : reason = reason' := Option.some.inj (hremove.symm.trans hremove')
      rw [World.report_eq]
      simp [World.logged, hkeep]

theorem LeavesRest.congr {keep : LogFilter} {v w w' : World} {path : Text} {header : ByteArray}
    (h : LeavesRest keep v w' path header)
    (hchannel : ∀ c, v.channel? .header (.path path) = .ok c ↔ w.channel? .header (.path path) = .ok c)
    (hobstacles : v.obstacles = w.obstacles) (hat : v.files.at? path = w.files.at? path) (records : List LogRecord) :
    LeavesRest keep w (w'.logged records) path header where
  unopened hnone := (h.unopened fun c hc => hnone c ((hchannel c).mp hc)).trans hat
  removed c hopen hremove := by
    rw [← hobstacles] at hremove
    exact h.removed c ((hchannel c).mpr hopen) hremove
  left c reason hopen hremove := by
    rw [← hobstacles] at hremove
    obtain ⟨hrest, hwarned⟩ := h.left c reason ((hchannel c).mpr hopen) hremove
    rw [hat] at hrest
    exact ⟨hrest, fun hkeep => List.mem_append_left _ (hwarned hkeep)⟩

namespace Ends

variable {keep : LogFilter} {r : Request} {w w' : World} {done : Bool} (hends : Ends keep r w done w')
include hends

theorem exists_leavesOutput : ∃ model header, LeavesOutput r w w' (if done then 0 else 1) model header := by
  cases hends with
  | unread hread =>
    refine ⟨.empty, .empty, by simp [World.logged], fun hne => absurd rfl hne, ?_, fun hne => absurd rfl hne, nofun⟩
    intro text target hread'
    simp [hread] at hread'
  | @undumped text _ _ target e _ hread hmodel hwrite =>
    obtain ⟨part, houtput, hpart, hchannel, -⟩ := hwrite.exists_output
    refine ⟨part, .empty, ?_, ?_, ?_, fun hne => absurd rfl hne, nofun⟩
    · rw [ByteArray.append_empty]
      exact houtput
    · intro hne
      exact ⟨text, target, hread, hmodel, Place.isOutput_of_channel? (hchannel hne), hpart⟩
    · intro text' _ hread' hdump
      obtain rfl : text = text' := Option.some.inj (hread.symm.trans hread')
      have hok := hwrite.isOk_iff.mpr (hdump target hmodel)
      cases hok
  | @unlaid text _ _ _ e hread hdump hlayout =>
    obtain ⟨part, houtput, hplace, hpart, hwhole⟩ := hdump.exists_output
    refine ⟨part, .empty, ?_, ?_, ?_, fun hne => absurd rfl hne, nofun⟩
    · rw [ByteArray.append_empty]
      exact houtput
    · intro hne
      obtain ⟨target, hmodel, htarget⟩ := hplace hne
      exact ⟨text, target, hread, hmodel, htarget, hpart⟩
    · intro text' target hread' _
      obtain rfl : text = text' := Option.some.inj (hread.symm.trans hread')
      exact hwhole target
  | @headed text _ _ _ dumped _ layout written hread hdump hlayout hwrite =>
    obtain ⟨model, hmodelOutput, hplace, hpart, hwhole⟩ := hdump.exists_output
    obtain ⟨header, hheaderOutput, hheader, hchannel, hdone⟩ := hwrite.exists_output
    have hcomes : r.ComesTo w (layout.header r.input.text.quoted) :=
      ⟨text, layout, hread, hdump.dumpAccepted, hlayout, rfl⟩
    refine ⟨model, header, ?_, ?_, ?_, ?_, ?_⟩
    · show _ = w.output ++ model ++ header
      rw [← show dumped.output = w.output ++ model from hmodelOutput]
      exact hheaderOutput
    · intro hne
      obtain ⟨target, hmodel, htarget⟩ := hplace hne
      exact ⟨text, target, hread, hmodel, htarget, hpart⟩
    · intro text' target hread' _
      obtain rfl : text = text' := Option.some.inj (hread.symm.trans hread')
      exact hwhole target
    · intro hne
      have hopen := (hdump.channel?_iff ..).mp (hchannel hne)
      exact ⟨_, hcomes, Place.isOutput_of_channel? hopen, hheader⟩
    · intro hstatus houtput
      cases written with
      | error e => cases hstatus
      | ok _ =>
        obtain ⟨c, hopen, rfl⟩ := hdone rfl
        have hc : c = .device .output := houtput.eq_of_channel? ((hdump.channel?_iff ..).mp hopen)
        exact ⟨_, hcomes, by rw [hc]; rfl⟩

theorem at?_of_stopsEarly {path : Text} (helse : r.DumpsElsewhere w path) (hstops : r.StopsEarly w) :
    done = false ∧ w'.files.at? path = w.files.at? path := by
  cases hends with
  | unread => exact ⟨rfl, rfl⟩
  | undumped hread hmodel hwrite =>
    refine ⟨rfl, hwrite.at?_eq ?_⟩
    rintro other rfl
    exact helse other hmodel
  | unlaid hread hdump => exact ⟨rfl, hdump.at?_eq helse⟩
  | headed hread hdump hlayout =>
    have hcomes : r.ComesTo w _ := ⟨_, _, hread, hdump.dumpAccepted, hlayout, rfl⟩
    exact absurd hstops hcomes.not_stopsEarly

variable {path : Text} (houtput : r.output = .path path)
include houtput

theorem at?_of_done (hdone : done = true) (hplace : ¬ r.output.IsOutput w) :
    ∃ header, r.ComesTo w header ∧ w'.files.at? path = some (.file (encode header)) := by
  cases hends with
  | unread => cases hdone
  | undumped => cases hdone
  | unlaid => cases hdone
  | @headed text _ _ _ dumped _ layout written hread hdump hlayout hwrite =>
    rw [houtput] at hwrite hplace
    cases hwrite with
    | @whole _ c hopen haccepts =>
      refine ⟨_, ⟨text, layout, hread, hdump.dumpAccepted, hlayout, rfl⟩, ?_⟩
      obtain ⟨l, -, hat⟩ | ⟨d, rfl, hat⟩ := World.at?_filled hopen (encode (layout.header r.input.text.quoted))
      · exact hat
      · -- a device is the output, or one that accepts nothing
        cases d with
        | output => exact absurd (Place.isOutput_of_channel? ((hdump.channel?_iff ..).mp hopen)) hplace
        | full =>
          obtain ⟨c, hc, hstop, -⟩ := haccepts
          obtain rfl := Except.ok.inj (hopen.symm.trans hc)
          cases hstop
    | unopened => cases hdone
    | removed => cases hdone
    | left => cases hdone

theorem leavesRest_of_refused (helse : r.DumpsElsewhere w path) {header : Text} (hcomes : r.ComesTo w header)
    (hrefuses : ¬ w.Accepts .header r.output (encode header)) :
    done = false ∧ LeavesRest keep w w' path (encode header) := by
  have hearly := hcomes.not_stopsEarly
  cases hends with
  | unread hread => exact absurd (.inl hread) hearly
  | undumped hread hmodel hwrite => exact absurd (hwrite.stopsEarly hread hmodel) hearly
  | unlaid hread hdump hlayout => exact absurd (.inr ⟨_, hread, .inr ⟨_, hlayout⟩⟩) hearly
  | @headed text _ _ records dumped _ layout written hread hdump hlayout hwrite =>
    obtain rfl := hcomes.unique ⟨text, layout, hread, hdump.dumpAccepted, hlayout, rfl⟩
    have hok := hwrite.isOk_iff.trans (hdump.accepts_iff ..)
    cases written with
    | ok _ => exact absurd (hok.mp rfl) hrefuses
    | error e =>
      rw [houtput] at hwrite
      exact ⟨rfl, hwrite.leavesRest.congr (w := w) (hdump.channel?_iff .header (.path path)) hdump.obstacles_eq
        (hdump.at?_eq helse) records⟩

theorem leavesFile (helse : r.DumpsElsewhere w path) :
    LeavesFile keep r w w' (if done then 0 else 1) path where
  done hstatus hplace := by
    apply hends.at?_of_done houtput ?_ hplace
    by_contra hdone
    rw [if_neg hdone] at hstatus
    cases hstatus
  early hstops := by
    obtain ⟨hdone, hkept⟩ := hends.at?_of_stopsEarly helse hstops
    exact ⟨by rw [hdone]; rfl, hkept⟩
  late header hcomes hrefuses := by
    obtain ⟨hdone, hrest⟩ := hends.leavesRest_of_refused houtput helse hcomes hrefuses
    exact ⟨by rw [hdone]; rfl, hrest⟩
  stops hstatus := by
    cases hends with
    | unread hread => exact .inl (.inl hread)
    | undumped hread hmodel hwrite => exact .inl (hwrite.stopsEarly hread hmodel)
    | unlaid hread hdump hlayout => exact .inl (.inr ⟨_, hread, .inr ⟨_, hlayout⟩⟩)
    | @headed text _ _ _ dumped _ layout written hread hdump hlayout hwrite =>
      refine .inr ⟨_, ⟨text, layout, hread, hdump.dumpAccepted, hlayout, rfl⟩, fun haccepts => hstatus ?_⟩
      rw [hwrite.isOk_iff.mpr ((hdump.accepts_iff ..).mpr haccepts)]
      rfl

end Ends

section
variable {arguments : List Text} {r : Request} {keep : LogFilter} {w : World}
  (hr : Request.ofTexts? arguments = some r) (hrun : (w.run keep arguments).1 ≠ .usage)
include hr hrun

theorem exists_leavesOutput_of_run : ∃ model header,
    LeavesOutput r w (w.run keep arguments).2 (w.run keep arguments).1.status model header := by
  rw [World.run_of_isUsable keep hr (World.isUsable_of_run hr hrun)]
  exact (World.ends_carryOut keep r w).exists_leavesOutput

/-- **No part of a header is left where it can be removed.** Of what is asked for the model comes
first; the header follows if there is one, in full, or what was opened for it is removed. -/
theorem run_leaves_whole_headers :
    (∃ model header, LeavesOutput r w (w.run keep arguments).2 (w.run keep arguments).1.status model header) ∧
    ∀ path, r.output = .path path → r.DumpsElsewhere w path →
      LeavesFile keep r w (w.run keep arguments).2 (w.run keep arguments).1.status path := by
  refine ⟨exists_leavesOutput_of_run hr hrun, fun path houtput helse => ?_⟩
  rw [World.run_of_isUsable keep hr (World.isUsable_of_run hr hrun)]
  exact (World.ends_carryOut keep r w).leavesFile houtput helse

end

/-! ## One header, written and not written -/

def clockText : Text := "\n\n#define CONF_REG (CLK_BASE + 0x4)\n".toList

def clockArguments : List Text := ["clk", "clk_reg.h", "clk.h", "--dump-model=clk.xml"].map String.toList

def clockRequest : Request :=
  ⟨"clk".toList, .path "clk_reg.h".toList, .path "clk.h".toList, none, [], false, some (.path "clk.xml".toList)⟩

/-- The input, and a header from before. -/
def clockWorld (obstacles : Artifact → Place → Obstacles) : World where
  files := ((Workspace.empty ["home".toList]).add ["clk_reg.h".toList] (.file (encode clockText))).add
    ["clk.h".toList] (.file (encode "// stale\n".toList))
  input := .empty
  output := .empty
  log := []
  obstacles := obstacles

/-- One artifact has room for ten bytes, and what is left of it may have to stay. -/
def tight (artifact : Artifact) (remove : Option FileError) : Artifact → Place → Obstacles :=
  fun artifact' _ => if artifact' = artifact then { room := some (10, .noSpace), remove } else {}

theorem clock_dumpsElsewhere (obstacles : Artifact → Place → Obstacles) :
    clockRequest.DumpsElsewhere (clockWorld obstacles) "clk.h".toList := by
  intro other hother
  obtain rfl : "clk.xml".toList = other := Place.path.inj (Option.some.inj hother)
  have hheader : (clockWorld fun _ _ => {}).files.locate "clk.h".toList =
      .ok ["home".toList, "clk.h".toList] := by
    decide +kernel
  have hmodel : (clockWorld fun _ _ => {}).files.locate "clk.xml".toList =
      .ok ["home".toList, "clk.xml".toList] := by
    decide +kernel
  intro ⟨l, hl, hl'⟩
  obtain rfl := Except.ok.inj (hmodel.symm.trans hl)
  have heq := Except.ok.inj (hheader.symm.trans hl')
  exact absurd heq (by decide)

theorem clock_stale (obstacles : Artifact → Place → Obstacles) :
    (clockWorld obstacles).files.at? "clk.h".toList = some (.file (encode "// stale\n".toList)) := by
  show (clockWorld fun _ _ => {}).files.at? _ = _
  decide +kernel

theorem clock_text? (obstacles : Artifact → Place → Obstacles) :
    (clockWorld obstacles).text? clockRequest.input = some clockText := by
  have hentry : (clockWorld fun _ _ => {}).files.at? "clk_reg.h".toList = some (.file (encode clockText)) := by
    decide +kernel
  exact World.text?_of_at? rfl hentry

theorem clock_channel? : ∀ remove ∈ [none, some FileError.notPermitted],
    (clockWorld (tight .header remove)).channel? .model (.path "clk.xml".toList) =
        .ok (.file ["home".toList, "clk.xml".toList]) ∧
      (clockWorld (tight .header remove)).channel? .header (.path "clk.h".toList) =
        .ok (.file ["home".toList, "clk.h".toList]) := by
  decide +kernel

theorem clock_dumpAccepted {remove : Option FileError} (hremove : remove ∈ [none, some FileError.notPermitted]) :
    clockRequest.DumpAccepted (clockWorld (tight .header remove)) (clockRequest.reading clockText).peripheral := by
  intro target htarget
  obtain rfl := Option.some.inj htarget
  exact ⟨_, (clock_channel? remove hremove).1, rfl, rfl⟩

theorem clock_comesTo {obstacles : Artifact → Place → Obstacles}
    (hdump : clockRequest.DumpAccepted (clockWorld obstacles) (clockRequest.reading clockText).peripheral) :
    ∃ header, clockRequest.ComesTo (clockWorld obstacles) header ∧ 10 < (encode header).size := by
  have hsize : ((clockRequest.reading clockText).peripheral.layout.map fun layout =>
      decide (10 < (encode (layout.header clockRequest.input.text.quoted)).size)).toOption = some true := by
    decide +kernel
  cases hlayout : (clockRequest.reading clockText).peripheral.layout with
  | error e => simp [hlayout, Except.map, Except.toOption] at hsize
  | ok layout =>
    exact ⟨_, ⟨clockText, layout, clock_text? obstacles, hdump, hlayout, rfl⟩,
      by simpa [hlayout, Except.map, Except.toOption] using hsize⟩

def clockRun (obstacles : Artifact → Place → Obstacles) : Outcome × World :=
  (clockWorld obstacles).run (.upTo 2) clockArguments

theorem run_leaves_whole_headers_clock :
    Request.ofTexts? clockArguments = some clockRequest ∧ (∀ obstacles, (clockRun obstacles).1 ≠ .usage) ∧
    -- nothing stands in the way
    ((clockRun fun _ _ => {}).1.status = 0 ∧ ∃ header, clockRequest.ComesTo (clockWorld fun _ _ => {}) header ∧
      (clockRun fun _ _ => {}).2.files.at? "clk.h".toList = some (.file (encode header))) ∧
    -- the model cannot be written
    ((clockRun (tight .model none)).1.status = 1 ∧
      (clockRun (tight .model none)).2.files.at? "clk.h".toList = some (.file (encode "// stale\n".toList))) ∧
    -- the header cannot be written
    ((clockRun (tight .header none)).1.status = 1 ∧
      (clockRun (tight .header none)).2.files.at? "clk.h".toList = none) ∧
    -- nor can what is there of it be removed
    ((clockRun (tight .header (some .notPermitted))).1.status = 1 ∧
      unremovable "clk.h".toList FileError.notPermitted.message ∈
        (clockRun (tight .header (some .notPermitted))).2.log) := by
  have hr : Request.ofTexts? clockArguments = some clockRequest := by decide +kernel
  have hrun (obstacles : Artifact → Place → Obstacles) : (clockRun obstacles).1 ≠ .usage := by
    have husable : clockRequest.places.isUsable (clockWorld obstacles).files.kind := by
      show clockRequest.places.isUsable (clockWorld fun _ _ => {}).files.kind
      decide +kernel
    unfold clockRun
    rw [World.run_of_isUsable _ hr husable]
    nofun
  have hleaves (obstacles : Artifact → Place → Obstacles) : LeavesFile (.upTo 2) clockRequest
      (clockWorld obstacles) (clockRun obstacles).2 (clockRun obstacles).1.status "clk.h".toList :=
    (run_leaves_whole_headers hr (hrun obstacles)).2 "clk.h".toList rfl (clock_dumpsElsewhere obstacles)
  refine ⟨hr, hrun, ?_, ?_, ?_, ?_⟩
  · have hstatus : (clockRun fun _ _ => {}).1.status = 0 := by decide +kernel
    refine ⟨hstatus, (hleaves fun _ _ => {}).done hstatus fun houtput => ?_⟩
    exact absurd ((clock_stale _).symm.trans houtput) (by simp)
  · have hrefuses : ¬ clockRequest.DumpAccepted (clockWorld (tight .model none))
        (clockRequest.reading clockText).peripheral := fun h =>
      World.not_accepts_of_room rfl (by decide +kernel) (h _ rfl)
    obtain ⟨hstatus, hkept⟩ := (hleaves (tight .model none)).early (.inr ⟨clockText, clock_text? _, .inl hrefuses⟩)
    exact ⟨hstatus, hkept.trans (clock_stale _)⟩
  · obtain ⟨header, hcomes, hsize⟩ := clock_comesTo (@clock_dumpAccepted none (by simp))
    obtain ⟨hstatus, hrest⟩ := (hleaves (tight .header none)).late header hcomes (World.not_accepts_of_room rfl hsize)
    exact ⟨hstatus, hrest.removed _ (clock_channel? none (by simp)).2 rfl⟩
  · obtain ⟨header, hcomes, hsize⟩ := clock_comesTo (@clock_dumpAccepted (some .notPermitted) (by simp))
    obtain ⟨hstatus, hrest⟩ := (hleaves (tight .header (some .notPermitted))).late header hcomes
      (World.not_accepts_of_room rfl hsize)
    exact ⟨hstatus, (hrest.left _ .notPermitted (clock_channel? _ (by simp)).2 rfl).2 rfl⟩

def linkWorld : World where
  files := (Workspace.empty []).add ["dev".toList, "stdout".toList] (.device .output)
  input := encode clockText
  output := .empty
  log := []

def linkArguments : List Text := ["clk", "-", "/dev/stdout"].map String.toList

def linkRequest : Request := ⟨"clk".toList, .standard, .path "/dev/stdout".toList, none, [], false, none⟩

def Entry.size? : Entry → Option Nat
  | file content => some content.size
  | _ => none

/-- A header is on the standard output that was to go to a path, and ten bytes of one stay at its path. -/
theorem run_leaves_headers_elsewhere :
    (linkRequest.output ≠ .standard ∧ (linkWorld.run (.upTo 2) linkArguments).1.status = 0 ∧
      ∃ header, linkRequest.ComesTo linkWorld header ∧
        (linkWorld.run (.upTo 2) linkArguments).2.output = encode header) ∧
    (clockRun (tight .header (some .notPermitted))).1.status = 1 ∧
    ((clockRun (tight .header (some .notPermitted))).2.files.at? "clk.h".toList).bind Entry.size? = some 10 ∧
    ∃ header, clockRequest.ComesTo (clockWorld (tight .header (some .notPermitted))) header ∧
      10 < (encode header).size := by
  have hr : Request.ofTexts? linkArguments = some linkRequest := by decide +kernel
  have hstatus : (linkWorld.run (.upTo 2) linkArguments).1.status = 0 := by decide +kernel
  have hrun : (linkWorld.run (.upTo 2) linkArguments).1 ≠ .usage := by decide +kernel
  have houtput : linkRequest.output.IsOutput linkWorld := by
    show linkWorld.files.at? "/dev/stdout".toList = some (.device .output)
    decide +kernel
  obtain ⟨model, header, hleaves⟩ := exists_leavesOutput_of_run hr hrun
  obtain ⟨text, hcomes, hheader⟩ := hleaves.header_whole hstatus houtput
  have hmodel : model = .empty := by
    by_contra hne
    obtain ⟨_, _, _, hmodel, _⟩ := hleaves.model_part hne
    cases hmodel
  refine ⟨⟨nofun, hstatus, text, hcomes, ?_⟩, by decide +kernel, by decide +kernel,
    clock_comesTo (@clock_dumpAccepted (some .notPermitted) (by simp))⟩
  rw [hleaves.output_eq, hmodel, hheader]
  show ByteArray.empty ++ ByteArray.empty ++ encode text = encode text
  rw [ByteArray.empty_append, ByteArray.empty_append]

end RegisterMap.Tool
