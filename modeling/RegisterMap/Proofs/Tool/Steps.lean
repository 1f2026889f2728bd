import Mathlib
import RegisterMap.Proofs.Tool.Writes

/-!
# Steps of a run

A run looks at places, reads, and carries out its steps until one fails. Nothing
that it does depends on what was reported, so a run is the one that reports
everything, seen through the filter of its log.
-/

namespace RegisterMap.Tool

theorem decode?_encode (s : Text) : decode? (encode s) = some s := by
  have hvalid : (encode s).IsValidUTF8 := (String.ofList s).isValidUTF8
  rw [decode?, String.fromUTF8?, dif_pos hvalid]
  exact congrArg some String.toList_ofList

namespace World

def text? (w : World) (place : Place) : Option Text := (w.read place).toOption.bind decode?

theorem text?_of_at? {w : World} {path text : Text} (herror : w.readError = none)
    (h : w.files.at? path = some (.file (encode text))) : w.text? (.path path) = some text := by
  unfold Workspace.at? at h
  unfold text? read
  cases hfind : w.files.find path with
  | error e => simp [hfind, Except.toOption] at h
  | ok entry =>
    obtain rfl : entry = .file (encode text) := by simpa [hfind, Except.toOption] using h
    simp [herror, hfind, bind, Except.bind, Entry.content, Except.toOption, decode?_encode]

def logged (w : World) (records : List LogRecord) : World := { w with log := w.log ++ records }

def unlogged (w : World) : World := { w with log := [] }

theorem logged_logged (w : World) (a b : List LogRecord) : (w.logged a).logged b = w.logged (a ++ b) := by
  simp [logged]

theorem report_eq (keep : LogFilter) (r : LogRecord) (w : World) :
    w.report keep r = w.logged ([r].filter keep) := by
  unfold report logged
  by_cases h : keep r
  · simp [h]
  · simp [h]

/-- The world with more in front of its log, of which a filter keeps its part. -/
def filtered (w : World) (log : List LogRecord) (keep : LogFilter) : World :=
  { w with log := log ++ w.log.filter keep }

end World

def everything : LogFilter := fun _ => true

/-! ## Runs and what is seen of them -/

section
variable {log : List LogRecord} {keep : LogFilter}

/-- One computation does what another one does, but for what is kept of its log. -/
def Follows (log : List LogRecord) (keep : LogFilter) {α : Type} (f g : StateM World α) : Prop :=
  ∀ w : World, f (w.filtered log keep) = ((g w).1, (g w).2.filtered log keep)

theorem follows_pure {α : Type} (a : α) : Follows log keep (pure a) (pure a) := fun _ => rfl

theorem follows_bind {α β : Type} {f g : StateM World α} {f' g' : α → StateM World β} (h : Follows log keep f g)
    (h' : ∀ a, Follows log keep (f' a) (g' a)) : Follows log keep (f >>= f') (g >>= g') := by
  intro w
  rw [World.bind_apply, World.bind_apply, h w]
  exact h' (g w).1 (g w).2

open World (system)

theorem follows_read (place : Place) :
    Follows log keep ((system keep).read place) ((system everything).read place) := fun _ => rfl

theorem follows_create (artifact : Artifact) (target : Place) :
    Follows log keep ((system keep).create artifact target) ((system everything).create artifact target) := by
  intro w
  have hchannel : (w.filtered log keep).channel? artifact target = w.channel? artifact target := rfl
  show (w.filtered log keep).create artifact target =
    ((w.create artifact target).1, (w.create artifact target).2.filtered log keep)
  unfold World.create
  rw [hchannel]
  cases w.channel? artifact target with
  | ok c => rfl
  | error e => rfl

theorem put_filtered (w : World) (content : ByteArray) (c : Channel) :
    (w.filtered log keep).put content c = (w.put content c).filtered log keep := by
  cases c with
  | file l => rfl
  | device d =>
    cases d
    all_goals rfl

theorem follows_write (o : Opened) (content : ByteArray) :
    Follows log keep ((system keep).write o content) ((system everything).write o content) := by
  intro w
  show (w.filtered log keep).write o content = ((w.write o content).1, (w.write o content).2.filtered log keep)
  unfold World.write
  cases o.stop? content.size with
  | none => simp only [put_filtered]
  | some stop => simp only [put_filtered]

theorem follows_flush (o : Opened) :
    Follows log keep ((system keep).flush o) ((system everything).flush o) := fun _ => rfl

theorem follows_remove (artifact : Artifact) (path : Text) :
    Follows log keep ((system keep).remove artifact path) ((system everything).remove artifact path) := by
  intro w
  show (w.filtered log keep).remove artifact path =
    ((w.remove artifact path).1, (w.remove artifact path).2.filtered log keep)
  have hremove : (w.filtered log keep).files.remove path = w.files.remove path := rfl
  have hobstacles : (w.filtered log keep).obstacles = w.obstacles := rfl
  unfold World.remove
  rw [hremove, hobstacles]
  cases (w.obstacles artifact (.path path)).remove with
  | some e => rfl
  | none =>
    cases w.files.remove path with
    | error e => rfl
    | ok files => rfl

theorem follows_report (r : LogRecord) :
    Follows log keep ((system keep).report r) ((system everything).report r) := by
  intro w
  show ((), (w.filtered log keep).report keep r) = ((), (w.report everything r).filtered log keep)
  rw [World.report_eq, World.report_eq]
  simp [World.logged, World.filtered, everything]

theorem follows_fill (o : Opened) (text : Text) :
    Follows log keep ((system keep).fill o text) ((system everything).fill o text) := by
  unfold System.fill
  apply follows_bind (follows_write o (encode text))
  intro written
  cases written with
  | ok _ => exact follows_flush o
  | error e => exact follows_pure _

theorem follows_discard (artifact : Artifact) (target : Place) :
    Follows log keep ((system keep).discard artifact target) ((system everything).discard artifact target) := by
  cases target with
  | standard => exact follows_pure ()
  | path path =>
    apply follows_bind (follows_remove artifact path)
    intro removed
    cases removed with
    | ok _ => exact follows_pure ()
    | error e => exact follows_report _

theorem follows_store (artifact : Artifact) (target : Place) (text : Text) :
    Follows log keep ((system keep).store artifact target text) ((system everything).store artifact target text) := by
  unfold System.store
  apply follows_bind (follows_create artifact target)
  intro opened
  cases opened with
  | error e => exact follows_pure _
  | ok o =>
    apply follows_bind (follows_fill o text)
    intro written
    cases written with
    | ok _ => exact follows_pure _
    | error e => exact follows_bind (follows_discard artifact target) fun _ => follows_pure _

/-- **A filter only decides what is seen.** -/
theorem follows_perform : ∀ steps : List Step,
    Follows log keep ((system keep).perform steps) ((system everything).perform steps)
  | [] => follows_pure true
  | .log r :: rest => follows_bind (follows_report r) fun _ => follows_perform rest
  | .fail r :: _ => follows_bind (follows_report r) fun _ => follows_pure false
  | .write artifact target text :: rest => by
    apply follows_bind (follows_store artifact target text)
    intro written
    cases written with
    | ok _ => exact follows_perform rest
    | error e => exact follows_bind (follows_report _) fun _ => follows_pure false

end

namespace World

/-! ## Places -/

theorem isReadable_congr {place : Place} {kind kind' : Text → Except FileError Kind}
    (h : kind place.text = kind' place.text) : place.isReadable kind = place.isReadable kind' := by
  cases place with
  | standard => rfl
  | path s =>
    have hs : kind s = kind' s := h
    simp only [Place.isReadable, hs]

theorem isWritable_congr {place : Place} {kind kind' : Text → Except FileError Kind}
    (h : ∀ path ∈ place.text :: (Path.parent? place.text).toList, kind path = kind' path) :
    place.isWritable kind = place.isWritable kind' := by
  cases place with
  | standard => rfl
  | path s =>
    have hs : kind s = kind' s := h s (by simp [Place.text])
    simp only [Place.isWritable, hs]
    cases hparent : Path.parent? s with
    | none => rfl
    | some parent =>
      have hp : kind parent = kind' parent := h parent (by simp [Place.text, hparent])
      simp only [Option.any_some, hp]

theorem isUsable_congr (p : Places) {kind kind' : Text → Except FileError Kind}
    (h : ∀ path ∈ p.paths, kind path = kind' path) : p.isUsable kind = p.isUsable kind' := by
  have hinput : p.input.all (·.isReadable kind) = p.input.all (·.isReadable kind') := by
    cases hp : p.input with
    | none => rfl
    | some place => exact isReadable_congr (h _ (by simp [Places.paths, hp]))
  have htargets : p.targets.all (·.isWritable kind) = p.targets.all (·.isWritable kind') := by
    rw [Bool.eq_iff_iff, List.all_eq_true, List.all_eq_true]
    apply forall₂_congr
    intro target htarget
    rw [isWritable_congr]
    intro path hpath
    exact h path (List.mem_append_right _ (List.mem_flatMap.mpr ⟨target, htarget, hpath⟩))
  unfold Places.isUsable
  rw [hinput, htargets]

theorem mapM_kind (keep : LogFilter) (w : World) : ∀ paths : List Text,
    paths.mapM (system keep).kind w = (paths.map w.files.kind, w)
  | [] => rfl
  | path :: rest => by
    simp only [List.mapM_cons, bind_apply]
    show (w.files.kind path :: (rest.mapM (system keep).kind w).1, (rest.mapM (system keep).kind w).2) = _
    rw [mapM_kind keep w rest]
    rfl

theorem lookup_zip_map {f : Text → Except FileError Kind} {path : Text} : ∀ {paths : List Text}, path ∈ paths →
    (paths.zip (paths.map f)).lookup path = some (f path)
  | other :: rest, h => by
    rw [List.map_cons, List.zip_cons_cons, List.lookup_cons]
    by_cases heq : path = other
    · subst heq
      simp
    · have hrest : path ∈ rest := (List.mem_cons.mp h).resolve_left heq
      rw [beq_false_of_ne heq]
      exact lookup_zip_map hrest

theorem kinds_apply (keep : LogFilter) (paths : List Text) (w : World) :
    ((system keep).kinds paths w).2 = w ∧
      ∀ path ∈ paths, ((system keep).kinds paths w).1 path = w.files.kind path := by
  unfold System.kinds
  rw [bind_apply, mapM_kind]
  refine ⟨rfl, fun path hpath => ?_⟩
  show (List.lookup path _).getD _ = _
  rw [lookup_zip_map hpath]
  rfl

theorem run_eq (keep : LogFilter) (arguments : List Text) (w : World) :
    w.run keep arguments =
      match Command.ofTexts? arguments with
      | none => (.usage, w)
      | some command =>
        if command.places.isUsable w.files.kind then
          match command with
          | .help _ => (.help, w)
          | .generate r => (.finished ((system keep).carryOut r w).1, ((system keep).carryOut r w).2)
        else (.usage, w) := by
  unfold run System.run
  cases Command.ofTexts? arguments with
  | none => rfl
  | some command =>
    obtain ⟨hworld, hkinds⟩ := kinds_apply keep command.places.paths w
    simp only [bind_apply]
    rw [hworld, isUsable_congr command.places hkinds]
    by_cases husable : command.places.isUsable w.files.kind
    · simp only [husable, if_true]
      cases command with
      | help p => rfl
      | generate r => rfl
    · simp only [husable]
      rfl

theorem run_of_isUsable (keep : LogFilter) {arguments : List Text} {r : Request} {w : World}
    (hr : Request.ofTexts? arguments = some r) (husable : r.places.isUsable w.files.kind) :
    w.run keep arguments = (.finished ((system keep).carryOut r w).1, ((system keep).carryOut r w).2) := by
  obtain ⟨command, hcommand, hrequest⟩ := Option.bind_eq_some_iff.mp hr
  cases command with
  | help p => cases hrequest
  | generate r' =>
    obtain rfl : r' = r := Option.some.inj hrequest
    rw [run_eq, hcommand]
    exact if_pos husable

theorem isUsable_of_run {keep : LogFilter} {arguments : List Text} {r : Request} {w : World}
    (hr : Request.ofTexts? arguments = some r) (h : (w.run keep arguments).1 ≠ .usage) :
    r.places.isUsable w.files.kind := by
  obtain ⟨command, hcommand, hrequest⟩ := Option.bind_eq_some_iff.mp hr
  cases command with
  | help p => cases hrequest
  | generate r' =>
    obtain rfl : r' = r := Option.some.inj hrequest
    by_cases husable : r'.places.isUsable w.files.kind
    · exact husable
    · rw [run_eq, hcommand] at h
      exact absurd (congrArg Prod.fst (if_neg husable)) h

end World

/-! ## Scripts -/

def Step.record? : Step → Option LogRecord
  | .log r => some r
  | _ => none

/-- What there is to report of the findings of a peripheral. -/
def warnings (p : Peripheral) : List LogRecord := p.findings.map (record .warn ·.message)

namespace Request

def readRecords (r : Request) (reading : Header.Reading) : List LogRecord :=
  (r.readSteps reading).filterMap Step.record?

def laterSteps (r : Request) (p : Peripheral) : List Step := r.modelSteps p ++ r.headerSteps p

theorem script_eq (r : Request) (text : Text) :
    let reading := r.reading text
    r.script (some text) = (r.readRecords reading ++ if r.lint then warnings reading.peripheral else []).map .log ++
      r.laterSteps reading.peripheral := by
  intro reading
  have hread : r.readSteps reading = (r.readRecords reading).map .log := by
    simp [readRecords, readSteps, List.filterMap_append, List.filterMap_map, Function.comp_def, Step.record?]
  have hlint : r.lintSteps reading.peripheral = (if r.lint then warnings reading.peripheral else []).map .log := by
    unfold lintSteps
    by_cases h : r.lint
    · simp [h, warnings, Function.comp_def]
    · simp [h]
  simp only [script, laterSteps, List.map_append, List.append_assoc, reading, ← hread, ← hlint]

end Request

namespace World

theorem perform_logs (keep : LogFilter) (steps : List Step) : ∀ (records : List LogRecord) (w : World),
    (system keep).perform (records.map .log ++ steps) w =
      (system keep).perform steps (w.logged (records.filter keep))
  | [], w => by simp [logged]
  | r :: rest, w => by
    show (system keep).perform (rest.map .log ++ steps) (w.report keep r) = _
    rw [perform_logs keep steps rest, report_eq, logged_logged, ← List.filter_append]
    rfl

theorem perform_fail (keep : LogFilter) (r : LogRecord) (rest : List Step) (w : World) :
    (system keep).perform (.fail r :: rest) w = (false, w.logged ([r].filter keep)) := by
  show (false, w.report keep r) = _
  rw [report_eq]

theorem perform_write (keep : LogFilter) (artifact : Artifact) (target : Place) (text : Text) (rest : List Step)
    (w : World) :
    (system keep).perform (.write artifact target text :: rest) w =
      match (system keep).store artifact target text w with
      | (.ok (), w) => (system keep).perform rest w
      | (.error e, w) => (false, w.logged ([artifact.unwritable e.message].filter keep)) := by
  rw [System.perform, bind_apply]
  cases (system keep).store artifact target text w with
  | mk written w' =>
    cases written with
    | ok _ => rfl
    | error e =>
      show (false, w'.report keep _) = _
      rw [report_eq]

variable {r : Request} {w : World}

theorem steps_of_text? {text : Text} (h : w.text? r.input = some text) :
    r.steps (w.read r.input) = r.script (some text) := by
  unfold text? at h
  cases hread : w.read r.input with
  | error e => simp [hread, Except.toOption] at h
  | ok bytes =>
    have hdecode : decode? bytes = some text := by simpa [hread, Except.toOption] using h
    simp only [Request.steps, hdecode]

theorem steps_of_text?_eq_none (h : w.text? r.input = none) :
    ∃ reason, r.steps (w.read r.input) = [.fail (r.unreadable reason)] := by
  unfold text? at h
  cases hread : w.read r.input with
  | error e => exact ⟨e.message, rfl⟩
  | ok bytes =>
    have hdecode : decode? bytes = none := by simpa [hread, Except.toOption] using h
    exact ⟨invalidText, by simp only [Request.steps, hdecode, Request.script]⟩

theorem carryOut_eq (keep : LogFilter) (r : Request) (w : World) :
    (system keep).carryOut r w = (system keep).perform (r.steps (w.read r.input)) w := rfl

theorem carryOut_of_text? (keep : LogFilter) {text : Text} (h : w.text? r.input = some text) :
    let reading := r.reading text
    let reported := r.readRecords reading ++ if r.lint then warnings reading.peripheral else []
    (system keep).carryOut r w =
      (system keep).perform (r.laterSteps reading.peripheral) (w.logged (reported.filter keep)) := by
  intro reading reported
  rw [carryOut_eq, steps_of_text? h, r.script_eq, perform_logs]

end World

end RegisterMap.Tool
