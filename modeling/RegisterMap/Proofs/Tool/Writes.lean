import Mathlib
import RegisterMap.Proofs.Tool.Files
import RegisterMap.Tool.World

/-!
# Writing a text

Each of the calls that a text is written with can fail. `Stored` lists what comes
of that: the text is there in full, or nothing was opened, or a first part of it
was written, and removed again where that was possible.
-/

namespace RegisterMap.Tool

def Channel.onOutput (content : ByteArray) : Channel → ByteArray
  | .device .output => content
  | _ => .empty

namespace World

/-- The world with a content at what a channel leads to; a file holds nothing else. -/
def filled (w : World) (content : ByteArray) : Channel → World
  | .file l => { w with files := w.files.update l (some (.file content)) }
  | .device .output => { w with output := w.output ++ content }
  | .device .full => w

theorem put_clear (w : World) (content : ByteArray) (c : Channel) :
    ({ w with files := w.files.clear c } : World).put content c = w.filled content c := by
  cases c with
  | file l => simp only [put, filled, Workspace.append_clear]
  | device d =>
    cases d
    all_goals rfl

theorem output_filled (w : World) (content : ByteArray) (c : Channel) :
    (w.filled content c).output = w.output ++ c.onOutput content := by
  cases c with
  | file l => simp [filled, Channel.onOutput]
  | device d =>
    cases d with
    | output => rfl
    | full => simp [filled, Channel.onOutput]

theorem obstacles_filled (w : World) (content : ByteArray) (c : Channel) :
    (w.filled content c).obstacles = w.obstacles := by
  cases c with
  | file l => rfl
  | device d =>
    cases d
    all_goals rfl

section
variable {w : World} {l : Location} {c : Channel} (hopen : w.files.channelAt l = .ok c) (content : ByteArray)
include hopen

theorem sameDirectories_filled : w.files.SameDirectories (w.filled content c).files := by
  cases c with
  | file l' =>
    obtain rfl := Workspace.eq_of_channelAt_file hopen
    exact .update (Workspace.not_directory_of_channelAt hopen) nofun
  | device d =>
    cases d
    all_goals exact .refl w.files

theorem entries_filled_ne {l' : Location} (h : l' ≠ l) : (w.filled content c).files.entries l' = w.files.entries l' := by
  cases c with
  | file l'' =>
    obtain rfl := Workspace.eq_of_channelAt_file hopen
    exact Workspace.entries_update_ne w.files h _
  | device d =>
    cases d
    all_goals rfl

theorem channelAt_filled (l' : Location) : (w.filled content c).files.channelAt l' = w.files.channelAt l' := by
  cases c with
  | file l'' =>
    obtain rfl := Workspace.eq_of_channelAt_file hopen
    exact Workspace.channelAt_update_file hopen content l'
  | device d =>
    cases d
    all_goals rfl

end

/-! ## What a place leads to -/

theorem exists_locate_of_channel? {w : World} {artifact : Artifact} {path : Text} {c : Channel}
    (h : w.channel? artifact (.path path) = .ok c) : ∃ l, w.files.locate path = .ok l ∧ w.files.channelAt l = .ok c := by
  unfold channel? at h
  cases hcreate : (w.obstacles artifact (.path path)).create with
  | some e => simp [hcreate] at h
  | none =>
    cases hlocate : w.files.locate path with
    | error e => simp [hcreate, hlocate, bind, Except.bind] at h
    | ok l => exact ⟨l, rfl, by simpa [hcreate, hlocate, bind, Except.bind] using h⟩

theorem channel?_standard {w : World} {artifact : Artifact} {c : Channel}
    (h : w.channel? artifact .standard = .ok c) : c = .device .output := by
  unfold channel? at h
  cases hcreate : (w.obstacles artifact .standard).create with
  | some e => simp [hcreate] at h
  | none =>
    simp only [hcreate] at h
    cases h
    rfl

/-- Nothing keeps a content from being written in full. -/
def Accepts (w : World) (artifact : Artifact) (target : Place) (content : ByteArray) : Prop :=
  ∃ c, w.channel? artifact target = .ok c ∧
    Opened.stop? ⟨c, w.obstacles artifact target⟩ content.size = none ∧ (w.obstacles artifact target).flush = none

theorem not_accepts_of_room {w : World} {artifact : Artifact} {target : Place} {content : ByteArray} {n : Nat}
    {e : FileError} (hroom : (w.obstacles artifact target).room = some (n, e)) (hsize : n < content.size) :
    ¬ w.Accepts artifact target content := by
  intro ⟨c, _, hstop, _⟩
  unfold Opened.stop? at hstop
  split at hstop
  · cases hstop
  · have hle : content.size ≤ n := by simpa [hroom] using hstop
    omega

theorem sameDirectories_of_channel? {w : World} {artifact : Artifact} {target : Place} {c : Channel}
    (h : w.channel? artifact target = .ok c) (content : ByteArray) :
    w.files.SameDirectories (w.filled content c).files := by
  cases target with
  | standard =>
    obtain rfl := channel?_standard h
    exact .refl w.files
  | path path =>
    obtain ⟨l, -, hchannel⟩ := exists_locate_of_channel? h
    exact sameDirectories_filled hchannel content

theorem channel?_filled {w : World} {artifact : Artifact} {target : Place} {c : Channel}
    (h : w.channel? artifact target = .ok c) (content : ByteArray) (artifact' : Artifact) (target' : Place)
    (c' : Channel) :
    (w.filled content c).channel? artifact' target' = .ok c' ↔ w.channel? artifact' target' = .ok c' := by
  unfold channel?
  rw [obstacles_filled]
  cases (w.obstacles artifact' target').create with
  | some e => exact Iff.rfl
  | none =>
    cases target' with
    | standard => exact Iff.rfl
    | path path' =>
      have hchannel (l : Location) : (w.filled content c).files.channelAt l = w.files.channelAt l := by
        cases target with
        | standard =>
          obtain rfl := channel?_standard h
          rfl
        | path path =>
          obtain ⟨l', -, hl'⟩ := exists_locate_of_channel? h
          exact channelAt_filled hl' content l
      -- Only a file is written to, so paths lead where they led.
      have hsame := sameDirectories_of_channel? h content
      simp only [bind, Except.bind]
      cases hlocate : w.files.locate path' with
      | ok l => simp only [hsame.locate hlocate, hchannel]
      | error e =>
        cases hlocate' : (w.filled content c).files.locate path' with
        | ok l => simp [hsame.locate_iff.mp hlocate'] at hlocate
        | error e' => simp

/-! ## All that can come of a write -/

end World

/-- How writing a text to a place ends, and what it leaves. -/
inductive Stored (keep : LogFilter) (w : World) (artifact : Artifact) (text : Text) :
    Place → Except FileError Unit → World → Prop
  | whole {target : Place} {c : Channel} (hopen : w.channel? artifact target = .ok c)
      (haccepts : w.Accepts artifact target (encode text)) :
      Stored keep w artifact text target (.ok ()) (w.filled (encode text) c)
  | unopened {target : Place} {e : FileError} (hopen : w.channel? artifact target = .error e) :
      Stored keep w artifact text target (.error e) w
  | cut {n : Nat} {e : FileError} (hopen : w.channel? artifact .standard = .ok (.device .output))
      (hrefuses : ¬ w.Accepts artifact .standard (encode text)) :
      Stored keep w artifact text .standard (.error e) (w.filled ((encode text).extract 0 n) (.device .output))
  | removed {path : Text} {c : Channel} {l : Location} {n : Nat} {e : FileError}
      (hopen : w.channel? artifact (.path path) = .ok c) (hlocate : w.files.locate path = .ok l)
      (hrefuses : ¬ w.Accepts artifact (.path path) (encode text))
      (hremove : (w.obstacles artifact (.path path)).remove = none) :
      Stored keep w artifact text (.path path) (.error e)
        { w.filled ((encode text).extract 0 n) c with files := w.files.update l none }
  | left {path : Text} {c : Channel} {n : Nat} {e reason : FileError}
      (hopen : w.channel? artifact (.path path) = .ok c)
      (hrefuses : ¬ w.Accepts artifact (.path path) (encode text))
      (hremove : (w.obstacles artifact (.path path)).remove = some reason) :
      Stored keep w artifact text (.path path) (.error e)
        ((w.filled ((encode text).extract 0 n) c).report keep (unremovable path reason.message))

namespace World

theorem bind_apply {α β : Type} (x : StateM World α) (f : α → StateM World β) (w : World) :
    (x >>= f) w = f (x w).1 (x w).2 := rfl

theorem fill_eq (keep : LogFilter) (o : Opened) (text : Text) (w : World) :
    (system keep).fill o text w =
      match o.stop? (encode text).size, o.obstacles.flush with
      | some (n, e), _ => (.error e, w.put ((encode text).extract 0 n) o.channel)
      | none, some e => (.error e, w.put (encode text) o.channel)
      | none, none => (.ok (), w.put (encode text) o.channel) := by
  unfold System.fill
  simp only [bind_apply, system, write]
  cases o.stop? (encode text).size with
  | some stop => rfl
  | none =>
    cases o.obstacles.flush with
    | some e => rfl
    | none => rfl

theorem fill_cleared {w : World} {artifact : Artifact} {target : Place} {c : Channel}
    (hopen : w.channel? artifact target = .ok c) (keep : LogFilter) (text : Text) :
    let filling := (system keep).fill ⟨c, w.obstacles artifact target⟩ text { w with files := w.files.clear c }
    (w.Accepts artifact target (encode text) ∧ filling = (.ok (), w.filled (encode text) c)) ∨
      ¬ w.Accepts artifact target (encode text) ∧
        ∃ n e, filling = (.error e, w.filled ((encode text).extract 0 n) c) := by
  intro filling
  have haccepts : w.Accepts artifact target (encode text) ↔
      Opened.stop? ⟨c, w.obstacles artifact target⟩ (encode text).size = none ∧
        (w.obstacles artifact target).flush = none := by
    unfold Accepts
    simp [hopen]
  have hfilling := fill_eq keep ⟨c, w.obstacles artifact target⟩ text { w with files := w.files.clear c }
  simp only [put_clear] at hfilling
  rw [haccepts]
  cases hstop : Opened.stop? ⟨c, w.obstacles artifact target⟩ (encode text).size with
  | some stop =>
    rw [hstop] at hfilling
    exact .inr ⟨by simp, stop.1, stop.2, hfilling⟩
  | none =>
    cases hflush : (w.obstacles artifact target).flush with
    | some e =>
      rw [hstop, hflush] at hfilling
      refine .inr ⟨by simp, (encode text).size, e, ?_⟩
      rw [ByteArray.extract_zero_size]
      exact hfilling
    | none =>
      rw [hstop, hflush] at hfilling
      exact .inl ⟨by simp, hfilling⟩

theorem discard_path (keep : LogFilter) (artifact : Artifact) (path : Text) (w : World) :
    (system keep).discard artifact (.path path) w =
      match w.remove artifact path with
      | (.ok (), w) => ((), w)
      | (.error e, w) => ((), w.report keep (unremovable path e.message)) := by
  unfold System.discard
  simp only [bind_apply, system]
  cases w.remove artifact path with
  | mk removed w' =>
    cases removed with
    | ok _ => rfl
    | error e => rfl

theorem store_eq (keep : LogFilter) (artifact : Artifact) (target : Place) (text : Text) (w : World) :
    (system keep).store artifact target text w =
      match w.create artifact target with
      | (.error e, w) => (.error e, w)
      | (.ok o, w) =>
        match (system keep).fill o text w with
        | (.ok (), w) => (.ok (), w)
        | (.error e, w) => (.error e, ((system keep).discard artifact target w).2) := by
  have hcreate : (system keep).create artifact target w = w.create artifact target := rfl
  unfold System.store
  rw [bind_apply, hcreate]
  cases w.create artifact target with
  | mk opened w' =>
    cases opened with
    | error e => rfl
    | ok o =>
      simp only [bind_apply]
      cases (system keep).fill o text w' with
      | mk filled w'' =>
        cases filled with
        | ok _ => rfl
        | error e => rfl

theorem remove_filled {w : World} {artifact : Artifact} {path : Text} {c : Channel} {l : Location}
    (hlocate : w.files.locate path = .ok l) (hchannel : w.files.channelAt l = .ok c)
    (hremove : (w.obstacles artifact (.path path)).remove = none) (content : ByteArray) :
    (w.filled content c).remove artifact path =
      (.ok (), { w.filled content c with files := w.files.update l none }) := by
  have hlocate' := (sameDirectories_filled hchannel content).locate hlocate
  have hfiles : (w.filled content c).files.remove path = .ok (w.files.update l none) := by
    cases c with
    | file l' =>
      obtain rfl := Workspace.eq_of_channelAt_file hchannel
      rw [Workspace.remove_of_locate hlocate' (Workspace.entries_update ..) nofun]
      exact congrArg Except.ok (Workspace.update_update ..)
    | device d =>
      have hentry := Workspace.entries_of_channelAt_device hchannel
      cases d with
      | output => exact Workspace.remove_of_locate hlocate hentry nofun
      | full => exact Workspace.remove_of_locate hlocate hentry nofun
  simp only [remove, obstacles_filled, hremove, hfiles]

theorem remove_refused {w : World} {artifact : Artifact} {path : Text} {reason : FileError}
    (hremove : (w.obstacles artifact (.path path)).remove = some reason) :
    w.remove artifact path = (.error reason, w) := by
  unfold remove
  rw [hremove]

/-- **A text is written in full, or what was opened for it is removed.** -/
theorem stored_store (keep : LogFilter) (w : World) (artifact : Artifact) (target : Place) (text : Text) :
    Stored keep w artifact text target ((system keep).store artifact target text w).1
      ((system keep).store artifact target text w).2 := by
  rw [store_eq]
  cases hopen : w.channel? artifact target with
  | error e =>
    simp only [create, hopen]
    exact .unopened hopen
  | ok c =>
    simp only [create, hopen]
    obtain ⟨haccepts, hfill⟩ | ⟨hrefuses, n, e, hfill⟩ := fill_cleared hopen keep text
    · simp only [hfill]
      exact .whole hopen haccepts
    · simp only [hfill]
      cases target with
      | standard =>
        obtain rfl := channel?_standard hopen
        exact .cut hopen hrefuses
      | path path =>
        rw [discard_path]
        cases hremove : (w.obstacles artifact (.path path)).remove with
        | none =>
          obtain ⟨l, hlocate, hchannel⟩ := exists_locate_of_channel? hopen
          rw [remove_filled hlocate hchannel hremove]
          exact .removed hopen hlocate hrefuses hremove
        | some reason =>
          have hrefused : ((w.filled ((encode text).extract 0 n) c).obstacles artifact (.path path)).remove =
              some reason := by
            rw [obstacles_filled, hremove]
          rw [remove_refused hrefused]
          exact .left hopen hrefuses hremove

end World

/-! ## What a write leaves -/

theorem World.files_report (w : World) (keep : LogFilter) (r : LogRecord) : (w.report keep r).files = w.files := by
  unfold report
  by_cases h : keep r
  · simp [h]
  · simp [h]

theorem World.output_report (w : World) (keep : LogFilter) (r : LogRecord) : (w.report keep r).output = w.output := by
  unfold report
  by_cases h : keep r
  · simp [h]
  · simp [h]

theorem World.at?_filled {w : World} {artifact : Artifact} {path : Text} {c : Channel}
    (hopen : w.channel? artifact (.path path) = .ok c) (content : ByteArray) :
    (∃ l, c = .file l ∧ (w.filled content c).files.at? path = some (.file content)) ∨
      ∃ d, c = .device d ∧ w.files.at? path = some (.device d) ∧
        (w.filled content c).files.at? path = some (.device d) := by
  obtain ⟨l, hlocate, hchannel⟩ := exists_locate_of_channel? hopen
  have hlocate' := (sameDirectories_filled hchannel content).locate hlocate
  cases c with
  | file l' =>
    obtain rfl := Workspace.eq_of_channelAt_file hchannel
    refine .inl ⟨l', rfl, ?_⟩
    rw [Workspace.at?_of_locate hlocate']
    exact Workspace.entries_update ..
  | device d =>
    have hentry := Workspace.entries_of_channelAt_device hchannel
    refine .inr ⟨d, rfl, (Workspace.at?_of_locate hlocate).trans hentry, ?_⟩
    rw [Workspace.at?_of_locate hlocate']
    cases d with
    | output => exact hentry
    | full => exact hentry

def IsFirstPart (part content : ByteArray) : Prop := ∃ n, part = content.extract 0 n

theorem IsFirstPart.refl (content : ByteArray) : IsFirstPart content content :=
  ⟨content.size, ByteArray.extract_zero_size.symm⟩

theorem IsFirstPart.empty (content : ByteArray) : IsFirstPart .empty content := ⟨0, by simp⟩

theorem Channel.isFirstPart_onOutput {part content : ByteArray} (h : IsFirstPart part content) (c : Channel) :
    IsFirstPart (c.onOutput part) content := by
  cases c with
  | file l => exact .empty content
  | device d =>
    cases d with
    | output => exact h
    | full => exact .empty content

theorem Channel.eq_output {content : ByteArray} {c : Channel} (h : c.onOutput content ≠ .empty) :
    c = .device .output := by
  cases c with
  | file l => exact absurd rfl h
  | device d =>
    cases d with
    | output => rfl
    | full => exact absurd rfl h

namespace Stored

variable {keep : LogFilter} {w w' : World} {artifact : Artifact} {text : Text} {target : Place}
  {written : Except FileError Unit} (h : Stored keep w artifact text target written w')
include h

theorem isOk_iff : written.isOk = true ↔ w.Accepts artifact target (encode text) := by
  cases h with
  | whole hopen haccepts => exact iff_of_true rfl haccepts
  | unopened hopen =>
    refine iff_of_false nofun ?_
    intro ⟨c, hc, _⟩
    rw [hopen] at hc
    cases hc
  | cut hopen hrefuses => exact iff_of_false nofun hrefuses
  | removed hopen hlocate hrefuses => exact iff_of_false nofun hrefuses
  | left hopen hrefuses => exact iff_of_false nofun hrefuses

theorem sameDirectories : w.files.SameDirectories w'.files := by
  cases h with
  | whole hopen => exact World.sameDirectories_of_channel? hopen _
  | unopened => exact .refl w.files
  | cut => exact .refl w.files
  | removed hopen hlocate =>
    obtain ⟨l, hl, hchannel⟩ := World.exists_locate_of_channel? hopen
    rw [hlocate] at hl
    cases hl
    exact .update (Workspace.not_directory_of_channelAt hchannel) nofun
  | left hopen =>
    rw [World.files_report]
    exact World.sameDirectories_of_channel? hopen _

theorem entries_eq {l : Location} (helse : ∀ path, target = .path path → w.files.locate path ≠ .ok l) :
    w'.files.entries l = w.files.entries l := by
  have hfilled {c : Channel} (hopen : w.channel? artifact target = .ok c) (content : ByteArray) :
      (w.filled content c).files.entries l = w.files.entries l := by
    cases target with
    | standard =>
      obtain rfl := World.channel?_standard hopen
      rfl
    | path path =>
      obtain ⟨l', hl', hchannel⟩ := World.exists_locate_of_channel? hopen
      apply World.entries_filled_ne hchannel content
      intro heq
      exact helse path rfl (heq ▸ hl')
  cases h with
  | whole hopen => exact hfilled hopen _
  | unopened => rfl
  | cut hopen => exact hfilled hopen _
  | removed hopen hlocate =>
    apply Workspace.entries_update_ne
    intro heq
    exact helse _ rfl (heq ▸ hlocate)
  | left hopen =>
    rw [World.files_report]
    exact hfilled hopen _

theorem at?_eq {path : Text} (helse : ∀ other, target = .path other → ¬ w.files.SameFile other path) :
    w'.files.at? path = w.files.at? path := by
  apply h.sameDirectories.at?_eq
  intro l hlocate
  apply h.entries_eq
  intro other htarget hother
  exact helse other htarget ⟨l, hother, hlocate⟩

/-- What is added to the output is a first part of the text, of one that is written in full all of it. -/
theorem exists_output : ∃ part, w'.output = w.output ++ part ∧ IsFirstPart part (encode text) ∧
    (part ≠ .empty → w.channel? artifact target = .ok (.device .output)) ∧
    (written = .ok () → ∃ c, w.channel? artifact target = .ok c ∧ part = c.onOutput (encode text)) := by
  have hfilled {c : Channel} {part : ByteArray} (hopen : w.channel? artifact target = .ok c)
      (hpart : IsFirstPart part (encode text)) :
      (w.filled part c).output = w.output ++ c.onOutput part ∧ IsFirstPart (c.onOutput part) (encode text) ∧
        (c.onOutput part ≠ .empty → w.channel? artifact target = .ok (.device .output)) := by
    refine ⟨w.output_filled part c, c.isFirstPart_onOutput hpart, fun hne => ?_⟩
    rw [hopen, Channel.eq_output hne]
  cases h with
  | whole hopen =>
    obtain ⟨houtput, hpart, hchannel⟩ := hfilled hopen (.refl _)
    exact ⟨_, houtput, hpart, hchannel, fun _ => ⟨_, hopen, rfl⟩⟩
  | unopened => exact ⟨.empty, by simp, .empty _, fun hne => absurd rfl hne, nofun⟩
  | cut hopen =>
    obtain ⟨houtput, hpart, hchannel⟩ := hfilled hopen ⟨_, rfl⟩
    exact ⟨_, houtput, hpart, hchannel, nofun⟩
  | removed hopen =>
    obtain ⟨houtput, hpart, hchannel⟩ := hfilled hopen ⟨_, rfl⟩
    exact ⟨_, houtput, hpart, hchannel, nofun⟩
  | left hopen =>
    obtain ⟨houtput, hpart, hchannel⟩ := hfilled hopen ⟨_, rfl⟩
    exact ⟨_, (World.output_report ..).trans houtput, hpart, hchannel, nofun⟩

end Stored

end RegisterMap.Tool
