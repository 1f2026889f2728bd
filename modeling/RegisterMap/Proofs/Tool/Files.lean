import Mathlib
import RegisterMap.Tool.Workspace

/-!
# Files of a workspace

A path leads through directories only. As long as the directories stay, it leads
to the same location, and what another path leads to is kept by a change there.
-/

namespace RegisterMap.Tool

deriving instance DecidableEq for Entry

namespace Workspace

def at? (w : Workspace) (path : Text) : Option Entry := (w.find path).toOption

def SameFile (w : Workspace) (path path' : Text) : Prop := ∃ l, w.locate path = .ok l ∧ w.locate path' = .ok l

theorem at?_of_locate {w : Workspace} {path : Text} {l : Location} (h : w.locate path = .ok l) :
    w.at? path = w.entries l := by
  unfold at? find
  rw [h]
  cases hentry : w.entries l with
  | none => simp [bind, Except.bind, hentry, Except.toOption]
  | some e => simp [bind, Except.bind, hentry, Except.toOption]

theorem at?_of_locate_error {w : Workspace} {path : Text} {e : FileError} (h : w.locate path = .error e) :
    w.at? path = none := by
  unfold at? find
  rw [h]
  rfl

@[simp] theorem entries_update (w : Workspace) (l : Location) (e : Option Entry) : (w.update l e).entries l = e :=
  if_pos rfl

theorem entries_update_ne (w : Workspace) {l l' : Location} (h : l' ≠ l) (e : Option Entry) :
    (w.update l e).entries l' = w.entries l' :=
  if_neg h

@[simp] theorem update_update (w : Workspace) (l : Location) (e e' : Option Entry) :
    (w.update l e).update l e' = w.update l e' := by
  unfold update
  congr 1
  funext l'
  by_cases h : l' = l
  · simp [h]
  · simp [h]

structure SameDirectories (w w' : Workspace) : Prop where
  working_eq : w'.working = w.working
  directory_iff (l : Location) : w.entries l = some .directory ↔ w'.entries l = some .directory

namespace SameDirectories

theorem refl (w : Workspace) : w.SameDirectories w := ⟨rfl, fun _ => Iff.rfl⟩

theorem symm {w w' : Workspace} (h : w.SameDirectories w') : w'.SameDirectories w :=
  ⟨h.working_eq.symm, fun l => (h.directory_iff l).symm⟩

theorem update {w : Workspace} {l : Location} (hbefore : w.entries l ≠ some .directory) {e : Option Entry}
    (hafter : e ≠ some .directory) : w.SameDirectories (w.update l e) := by
  refine ⟨rfl, fun l' => ?_⟩
  by_cases h : l' = l
  · subst h
    rw [entries_update]
    exact iff_of_false hbefore hafter
  · rw [entries_update_ne w h]

theorem walk {w w' : Workspace} (h : w.SameDirectories w') {l' : Location} : ∀ (names : List Text) (l : Location),
    w.walk l names = .ok l' → w'.walk l names = .ok l'
  | [], _, hwalk => hwalk
  | name :: rest, l, hwalk => by
    unfold Workspace.walk at hwalk ⊢
    -- only from a directory does the walk go on
    have hdirectory : w.entries l = some .directory := by
      cases hentry : w.entries l with
      | none => simp [hentry] at hwalk
      | some e =>
        cases e with
        | directory => rfl
        | file => simp [hentry] at hwalk
        | device => simp [hentry] at hwalk
    rw [hdirectory] at hwalk
    rw [(h.directory_iff l).mp hdirectory]
    simp only at hwalk ⊢
    by_cases hhere : Path.isHere name
    · rw [if_pos hhere] at hwalk ⊢
      exact walk h rest l hwalk
    · rw [if_neg hhere] at hwalk ⊢
      by_cases hup : Path.isUp name
      · rw [if_pos hup] at hwalk ⊢
        exact walk h rest l.dropLast hwalk
      · rw [if_neg hup] at hwalk ⊢
        by_cases hlong : Path.isNameTooLong name
        · simp [hlong] at hwalk
        · rw [if_neg hlong] at hwalk ⊢
          exact walk h rest (l ++ [name]) hwalk

theorem locate {w w' : Workspace} (h : w.SameDirectories w') {path : Text} {l : Location}
    (hlocate : w.locate path = .ok l) : w'.locate path = .ok l := by
  unfold Workspace.locate at hlocate ⊢
  by_cases hempty : path = []
  · simp [hempty] at hlocate
  · rw [if_neg hempty] at hlocate ⊢
    by_cases hlong : Path.isTooLong path
    · simp [hlong] at hlocate
    · rw [if_neg hlong] at hlocate ⊢
      rw [h.working_eq]
      exact h.walk _ _ hlocate

theorem locate_iff {w w' : Workspace} (h : w.SameDirectories w') {path : Text} {l : Location} :
    w'.locate path = .ok l ↔ w.locate path = .ok l :=
  ⟨h.symm.locate, h.locate⟩

theorem at?_eq {w w' : Workspace} (h : w.SameDirectories w') {path : Text}
    (hentry : ∀ l, w.locate path = .ok l → w'.entries l = w.entries l) : w'.at? path = w.at? path := by
  cases hlocate : w.locate path with
  | ok l => rw [at?_of_locate hlocate, at?_of_locate (h.locate hlocate), hentry l hlocate]
  | error e =>
    -- the error may be another one, but no location is found after all
    rw [at?_of_locate_error hlocate]
    cases hlocate' : w'.locate path with
    | ok l =>
      rw [h.locate_iff.mp hlocate'] at hlocate
      cases hlocate
    | error e' => rw [at?_of_locate_error hlocate']

end SameDirectories

/-! ## Channels -/

theorem channelAt_of_device {w : Workspace} {l : Location} {d : Device} (h : w.entries l = some (.device d)) :
    w.channelAt l = .ok (.device d) := by
  simp [channelAt, h]

theorem entries_of_channelAt_device {w : Workspace} {l : Location} {d : Device}
    (h : w.channelAt l = .ok (.device d)) : w.entries l = some (.device d) := by
  unfold channelAt at h
  split at h
  · cases h
  · rename_i d' hentry
    cases h
    exact hentry
  · cases h

theorem eq_of_channelAt_file {w : Workspace} {l l' : Location} (h : w.channelAt l = .ok (.file l')) : l' = l := by
  unfold channelAt at h
  split at h
  · cases h
  · cases h
  · cases h
    rfl

theorem not_directory_of_channelAt {w : Workspace} {l : Location} {c : Channel} (h : w.channelAt l = .ok c) :
    w.entries l ≠ some .directory := by
  intro hentry
  simp [channelAt, hentry] at h

theorem channelAt_update_file {w : Workspace} {l : Location} (h : w.channelAt l = .ok (.file l))
    (content : ByteArray) (l' : Location) : (w.update l (some (.file content))).channelAt l' = w.channelAt l' := by
  by_cases heq : l' = l
  · subst heq
    rw [h, channelAt, entries_update]
  · unfold channelAt
    rw [entries_update_ne w heq]

theorem append_clear (w : Workspace) (l : Location) (content : ByteArray) :
    (w.clear (.file l)).append l content = w.update l (some (.file content)) := by
  simp [clear, append, ByteArray.empty_append]

theorem remove_of_locate {w : Workspace} {path : Text} {l : Location} {e : Entry} (hlocate : w.locate path = .ok l)
    (hentry : w.entries l = some e) (hfile : e ≠ .directory) : w.remove path = .ok (w.update l none) := by
  unfold remove
  rw [hlocate]
  cases e with
  | directory => exact absurd rfl hfile
  | file content => simp [bind, Except.bind, hentry]
  | device d => simp [bind, Except.bind, hentry]

end Workspace

end RegisterMap.Tool
