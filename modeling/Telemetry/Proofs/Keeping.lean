import Telemetry.Proofs.Places
import Telemetry.Proofs.SettingsTexts
import Telemetry.Settings.Keeper

/-!
# Settings and their file

As long as changes succeed, the file of a keeper has the text of its settings: a keeper that is opened
there has them too, and opening it leaves the files as they are.

A change that fails is another matter.  Where the settings do not pass, nothing is altered, neither
in memory nor in the file.  Where they pass and cannot be written, the file is as it was, while all
copies of the keeper see the new settings already.
-/

namespace Telemetry

namespace SettingsKeeper

variable {keeper keeper' : SettingsKeeper} {settings : Settings} {path : Path} {fs fs' : Files}

/-! ### What is in the file -/

/-- The settings pass, and the file of the keeper has a text that is decoded as them. -/
structure InFile (keeper : SettingsKeeper) (fs : Files) : Prop where
  valid : keeper.settings.validate = .ok ()
  text : ∃ text, fs.read keeper.path = .ok text ∧
    Json.decode Settings.decoder text = some keeper.settings

theorem read_of_save (h : save path settings fs = (.ok (), fs')) :
    fs'.read path = .ok (fileText settings) := by
  unfold save at h
  split at h
  · next hwrite =>
    cases h
    exact Files.read_of_write hwrite
  · cases h

/-- A file that is there has its folder. -/
theorem prepareFolder_of_contains (h : fs.contains path = true) :
    prepareFolder path fs = (.ok (), fs) := by
  unfold prepareFolder
  split
  · rfl
  · next folder hparent =>
    by_cases hempty : folder.isEmpty = true
    · rw [hempty, Bool.true_or, if_pos rfl]
    · have hfolder := Files.contains_parent h hparent (by simpa using hempty)
      rw [hfolder, Bool.or_true, if_pos rfl]

/-- Opening a keeper of what is in the file gives it back, and leaves the files as they are. -/
theorem InFile.openAt (h : keeper.InFile fs) : openAt keeper.path fs = (.ok keeper, fs) := by
  obtain ⟨hvalid, text, hread, hdecode⟩ := h
  have hthere := Files.contains_of_read hread
  have hload : load keeper.path fs = .ok keeper.settings := by
    simp only [load, hread, hdecode, hvalid]
    rfl
  rw [SettingsKeeper.openAt, prepareFolder_of_contains hthere]
  simp only [hthere, hload]
  rfl

theorem validate_default : (default : Settings).validate = .ok () := by decide

theorem fits_default : (default : Settings).Fits := by
  constructor <;> decide

theorem InFile.of_save (hfits : settings.Fits) (hvalid : settings.validate = .ok ())
    (h : save path settings fs = (.ok (), fs')) : InFile ⟨path, settings⟩ fs' :=
  ⟨hvalid, _, read_of_save h, Settings.decode_pretty hfits⟩

theorem InFile.of_load (h : load path fs = .ok settings) : InFile ⟨path, settings⟩ fs := by
  unfold load at h
  split at h
  · cases h
  · next text hread =>
    split at h
    · cases h
    · next settings' hdecode =>
      cases hvalid : settings'.validate with
      | error e =>
        rw [hvalid] at h
        cases h
      | ok _ =>
        rw [hvalid] at h
        obtain rfl : settings' = settings := Except.ok.inj h
        exact ⟨hvalid, text, hread, hdecode⟩

/-- What a keeper has when it was opened is in its file. -/
theorem InFile.of_openAt (h : SettingsKeeper.openAt path fs = (.ok keeper, fs')) :
    keeper.path = path ∧ keeper.InFile fs' := by
  unfold SettingsKeeper.openAt at h
  split at h
  · cases h
  · next fs₁ hprepare =>
    split at h
    · cases hload : load path fs₁ with
      | error e =>
        rw [hload] at h
        cases h
      | ok settings =>
        rw [hload] at h
        cases h
        exact ⟨rfl, .of_load hload⟩
    · split at h
      · next hsave =>
        cases h
        exact ⟨rfl, .of_save fits_default validate_default hsave⟩
      · cases h

/-- So is what it was changed to. -/
theorem InFile.of_update (hfits : settings.Fits)
    (h : keeper.update settings fs = (.ok (), keeper', fs')) :
    keeper' = ⟨keeper.path, settings⟩ ∧ keeper'.InFile fs' := by
  unfold update at h
  split at h
  · cases h
  · next hvalid =>
    simp only [Prod.mk.injEq] at h
    obtain ⟨hresult, rfl, rfl⟩ := h
    exact ⟨rfl, .of_save hfits hvalid (Prod.ext hresult rfl)⟩

/-- What changes in part, changes to all of it. -/
theorem of_updateWith {change : Settings → Settings}
    (h : keeper.updateWith change fs = (.ok settings, keeper', fs')) :
    settings = change keeper.settings ∧
      keeper.update (change keeper.settings) fs = (.ok (), keeper', fs') := by
  unfold updateWith at h
  simp only at h
  rcases hupdate : keeper.update (change keeper.settings) fs with ⟨result, keeper₁, fs₁⟩
  rw [hupdate] at h
  cases result with
  | error e => cases h
  | ok _ =>
    cases h
    exact ⟨rfl, rfl⟩

/-- What a change that fails leaves behind. -/
theorem update_fails {e : Failure} (h : keeper.update settings fs = (.error e, keeper', fs')) :
    fs' = fs ∧ ((settings.validate = .error e ∧ keeper' = keeper) ∨
      (settings.validate = .ok () ∧
        (∃ fault, fs.write keeper.path (.text (fileText settings)) = .error fault ∧
          e = complaint "설정 파일 저장 실패" keeper.path fault.message) ∧
        keeper' = ⟨keeper.path, settings⟩)) := by
  unfold update at h
  split at h
  · next hvalid =>
    cases h
    exact ⟨rfl, .inl ⟨hvalid, rfl⟩⟩
  · next hvalid =>
    cases hwrite : fs.write keeper.path (.text (fileText settings)) with
    | ok fs₁ =>
      simp only [save, hwrite] at h
      cases h
    | error fault =>
      simp only [save, hwrite] at h
      cases h
      exact ⟨rfl, .inr ⟨hvalid, ⟨fault, rfl, rfl⟩, rfl⟩⟩

/-- Where a keeper and the files get to by opening the keeper and by changes, all of which succeed.
A keeper can be opened again at any time. -/
inductive Serves (path : Path) : SettingsKeeper → Files → Prop where
  | opened {keeper : SettingsKeeper} {fs fs' : Files} (h : openAt path fs = (.ok keeper, fs')) :
    Serves path keeper fs'
  | updated {keeper keeper' : SettingsKeeper} {settings : Settings} {fs fs' : Files}
    (hbefore : Serves path keeper fs) (hfits : settings.Fits)
    (h : keeper.update settings fs = (.ok (), keeper', fs')) : Serves path keeper' fs'
  | changed {keeper keeper' : SettingsKeeper} {settings : Settings} {change : Settings → Settings}
    {fs fs' : Files} (hbefore : Serves path keeper fs) (hfits : (change keeper.settings).Fits)
    (h : keeper.updateWith change fs = (.ok settings, keeper', fs')) : Serves path keeper' fs'

theorem Serves.inFile (h : Serves path keeper fs) : keeper.path = path ∧ keeper.InFile fs := by
  induction h with
  | opened h => exact InFile.of_openAt h
  | updated hbefore hfits h ih =>
    obtain ⟨rfl, hin⟩ := InFile.of_update hfits h
    exact ⟨ih.1, hin⟩
  | changed hbefore hfits h ih =>
    obtain ⟨rfl, hin⟩ := InFile.of_update hfits (of_updateWith h).2
    exact ⟨ih.1, hin⟩

/-- **Settings persist.** After a change that succeeded, and as long as nothing else touches the
file, a keeper that is opened at the same path has exactly these settings, and opening it leaves all
files as they are.  After any row of openings and changes that succeeded, the text of the file is
decoded as the settings that the keeper has. -/
theorem persists :
    (∀ (keeper keeper' : SettingsKeeper) (settings : Settings) (fs fs' later : Files),
      settings.Fits → keeper.update settings fs = (.ok (), keeper', fs') →
      later.read keeper.path = fs'.read keeper.path →
      openAt keeper.path later = (.ok ⟨keeper.path, settings⟩, later)) ∧
    ∀ (path : Path) (keeper : SettingsKeeper) (fs : Files), Serves path keeper fs →
      ∃ text, fs.read path = .ok text ∧
        Json.decode Settings.decoder text = some keeper.settings := by
  constructor
  · intro keeper keeper' settings fs fs' later hfits hupdate hlater
    obtain ⟨rfl, hvalid, text, hread, hdecode⟩ := InFile.of_update hfits hupdate
    exact InFile.openAt ⟨hvalid, text, hlater.trans hread, hdecode⟩
  · intro path keeper fs hserves
    obtain ⟨rfl, hin⟩ := hserves.inFile
    exact hin.text

/-- Settings that differ from the default ones. -/
def ownSchema : Settings := { (default : Settings) with exports := ⟨7, "tally \"α\"", "\x00\\"⟩ }

/-- A folder with one file of settings. -/
def folderOf (settings : Settings) : Files :=
  ⟨[], [(["d"], .folder), (["d", "t.json"], .file (.text (fileText settings)))]⟩

/-- In a folder of its own, a keeper is opened and its settings are changed. -/
theorem persists_ownSchema :
    openAt (.ofText "d/t.json") (folderOf ownSchema) =
        (.ok ⟨.ofText "d/t.json", ownSchema⟩, folderOf ownSchema) ∧
      ∃ text, (folderOf ownSchema).read (.ofText "d/t.json") = .ok text ∧
        Json.decode Settings.decoder text = some ownSchema := by
  have hfits : ownSchema.Fits := by constructor <;> decide
  have hopen : openAt (.ofText "d/t.json") default =
      (.ok ⟨.ofText "d/t.json", default⟩, folderOf default) := rfl
  have hupdate : update ⟨.ofText "d/t.json", default⟩ ownSchema (folderOf default) =
      (.ok (), ⟨.ofText "d/t.json", ownSchema⟩, folderOf ownSchema) := rfl
  have hserves : Serves (.ofText "d/t.json") ⟨.ofText "d/t.json", ownSchema⟩ (folderOf ownSchema) :=
    .updated (.opened hopen) hfits hupdate
  constructor
  · exact persists.1 ⟨.ofText "d/t.json", default⟩ _ ownSchema _ _ (folderOf ownSchema) hfits hupdate
      rfl
  · exact persists.2 _ _ _ hserves

end SettingsKeeper

namespace SharedSettings

open SettingsKeeper

variable {shared shared' : SharedSettings} {handle : SettingsHandle} {settings : Settings}
  {e : Failure}

/-- What a failed change comes to: the file is as it was, and so are all keepers but the one that was
to change.  That one has its settings still, and so have its copies, if the new ones were refused; if
the new ones could not be written, all copies have them already. -/
structure FailedChange (shared shared' : SharedSettings) (handle : SettingsHandle)
    (settings : Settings) (e : Failure) : Prop where
  files : shared'.files = shared.files
  others : ∀ other : SettingsHandle, other.cell ≠ handle.cell → shared'.get other = shared.get other
  refused_or_unwritten :
    (settings.validate = .error e ∧ ∀ copy, shared'.get copy = shared.get copy) ∨
    (settings.validate = .ok () ∧
      (∃ fault, shared.files.write handle.path (.text (fileText settings)) = .error fault ∧
        e = complaint "설정 파일 저장 실패" handle.path fault.message) ∧
      ∀ copy : SettingsHandle, copy.cell = handle.cell → shared'.get copy = settings)

theorem failedChange {keeper : SettingsKeeper} {files : Files}
    (h : (shared.keeper handle).update settings shared.files = (.error e, keeper, files)) :
    FailedChange shared { shared.put handle.cell keeper.settings with files } handle settings e := by
  obtain ⟨rfl, hcause⟩ := update_fails h
  refine ⟨rfl, fun other hother => if_neg hother, ?_⟩
  rcases hcause with ⟨hrefused, rfl⟩ | ⟨hvalid, hunwritten, rfl⟩
  · refine .inl ⟨hrefused, fun copy => ?_⟩
    by_cases hcopy : copy.cell = handle.cell
    · exact (if_pos hcopy).trans (congrArg shared.held hcopy.symm)
    · exact if_neg hcopy
  · exact .inr ⟨hvalid, hunwritten, fun copy hcopy => if_pos hcopy⟩

/-- **What a failed change leaves behind.** Whatever is held and whatever the files are, a change
that fails leaves the file as it was.  If the new settings were refused, all copies have the former
ones.  If they could not be written, though, all copies of the keeper have the new ones. -/
theorem change_fails (shared shared' : SharedSettings) (handle : SettingsHandle) (e : Failure) :
    (∀ settings, shared.update handle settings = (.error e, shared') →
      FailedChange shared shared' handle settings e) ∧
    ∀ change, shared.updateWith handle change = (.error e, shared') →
      FailedChange shared shared' handle (change (shared.get handle)) e := by
  constructor
  · intro settings h
    unfold update at h
    rcases hupdate : (shared.keeper handle).update settings shared.files with ⟨result, keeper, files⟩
    rw [hupdate] at h
    cases h
    exact failedChange hupdate
  · intro change h
    unfold updateWith SettingsKeeper.updateWith at h
    simp only at h
    rcases hupdate : (shared.keeper handle).update (change (shared.get handle)) shared.files with
      ⟨result, keeper, files⟩
    have hkeeper : (shared.keeper handle).settings = shared.get handle := rfl
    rw [hkeeper, hupdate] at h
    cases result with
    | ok _ => cases h
    | error e' =>
      cases h
      exact failedChange hupdate

/-- Where the folder is gone, a copy has settings that the file has not. -/
theorem change_fails_no_folder :
    ∃ shared' e, (⟨1, fun _ => default, default⟩ : SharedSettings).update ⟨.ofText "d/t.json", 0⟩
        ownSchema = (.error e, shared') ∧
      shared'.get ⟨.ofText "d/t.json", 0⟩ = ownSchema ∧ ownSchema ≠ default := by
  refine ⟨_, _, rfl, ?_, by decide⟩
  have hfailed := (change_fails ⟨1, fun _ => default, default⟩ _ ⟨.ofText "d/t.json", 0⟩ _).1
    ownSchema rfl
  rcases hfailed.refused_or_unwritten with ⟨hrefused, -⟩ | ⟨-, -, hcopies⟩
  · cases hrefused
  · exact hcopies ⟨.ofText "d/t.json", 0⟩ rfl

/-! ### What copies see -/

/-- What can happen to keepers and their files; somebody else may do anything to the files. -/
inductive Action where
  | openAt (path : Path)
  | update (handle : SettingsHandle) (settings : Settings)
  | updateWith (handle : SettingsHandle) (change : Settings → Settings)
  | outside (files : Files)

def act (shared : SharedSettings) : Action → SharedSettings
  | .openAt path => (shared.openAt path).2
  | .update handle settings => (shared.update handle settings).2
  | .updateWith handle change => (shared.updateWith handle change).2
  | .outside files => { shared with files }

/-- The settings that an action gives to a cell: those that a keeper has when it is opened, or those
of a change, if they pass. -/
def given (cell : Nat) (shared : SharedSettings) : Action → Option Settings
  | .openAt path =>
    if shared.opened = cell then
      (SettingsKeeper.openAt path shared.files).1.toOption.map (·.settings)
    else none
  | .update handle settings =>
    if handle.cell = cell ∧ settings.validate = .ok () then some settings else none
  | .updateWith handle change =>
    if handle.cell = cell ∧ (change (shared.get handle)).validate = .ok () then
      some (change (shared.get handle))
    else none
  | .outside _ => none

def run (shared : SharedSettings) : List Action → SharedSettings
  | [] => shared
  | a :: actions => (shared.act a).run actions

/-- What the actions of a run give to a cell, in order. -/
def allGiven (cell : Nat) : SharedSettings → List Action → List Settings
  | _, [] => []
  | shared, a :: actions => (given cell shared a).toList ++ allGiven cell (shared.act a) actions

/-- What a cell has after a change depends on the settings alone, not on the files. -/
theorem held_update (cell : Nat) (settings : Settings) :
    (shared.update handle settings).2.held cell =
      if handle.cell = cell ∧ settings.validate = .ok () then settings else shared.held cell := by
  unfold update SettingsKeeper.update keeper get put
  by_cases hcell : handle.cell = cell
  · subst hcell
    cases hvalid : settings.validate <;> simp
  · have hother : ¬cell = handle.cell := fun h => hcell h.symm
    simp [hcell, hother]

/-- One action gives a cell what it gives, and no other cell anything. -/
theorem held_act (cell : Nat) (a : Action) :
    (shared.act a).held cell = (given cell shared a).getD (shared.held cell) := by
  cases a with
  | openAt path =>
    unfold act given SharedSettings.openAt
    rcases hopen : SettingsKeeper.openAt path shared.files with ⟨e | keeper, files⟩
    · simp [hopen, Except.toOption]
    · by_cases hcell : shared.opened = cell
      · simp [hopen, hcell, put, Except.toOption]
      · have hother : ¬cell = shared.opened := fun h => hcell h.symm
        simp [hopen, hcell, hother, put]
  | update handle settings =>
    rw [act, held_update, given]
    split <;> rfl
  | updateWith handle change =>
    have hsame : (shared.updateWith handle change).2 =
        (shared.update handle (change (shared.get handle))).2 := rfl
    rw [act, hsame, held_update, given]
    split <;> rfl
  | outside files => rfl

/-- Over any run, a cell has the last settings that passed, whether or not they could be written. -/
theorem held_run (cell : Nat) (actions : List Action) : ∀ shared : SharedSettings,
    (shared.run actions).held cell =
      (allGiven cell shared actions).getLast?.getD (shared.held cell) := by
  induction actions with
  | nil => exact fun _ => rfl
  | cons a actions ih =>
    intro shared
    rw [run, ih, held_act, allGiven, List.getLast?_append]
    cases (allGiven cell (shared.act a) actions).getLast? with
    | some settings => rfl
    | none => cases given cell shared a <;> rfl

end SharedSettings

end Telemetry
