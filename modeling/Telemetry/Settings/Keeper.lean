import Telemetry.Files
import Telemetry.Json.Printer
import Telemetry.Settings.Basic

/-!
# Keeping settings in a file

A keeper holds settings and the path of the file that they are kept in.  It can be copied; all copies
see the same settings.
-/

namespace Telemetry

/-! ### One keeper

Opening a keeper reads the
file, or writes one with the default settings where there is none.  Settings that do not pass
`Settings.validate` are refused, on opening as on changing; a refused change alters nothing.

A change takes effect before it is written: where writing fails, the keeper still has the new
settings.
-/

/-- Settings and the path of their file. -/
structure SettingsKeeper where
  path : Path
  settings : Settings

namespace SettingsKeeper

/-- The complaint about a file of settings or its folder. -/
def complaint (step : String) (path : Path) (cause : String) : Failure :=
  let place := path.text
  .settings s!"{step}: {place}: {cause}"

def fileText (settings : Settings) : String := settings.toJson.pretty

def save (path : Path) (settings : Settings) (fs : Files) : Except Failure Unit × Files :=
  match fs.write path (.text (fileText settings)) with
  | .ok fs => (.ok (), fs)
  | .error fault => (.error (complaint "설정 파일 저장 실패" path fault.message), fs)

def load (path : Path) (fs : Files) : Except Failure Settings :=
  match fs.read path with
  | .error fault => .error (complaint "설정 파일 읽기 실패" path fault.message)
  | .ok text =>
    match Json.decode Settings.decoder text with
    | none => .error (complaint "설정 파일 파싱 실패" path "malformed text")
    | some settings => settings.validate.map fun _ => settings

/-- Creates the folder of the file where it is missing. -/
def prepareFolder (path : Path) (fs : Files) : Except Failure Unit × Files :=
  match path.parent? with
  | none => (.ok (), fs)
  | some folder =>
    if folder.isEmpty || fs.contains folder then (.ok (), fs)
    else
      match fs.createFolders folder with
      | (.ok (), fs) => (.ok (), fs)
      | (.error fault, fs) =>
        (.error (complaint "설정 디렉토리 생성 실패" folder fault.message), fs)

/-- Opens a keeper of the settings at a path. -/
def openAt (path : Path) (fs : Files) : Except Failure SettingsKeeper × Files :=
  match prepareFolder path fs with
  | (.error e, fs) => (.error e, fs)
  | (.ok (), fs) =>
    if fs.contains path then ((load path fs).map (⟨path, ·⟩), fs)
    else
      match save path default fs with
      | (.ok (), fs) => (.ok ⟨path, default⟩, fs)
      | (.error e, fs) => (.error e, fs)

/-- Changes the settings and writes them. -/
def update (keeper : SettingsKeeper) (settings : Settings) (fs : Files) :
    Except Failure Unit × SettingsKeeper × Files :=
  match settings.validate with
  | .error e => (.error e, keeper, fs)
  | .ok () =>
    let (result, fs) := save keeper.path settings fs
    (result, { keeper with settings }, fs)

/-- Changes some of the settings; the result is all of them. -/
def updateWith (keeper : SettingsKeeper) (change : Settings → Settings) (fs : Files) :
    Except Failure Settings × SettingsKeeper × Files :=
  let settings := change keeper.settings
  let (result, keeper, fs) := keeper.update settings fs
  (result.map fun _ => settings, keeper, fs)

end SettingsKeeper

/-! ### Keepers in several hands

A keeper can be copied.  A copy has the path with it, but its settings are in a cell that all copies
look at: what one of them changes, all of them see.  A keeper that is opened anew has a cell of its
own, also at the same path.
-/

/-- One copy of a keeper: the path, and the number of the cell. -/
structure SettingsHandle where
  path : Path
  cell : Nat
deriving DecidableEq, Repr

/-- The cells of all keepers that were opened, and the files. -/
structure SharedSettings where
  opened : Nat
  held : Nat → Settings
  files : Files

namespace SharedSettings

/-- The settings that a copy sees. -/
def get (shared : SharedSettings) (handle : SettingsHandle) : Settings := shared.held handle.cell

def keeper (shared : SharedSettings) (handle : SettingsHandle) : SettingsKeeper :=
  ⟨handle.path, shared.get handle⟩

/-- A cell has other settings. -/
def put (shared : SharedSettings) (cell : Nat) (settings : Settings) : SharedSettings :=
  { shared with held := fun i => if i = cell then settings else shared.held i }

/-- Opens a keeper; it has the next cell. -/
def openAt (shared : SharedSettings) (path : Path) : Except Failure SettingsHandle × SharedSettings :=
  match SettingsKeeper.openAt path shared.files with
  | (.ok keeper, files) =>
    (.ok ⟨path, shared.opened⟩,
      { shared.put shared.opened keeper.settings with opened := shared.opened + 1, files })
  | (.error e, files) => (.error e, { shared with files })

/-- Changes the settings through a copy. -/
def update (shared : SharedSettings) (handle : SettingsHandle) (settings : Settings) :
    Except Failure Unit × SharedSettings :=
  let (result, keeper, files) := (shared.keeper handle).update settings shared.files
  (result, { shared.put handle.cell keeper.settings with files })

/-- Changes some of the settings through a copy; the result is all of them. -/
def updateWith (shared : SharedSettings) (handle : SettingsHandle) (change : Settings → Settings) :
    Except Failure Settings × SharedSettings :=
  let (result, keeper, files) := (shared.keeper handle).updateWith change shared.files
  (result, { shared.put handle.cell keeper.settings with files })

end SharedSettings

end Telemetry
