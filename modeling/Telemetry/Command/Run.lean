import Telemetry.Command.Invocation
import Telemetry.Engine.Basic
import Telemetry.Report.Codec
import Telemetry.Settings.Keeper
import Telemetry.Store.Location
import Telemetry.Store.Snapshot

/-!
# Running a command

A command works on files: it reads and keeps the settings, opens the store, does what is asked for and
writes the store back.  What it depends on beside them — the time, the user's folders and a fresh name
for an export — comes in as its `Environment`.

A command ends with code 0 and an output, with code 1 and a complaint, or with code 2 where the
arguments make no sense.
-/

namespace Telemetry.Command

/-- What a command finds around it. -/
structure Environment where
  home : Option String
  /-- Folders that the user has set instead of the usual ones. -/
  dataHome : Option String
  configHome : Option String
  nowMs : Int
  /-- The name of a file that does not exist yet. -/
  exportName : String

structure Outcome where
  code : Nat
  output : String
  complaint : Option String
deriving Repr

namespace Environment

/-- The folder of the program in one of the user's folders. -/
def folder (e : Environment) (set : Option String) (usual : String) : Option Path :=
  let chosen := ((set.map Path.ofText).filter (·.rooted)).or
    (e.home.map fun home => (Path.ofText home).join (.ofText usual))
  chosen.map (·.join (.ofText "tally"))

/-- Where the store is, if nothing else is said. -/
def store (e : Environment) : String :=
  ((e.folder e.dataHome ".local/share").map fun p => (p.join (.ofText "metrics.db")).text).getD
    "./metrics.db"

def settingsPath (e : Environment) : Path :=
  ((e.folder e.configHome ".config").map (·.join (.ofText "config.json"))).getD
    (.ofText "./tally.json")

end Environment

def hexPair (n : Nat) : List Char := [Json.hexDigit (n / 16), Json.hexDigit n]

/-- The name of an export from sixteen random bytes: a random identifier in its usual groups, which
also says that it is random. -/
def exportNameOf (bytes : List UInt8) : String :=
  let marked := bytes.mapIdx fun i b =>
    if i = 6 then (b &&& 0x0f) ||| 0x40 else if i = 8 then (b &&& 0x3f) ||| 0x80 else b
  let digits := marked.flatMap fun b => hexPair b.toNat
  let group (start length : Nat) : String := String.ofList ((digits.drop start).take length)
  "-".intercalate [group 0 8, group 8 4, group 12 4, group 16 4, group 20 12] ++ ".json"

/-- What may fail with a complaint and changes files. -/
abbrev Running := ExceptT String (StateM Files)

namespace Running

def lift {α : Type} (f : Files → Except Failure α × Files) : Running α := fun fs =>
  let (result, fs) := f fs
  (result.mapError Failure.message, fs)

def ofExcept {α : Type} (r : Except Failure α) : Running α := fun fs =>
  (r.mapError Failure.message, fs)

end Running

/-! ### Samples -/

def valueOf (form : ValueForm) (text : String) : Except String SampleValue :=
  match form with
  | .number =>
    match Decimal.nearest? text with
    | some x => .ok (.number x)
    | none => .error s!"숫자 값이 아닙니다: {text}"
  | .string => .ok (.string text)
  | .bool =>
    match text with
    | "true" | "1" => .ok (.bool true)
    | "false" | "0" => .ok (.bool false)
    | _ => .error s!"불리언 값이 아닙니다: {text}"

/-- The aggregation of a name, in any case of letters. A name of both families means numbers where
the value is a number, and states elsewhere. -/
def aggregationOf (dataKind : DataKind) (text : String) : Except String Aggregation :=
  let name := String.ofList (text.toList.map Char.toUpper)
  let numeric := (NumericAggregation.ofName? name).map Aggregation.numeric
  let state := (StateAggregation.ofName? name).map Aggregation.state
  match if dataKind = .double then numeric.or state else state.or numeric with
  | some a => .ok a
  | none => .error s!"알 수 없는 집계: {text}"

def sampleOf (a : RecordArguments) (nowMs : Int) : Except String MetricSample := do
  let value ← valueOf a.form a.value
  let aggregations ← a.aggregations.mapM (aggregationOf value.dataKind)
  let s := { MetricSample.of a.name (a.timeMs.getD nowMs) value with aggregations }
  let s := a.kind.elim s fun kind => { s with metricKind := kind }
  let s :=
    match a.session with
    | some name => s.inSession name
    | none => if a.daily then s.inDaily else s
  .ok { s with carryOver := a.carryOver, internal := a.internal }

/-! ### Settings -/

def SettingsArguments.isEmpty (a : SettingsArguments) : Bool :=
  a.daily.isNone && a.sessionMetrics.isEmpty && a.pageSize.isNone

def SettingsArguments.apply (a : SettingsArguments) (s : Settings) : Settings :=
  { s with
    dailyEnabled := a.daily.getD s.dailyEnabled
    sessionDailyMetrics :=
      if a.sessionMetrics.isEmpty then s.sessionDailyMetrics else a.sessionMetrics
    paging := { s.paging with pageSize := a.pageSize.getD s.paging.pageSize } }

/-- Changes the settings and writes all of them out. -/
def runSettings (keeper : SettingsKeeper) (changes : SettingsArguments) : Running String := do
  let settings ←
    if changes.isEmpty then pure keeper.settings
    else
      Running.lift fun fs =>
        let (result, _, fs) := keeper.updateWith changes.apply fs
        (result, fs)
  pure (settings.toJson.pretty ++ "\n")

/-! ### The store -/

/-- Creates the folder of the store, going by the text that names the store. -/
def prepareStore (text : String) : Running Unit :=
  match (Path.ofText text).parent? with
  | none => pure ()
  | some folder => fun fs =>
    match fs.createFolders folder with
    | (.ok (), fs) => (.ok (), fs)
    | (.error _, fs) =>
      let folder := folder.text
      (.error s!"데이터 디렉토리 생성 실패: {folder}", fs)

/-- The most bytes in the path of a store: beside the store there are files with longer names. -/
def longestStorePath : Nat := 504

def longestStoreWay : Nat := 511

def longestStoreName : Nat := 247

/-- Follows the names of a path to a store. Other than elsewhere, a place on the way may be missing,
and going up undoes the name before it. -/
def storeWay (fs : Files) : Place → List String → Option Place
  | place, [] => some place
  | place, name :: names =>
    let next := place.step name
    if Path.isIdle name || name = ".." then storeWay fs next names
    else if longestStoreWay < next.path.text.utf8ByteSize then none
    else
      match fs.walk [] next with
      | .ok _ | .error .notFound => storeWay fs next names
      | .error _ => none

def storePlace? (fs : Files) (path : Path) : Option Place :=
  (storeWay fs (if path.rooted then [] else fs.current) path.names).filter fun place =>
    !place.isEmpty && decide (place.path.text.utf8ByteSize ≤ longestStorePath)

/-- Why a file, or one beside it, cannot be opened. -/
def unopenedCause : String := "unable to open database file"

/-- The content of the file of a store, which is created if that is allowed. A folder can be opened
for reading, but not read. -/
def storeContent (fs : Files) (place : Place) (file : StoreFile) (text : String) :
    Except Failure FileContent :=
  let refuse (cause : String) : Except Failure FileContent :=
    .error (StorageStep.openDatabase.failureBecause cause)
  match fs.find place.path with
  | .ok (.file content) => .ok content
  | .ok .folder =>
    refuse (if file.access = .reading then "disk I/O error" else s!"{unopenedCause}: {text}")
  | .error .notFound =>
    if file.access = .creating && fs.isFolder (Place.path place.dropLast) then .ok (.text "")
    else refuse s!"{unopenedCause}: {text}"
  | .error _ => refuse s!"{unopenedCause}: {text}"

/-- Why a file that may only be read cannot be written. -/
def readOnlyCause : String := "attempt to write a readonly database"

/-- How a file is changed from now on. A shared file is logged, and has to be written once for that;
a logged file has to be shared, unless it is fixed. -/
def journalOf (file : StoreFile) (journal : Journal) : Except Failure Journal :=
  let refuse (cause : String) : Except Failure Journal :=
    .error (StorageStep.configureDatabase.failureBecause cause)
  match journal with
  | .logged => if file.shared || file.fixed then .ok .logged else refuse unopenedCause
  | journal =>
    if file.fixed || !file.shared then .ok journal
    else if file.readOnly then refuse readOnlyCause
    else .ok .logged

/-- A blank file is written before it is used. -/
def fillBlank (file : StoreFile) (name : String) (journal : Journal) : Except Failure Journal :=
  if file.readOnly then .error (StorageStep.migrate.failureBecause readOnlyCause)
  else if longestStoreName < name.utf8ByteSize then
    let step := if file.shared then StorageStep.configureDatabase else .migrate
    .error (step.failureBecause unopenedCause)
  else .ok (if journal = .undecided then .direct else journal)

/-- A store in use and the place where it is kept, if it is kept. -/
structure OpenStore where
  engine : Engine
  kept : Option (Place × Journal)

def failIn {α : Type} (step : StorageStep) (cause : String) : Running α :=
  Running.ofExcept (.error (step.failureBecause cause))

def saveStore (kept : Option (Place × Journal)) (store : Store) : Running Unit :=
  match kept with
  | none => pure ()
  | some (place, journal) =>
    if store.readOnly then pure ()
    else modify (·.put place (.file (Snapshot.encode ⟨store, journal⟩)))

def openFile (text : String) (file : StoreFile) (settings : Settings)
    (softwareVersion : Option String) : Running OpenStore := do
  let fs ← get
  match storePlace? fs file.path with
  | none => failIn .openDatabase s!"{unopenedCause}: {text}"
  | some place =>
    let content ← Running.ofExcept (storeContent fs place file text)
    match Snapshot.decode? content with
    | none => failIn .configureDatabase "file is not a database"
    | some snapshot =>
      if (fs.node? place).isNone then set (fs.put place (.file content))
      let journal ← Running.ofExcept (journalOf file snapshot.journal)
      let journal ←
        if snapshot.journal = .undecided then
          Running.ofExcept (fillBlank file (place.getLast?.getD "") journal)
        else pure journal
      let store := { snapshot.store with readOnly := file.readOnly }
      let engine ← Running.ofExcept (Engine.openStore settings softwareVersion store)
      saveStore (some (place, journal)) engine.store
      pure ⟨engine, some (place, journal)⟩

def openStore (text : String) (settings : Settings) (softwareVersion : Option String) :
    Running OpenStore := do
  match StoreLocation.ofText text with
  | .error cause => failIn .openDatabase cause
  | .ok (.nowhere true) => failIn .migrate readOnlyCause
  | .ok (.nowhere false) =>
    let engine ← Running.ofExcept (Engine.openStore settings softwareVersion .empty)
    pure ⟨engine, none⟩
  | .ok (.file file) => openFile text file settings softwareVersion

/-- Runs an operation of the engine and keeps the store. -/
def operate {α : Type} (o : OpenStore) (operation : Engine → Except Failure α × Engine) :
    Running α := do
  let (result, engine) := operation o.engine
  saveStore o.kept engine.store
  Running.ofExcept result

def requestOf (a : CollectArguments) (settings : Settings) (nowMs : Int) : CollectRequest where
  nowMs := a.timeMs.getD nowMs
  dailyEnabled := settings.dailyEnabled && !a.noDaily
  derivation := none
  sessionDailyMetrics := settings.sessionDailyMetrics
  exportFolder := a.exportFolder
  endSessions := a.endSessions

def runAction (env : Environment) (o : OpenStore) : Action → Running String
  | .record a => do
    let sample ← (sampleOf a env.nowMs : Except String MetricSample)
    let _ ← operate o (·.add sample)
    pure ""
  | .startSession name [] t => do
    operate o (·.startSession name (t.getD env.nowMs))
    pure ""
  | .startSession name keys t => do
    operate o (·.startSeeded name (t.getD env.nowMs) keys)
    pure ""
  | .endSession name t => do
    operate o (·.endSession name (t.getD env.nowMs))
    pure ""
  | .collect a => do
    let request := requestOf a o.engine.settings env.nowMs
    let outcome := o.engine.collect request env.exportName (← get)
    set outcome.files
    let report ← operate o fun _ => (outcome.result, outcome.engine)
    pure (report.toJson.pretty ++ "\n")
  | .dump => do
    let dump ← operate o (·.dump)
    pure (dump.toJson.pretty ++ "\n")
  | .settings _ => pure ""

def Invocation.run (i : Invocation) (env : Environment) : Running String := do
  let keeper ← Running.lift (SettingsKeeper.openAt (i.settingsPath.getD env.settingsPath))
  match i.action with
  | .settings changes => runSettings keeper changes
  | action => do
    let text := i.store.getD env.store
    prepareStore text
    runAction env (← openStore text keeper.settings i.softwareVersion) action

def storePaths (text : String) : List Path :=
  match StoreLocation.ofText text with
  | .ok (.file file) => [.ofText text, file.path]
  | _ => [.ofText text]

/-- The paths that a command line may touch. -/
def touchedPaths (env : Environment) (args : List String) : List Path :=
  match Invocation.parse args with
  | .error _ => []
  | .ok i =>
    let settingsPath := i.settingsPath.getD env.settingsPath
    let storePaths := storePaths (i.store.getD env.store)
    match i.action with
    | .settings _ => [settingsPath]
    | .collect { exportFolder := some folder, .. } => settingsPath :: folder :: storePaths
    | _ => settingsPath :: storePaths

def versionLine : String := "tally 0.1.0\n"

/-- Runs a command line. -/
def run (env : Environment) (args : List String) (fs : Files) : Outcome × Files :=
  match Invocation.parse args with
  | .error .usage => (⟨2, "", none⟩, fs)
  | .error .help => (⟨0, "", none⟩, fs)
  | .error .version => (⟨0, versionLine, none⟩, fs)
  | .ok i =>
    match i.run env fs with
    | (.ok output, fs) => (⟨0, output, none⟩, fs)
    | (.error message, fs) => (⟨1, "", some message⟩, fs)

end Telemetry.Command
