import Telemetry.Engine.Collect
import Telemetry.Store.Damage
import Telemetry.Store.Values

/-!
# The engine

The engine is a store together with the settings and the software version under which it is used.
Every operation is a transaction: it either succeeds, or fails and leaves the store as it was.

A collection also deals with files.  When it fails after its hourly stage, the export that this stage
has finished is removed again.
-/

namespace Telemetry

/-- A store in use. -/
structure Engine where
  settings : Settings
  /-- What new reports are stamped with. -/
  softwareVersion : Option String
  store : Store

structure CollectOutcome where
  result : Except Failure CustomReport
  engine : Engine
  files : Files
  /-- What the derivation was given, in order. -/
  consulted : List DerivedInput

namespace Engine

def openStore (settings : Settings) (softwareVersion : Option String) (store : Store) :
    Except Failure Engine := do
  settings.validate
  match store.reopened? with
  | some store => .ok ⟨settings, softwareVersion, store⟩
  | none => .error StorageStep.migrate.failure

def openEmpty (settings : Settings) (softwareVersion : Option String) : Except Failure Engine :=
  openStore settings softwareVersion .empty

/-- The engine with another store that it has looked at. -/
def withStore (e : Engine) (store : Store) : Engine :=
  { e with store := { store with damage := { store.damage with unseen := false } } }

/-- The engine after an operation: of one that failed only the queries remain that are kept
prepared. -/
def after {α : Type} (e : Engine) (result : Except Failure α) (store : Store) : Engine :=
  match result with
  | .ok _ => e.withStore store
  | .error _ => e.withStore { e.store with kept := store.kept }

def transact {α : Type} (e : Engine) (t : Transaction α) : Except Failure α × Engine :=
  let (result, store) := t e.store
  (result, e.after result store)

def transactIf {α : Type} (e : Engine) (condition : Except Failure Unit) (t : Transaction α) :
    Except Failure α × Engine :=
  match condition with
  | .ok () => e.transact t
  | .error err => (.error err, e)

/-- Takes a sample in; the result is the id of its value, if it could be kept. -/
def add (e : Engine) (sample : MetricSample) : Except Failure (Option Int) × Engine :=
  e.transactIf sample.validate (.take e.softwareVersion sample)

def startSession (e : Engine) (name : String) (t : Int) : Except Failure Unit × Engine :=
  e.transactIf (validateSessionName name) (.startSession e.softwareVersion name t)

/-- Starts a session with the latest values of some hourly metrics, unless it is open. -/
def startSeeded (e : Engine) (name : String) (t : Int) (keys : List String) :
    Except Failure Unit × Engine :=
  e.transactIf (validateSessionName name) (.startSeeded e.softwareVersion name t keys)

def endSession (e : Engine) (name : String) (t : Int) : Except Failure Unit × Engine :=
  e.transactIf (validateSessionName name) (.endSession name t)

def hourlyStart (e : Engine) : Except Failure (Option Int) × Engine :=
  e.transact (.query fun s => (s.openReport? .hourly none).map fun r => r.map (·.startMs))

/-- Was the open hourly accumulator started under another software version? -/
def versionChanged (e : Engine) (current : String) : Except Failure Bool × Engine :=
  e.transact <| .query fun s =>
    (s.openReport? .hourly none).map fun r =>
      match r.bind (·.softwareVersion) with
      | some version => version != current
      | none => false

def dump (e : Engine) : Except Failure StoreDump × Engine := e.transact (.query (·.dump))

/-- Collects. The export, if one is asked for, goes to a file of the given name. -/
def collect (e : Engine) (request : CollectRequest) (exportName : String) (files : Files) :
    CollectOutcome :=
  let done (result : Except Failure CustomReport) (p : Progress) (files : Files) : CollectOutcome :=
    ⟨result, e.after result p.store, files, p.consulted⟩
  match Collecting.hourly e.settings e.softwareVersion request exportName ⟨e.store, files, []⟩ with
  | (.error err, p) => done (.error err) p p.files
  | (.ok (report, path), p) =>
    match Collecting.others e.settings request report path p with
    | (.error err, p) => done (.error err) p (path.elim p.files p.files.discard)
    | (.ok report, p) => done (.ok report) p p.files

/-! ### Damage -/

def setCell (e : Engine) (table : TableName) (column : String) (id : Int) (cell : Cell) :
    Nat × Engine :=
  let (count, store) := e.store.setCell table column id cell
  (count, { e with store })

/-- A table goes while the store is in use. -/
def dropTable (e : Engine) (table : TableName) : Engine := { e with store := e.store.dropTable table }

def setBlocked (e : Engine) (table : TableName) (action : RowAction) (blocked : Bool) : Engine :=
  { e with store :=
      if blocked then e.store.block table action else e.store.unblock table action }

end Engine

end Telemetry
