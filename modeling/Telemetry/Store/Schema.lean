import Telemetry.Store.Basic

/-!
# The form of a store

Which tables, indexes and columns a store has, and which versions of its form are recorded in it.
`Schema.migrate` brings any form up to date.  It looks at the greatest recorded version once and runs
the steps of every later one; a step that fails ends the run, and the steps before it stay done.

A record that is no unsigned number of 32 bits counts as no record.
-/

namespace Telemetry

namespace TableName

def text : TableName → String
  | .reports => "reports"
  | .metrics => "metric_metadata"
  | .values => "metric_values"
  | .versions => "schema_version"

def all : List TableName := [.metrics, .values, .reports, .versions]

/-- The table of a name, in any case of letters. -/
def ofText? (s : String) : Option TableName := all.find? fun t => t.text == s.toLower

end TableName

inductive IndexName where
  | reportsByKindAndEnd
  | reportsByKindAndName
  | valuesByMetric
  | valuesByMetricAndTime
deriving DecidableEq, Repr

namespace IndexName

def table : IndexName → TableName
  | .reportsByKindAndEnd | .reportsByKindAndName => .reports
  | .valuesByMetric | .valuesByMetricAndTime => .values

def text : IndexName → String
  | .reportsByKindAndEnd => "idx_reports_kind_end"
  | .reportsByKindAndName => "idx_reports_kind_name"
  | .valuesByMetric => "idx_metric_values_metadata"
  | .valuesByMetricAndTime => "idx_metric_values_metadata_time"

def all : List IndexName :=
  [.valuesByMetric, .valuesByMetricAndTime, .reportsByKindAndEnd, .reportsByKindAndName]

end IndexName

/-- The form of a store. -/
structure Schema where
  tables : List TableName
  indexes : List IndexName
  softwareVersion : Bool
  /-- The recorded versions, in order. -/
  versions : List Int
deriving DecidableEq, Repr

namespace Schema

def empty : Schema := ⟨[], [], false, []⟩

def has (s : Schema) (t : TableName) : Bool := s.tables.contains t

def reportColumns (s : Schema) : List String :=
  if s.has .reports then
    ["id", "kind", "name", "start_time_ms", "end_time_ms"]
      ++ if s.softwareVersion then ["software_version"] else []
  else []

def tableNames (s : Schema) : List String := (TableName.all.filter s.has).map (·.text)

def indexNames (s : Schema) : List String :=
  (IndexName.all.filter s.indexes.contains).map (·.text)

/-- A number put into a list in order. -/
def insertSorted (n : Int) : List Int → List Int
  | [] => [n]
  | m :: ms => if n ≤ m then n :: m :: ms else m :: insertSorted n ms

end Schema

/-- A step of a migration. -/
inductive SchemaStep where
  | createTable (t : TableName)
  /-- An index, unless it is there; its table has to be there. -/
  | createIndex (i : IndexName)
  /-- The software version of reports; it must not be there. -/
  | addSoftwareVersion
  /-- The record of a version; it must not be there. -/
  | record (version : Int)
deriving DecidableEq, Repr

namespace Schema

def after? (s : Schema) : SchemaStep → Option Schema
  | .createTable t =>
    if s.has t then some s
    else
      some { s with
        tables := s.tables ++ [t]
        softwareVersion := if t = .reports then false else s.softwareVersion }
  | .createIndex i =>
    if !s.has i.table then none
    else if s.indexes.contains i then some s
    else some { s with indexes := s.indexes ++ [i] }
  | .addSoftwareVersion =>
    if s.has .reports && !s.softwareVersion then some { s with softwareVersion := true } else none
  | .record version =>
    if !s.has .versions || s.versions.contains version then none
    else some { s with versions := insertSorted version s.versions }

/-- Runs steps up to the first that fails; tells whether all were run. -/
def run : List SchemaStep → Schema → Bool × Schema
  | [], s => (true, s)
  | step :: steps, s =>
    match s.after? step with
    | none => (false, s)
    | some s => run steps s

/-- The tables of the first version. -/
def firstVersion : List SchemaStep :=
  [.createTable .reports, .createIndex .reportsByKindAndEnd, .createTable .metrics,
   .createTable .values, .createIndex .valuesByMetric, .record 1]

/-- What the second version adds. -/
def secondVersion : List SchemaStep :=
  [.addSoftwareVersion, .createIndex .reportsByKindAndName, .createIndex .valuesByMetricAndTime,
   .record 2]

/-- The version that a form says it has. -/
def current (s : Schema) : Int :=
  match s.versions.max? with
  | none => 0
  | some n => if 0 ≤ n && n < UInt32.size then n else 0

/-- The steps that a version still needs. -/
def missing (version : Int) : List SchemaStep :=
  (if version < 1 then firstVersion else []) ++ if version < 2 then secondVersion else []

/-- Brings a form up to date; tells whether that succeeded. -/
def migrate (s : Schema) : Bool × Schema :=
  match s.after? (.createTable .versions) with
  | none => (false, s)
  | some s => run (missing s.current) s

/-! ### Changes from outside -/

/-- Makes these the recorded versions; a repeated one is refused. -/
def setVersions (s : Schema) (versions : List Int) : Bool × Schema :=
  match s.after? (.createTable .versions) with
  | none => (false, s)
  | some s => run (versions.map .record) { s with versions := [] }

def dropSoftwareVersion (s : Schema) : Bool × Schema :=
  if s.has .reports && s.softwareVersion then (true, { s with softwareVersion := false })
  else (false, s)

/-- A table goes, with its indexes. -/
def dropTable (s : Schema) (t : TableName) : Bool × Schema :=
  if s.has t then
    (true,
      { tables := s.tables.filter (· != t)
        indexes := s.indexes.filter fun i => i.table != t
        softwareVersion := if t = .reports then false else s.softwareVersion
        versions := if t = .versions then [] else s.versions })
  else (false, s)

/-! ### The form of a given store -/

/-- The form of a store: the tables that are there with their indexes, and the versions that the
program has recorded. -/
def ofStore (store : Store) : Schema :=
  let isThere (t : TableName) : Bool := !store.damage.dropped.contains t
  { tables := TableName.all.filter isThere
    indexes := IndexName.all.filter fun i => isThere i.table
    softwareVersion := isThere .reports
    versions := if isThere .versions then [1, 2] else [] }

end Schema

/-- The store as it is opened again: brought up to date, with no query prepared. Tables that are
created anew are empty. -/
def Store.reopened? (s : Store) : Option Store :=
  match (Schema.ofStore s).migrate with
  | (false, _) => none
  | (true, form) =>
    let dropped := s.damage.dropped.filter fun t => !form.has t
    some { s with kept := [], damage := { s.damage with dropped, unseen := false } }

/-! ### Constraints -/

/-- Rows put into a form directly, as far as its constraints look at them. -/
structure SchemaRows where
  schema : Schema
  /-- The number of reports; their ids count from one. -/
  reports : Int
  /-- The reports that the metrics belong to; the ids of metrics count from one. -/
  metrics : List Int
  /-- Do rows have to belong to rows that are there? -/
  belonging : Bool
deriving Repr

namespace SchemaRows

def empty : SchemaRows := ⟨.empty, 0, [], true⟩

def hasReport (r : SchemaRows) (id : Int) : Bool := decide (1 ≤ id) && decide (id ≤ r.reports)

def hasMetric (r : SchemaRows) (id : Int) : Bool :=
  decide (1 ≤ id) && decide (id ≤ r.metrics.length)

/-- A change of the form alone. -/
def changeSchema (r : SchemaRows) (change : Schema → Bool × Schema) : Bool × SchemaRows :=
  let (done, schema) := change r.schema
  (done, { r with schema })

/-- The table of a name goes with its rows, if there is such a table. From then on rows need not
belong to others, even if there is none. -/
def dropTable (r : SchemaRows) (name : String) : Bool × SchemaRows :=
  let r := { r with belonging := false }
  match TableName.ofText? name with
  | none => (false, r)
  | some t =>
    let reports := if t = .reports then 0 else r.reports
    let metrics := if t = .metrics then [] else r.metrics
    { r with reports, metrics }.changeSchema (·.dropTable t)

def insertReport (r : SchemaRows) : Bool × SchemaRows :=
  if r.schema.has .reports then (true, { r with reports := r.reports + 1 }) else (false, r)

/-- Puts a metric of a fixed name: a report has at most one of it. -/
def insertMetric (r : SchemaRows) (reportId : Int) : Bool × SchemaRows :=
  if r.schema.has .metrics && !r.metrics.contains reportId
      && (!r.belonging || r.hasReport reportId) then
    (true, { r with metrics := r.metrics ++ [reportId] })
  else (false, r)

/-- Puts a value: exactly one of its three cells is filled. -/
def insertValue (r : SchemaRows) (metricId : Int) (filled : Nat) : Bool :=
  r.schema.has .values && filled == 1 && (!r.belonging || r.hasMetric metricId)

end SchemaRows

end Telemetry
