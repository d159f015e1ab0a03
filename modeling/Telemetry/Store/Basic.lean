import Telemetry.Failure
import Telemetry.Store.Row

/-!
# The store

Three tables of rows, each with the last id it has given out, so that no id is given twice.  Rows
stand in the order of their ids.

A store may have been damaged from outside: a table may be gone, changes of a table may be refused,
and single cells may hold what the program never writes.  All that is kept apart in `Damage`, and
rows with odd cells are looked at through their cells.  A store that was not damaged has
`Damage.none`, and its rows are what they say.

A step that touches a missing table fails, and so does one that would change a row of a table whose
changes are refused.  A store that is only read refuses every change.

Some queries are kept prepared: see `KeptQuery`.
-/

namespace Telemetry

/-- The tables of a store; the last one holds the versions of its form. -/
inductive TableName where
  | reports
  | metrics
  | values
  | versions
deriving DecidableEq, Repr

inductive RowAction where
  | insert
  | update
  | delete
deriving DecidableEq, Repr

/-- Queries that are kept prepared once they have been used. Where a table that they name has gone
since, they fail only as their rows are read. -/
inductive KeptQuery where
  | sessionsAt
  | metricsOf
  | carriedMetricsOf
  | insertValue
  /-- A page of the values of so many metrics: after a time, of existing reports from their own time
  on, and after the page before. -/
  | valuePage (metrics : Nat) (after ownTime continued : Bool)
deriving DecidableEq, Repr

def keptQueries : Nat := 16

/-- What was done to a store from outside. -/
structure Damage where
  /-- Tables that are gone. -/
  dropped : List TableName
  /-- A table went, and the store has not been looked at since. -/
  unseen : Bool
  blocked : List (TableName × RowAction)
  /-- Reports with odd cells, by id. -/
  reportCells : List (Int × ReportCells)
  /-- Metrics with odd cells, by id. -/
  metricCells : List (Int × MetricCells)
  /-- Values with odd cells, by id. -/
  valueCells : List (Int × ValueCells)
deriving Repr

def Damage.none : Damage := ⟨[], false, [], [], [], []⟩

/-- Rows and the last id given out. -/
structure Table (α : Type) where
  rows : List α
  lastId : Int
deriving Repr

namespace Table

variable {α : Type}

def empty : Table α := ⟨[], 0⟩

/-- The greatest id that was given out or is in use. -/
def greatestId [Identified α] (t : Table α) : Int :=
  t.rows.foldl (fun n r => max n (Identified.id r)) t.lastId

/-- The id of the next row. -/
def nextId [Identified α] (t : Table α) : Int := t.greatestId + 1

/-- Is there no id left? -/
def isFull [Identified α] (t : Table α) : Bool := decide (Int64.maxValue.toInt < t.nextId)

def append [Identified α] (t : Table α) (row : Int → α) : Table α :=
  ⟨t.rows ++ [row t.nextId], t.nextId⟩

/-- An id is used up without a row. -/
def skip [Identified α] (t : Table α) : Table α := { t with lastId := t.nextId }

/-- Changes the rows that are selected. -/
def update (t : Table α) (selected : α → Bool) (change : α → α) : Table α :=
  { t with rows := t.rows.map fun r => if selected r then change r else r }

/-- Removes the rows that are selected. -/
def remove (t : Table α) (selected : α → Bool) : Table α :=
  { t with rows := t.rows.filter fun r => !selected r }

end Table

structure Store where
  reports : Table ReportRow
  metrics : Table MetricRow
  values : Table ValueRow
  damage : Damage
  readOnly : Bool
  /-- The queries that are kept prepared, the last used first. -/
  kept : List KeptQuery

namespace Store

def empty : Store := ⟨.empty, .empty, .empty, .none, false, []⟩

instance : Inhabited Store := ⟨empty⟩

/-- Fails if one of the tables is gone. -/
def need (s : Store) (tables : List TableName) (step : StorageStep) : Except Failure Unit :=
  if tables.any s.damage.dropped.contains then .error step.failure else .ok ()

/-- Fails if a row is touched and the action is refused, and always if the store is only read. -/
def permit (s : Store) (table : TableName) (action : RowAction) (touched : Bool)
    (step : StorageStep) : Except Failure Unit :=
  if s.readOnly then .error (step.failureBecause "attempt to write a readonly database")
  else if touched && s.damage.blocked.contains (table, action) then .error step.failure
  else .ok ()

/-- Fails if a table has no id left. -/
def needId {α : Type} [Identified α] (t : Table α) (step : StorageStep) : Except Failure Unit :=
  if t.isFull then .error step.failure else .ok ()

/-- Keeps a query prepared; the one that was not used for longest has to go. -/
def keep (s : Store) (query : KeptQuery) : Store :=
  { s with kept := (query :: s.kept.filter (· != query)).take keptQueries }

/-! ### Looking at rows -/

/-- The odd cells of a row, if it has any. -/
def oddCells? {α : Type} (cells : List (Int × α)) (id : Int) : Option α :=
  (cells.find? fun e => e.1 == id).map (·.2)

/-- Tests a row: by itself, or by its cells if these are odd. -/
def test {α β : Type} (cells : List (Int × β)) (id : Int) (row : α) (plain : α → Bool)
    (odd : β → Bool) : Bool :=
  match oddCells? cells id with
  | none => plain row
  | some c => odd c

def testReport (s : Store) (plain : ReportRow → Bool) (odd : ReportCells → Bool) (r : ReportRow) :
    Bool :=
  test s.damage.reportCells r.id r plain odd

def testMetric (s : Store) (plain : MetricRow → Bool) (odd : MetricCells → Bool) (m : MetricRow) :
    Bool :=
  test s.damage.metricCells m.id m plain odd

def testValue (s : Store) (plain : ValueRow → Bool) (odd : ValueCells → Bool) (v : ValueRow) :
    Bool :=
  test s.damage.valueCells v.id v plain odd

def readReport (s : Store) (step : StorageStep) (r : ReportRow) : Except Failure ReportRow :=
  match oddCells? s.damage.reportCells r.id with
  | none => .ok r
  | some c =>
    match c.row? r.id with
    | some r => .ok r
    | none => .error step.failure

def readMetric (s : Store) (step : StorageStep) (m : MetricRow) : Except Failure MetricRow :=
  match oddCells? s.damage.metricCells m.id with
  | none => .ok m
  | some c =>
    match c.row? m.id with
    | some m => .ok m
    | none => .error step.failure

/-- Reads a value; a row may turn out to hold none. -/
def readValue (s : Store) (step : StorageStep) (v : ValueRow) : Except Failure (Option ValueRow) :=
  match oddCells? s.damage.valueCells v.id with
  | none => .ok (some v)
  | some c =>
    match c.row? v.id with
    | some v => .ok v
    | none => .error step.failure

end Store

/-- An operation on the store that may fail. What it did before it failed is for the caller to undo:
all but the queries that are kept prepared. -/
abbrev Transaction := ExceptT Failure (StateM Store)

namespace Transaction

def query {α : Type} (f : Store → Except Failure α) : Transaction α := fun s => (f s, s)

/-- A change with a result. -/
def update {α : Type} (f : Store → Except Failure (α × Store)) : Transaction α := fun s =>
  match f s with
  | .ok (a, s) => (.ok a, s)
  | .error e => (.error e, s)

def change (f : Store → Except Failure Store) : Transaction Unit :=
  update fun s => (f s).map fun s => ((), s)

/-- Uses a query that is kept prepared. If one of its tables is gone, it fails: as it is prepared, or
as its rows are read where it was prepared before. -/
def useKept (query : KeptQuery) (tables : List TableName) (preparing reading : StorageStep) :
    Transaction Unit := fun s =>
  if tables.any s.damage.dropped.contains then
    if s.kept.contains query then (.error reading.failure, s.keep query)
    else (.error preparing.failure, s)
  else (.ok (), s.keep query)

end Transaction

end Telemetry
