import Telemetry.Store.Schema
import Telemetry.Store.Values

/-!
# Damaging a store

What can be done to a store from outside: a cell is overwritten, a table goes, changes of a table are
refused or allowed again.

A cell that is overwritten leaves a sound row where the row can still be read and is stored just as
the program would store it; otherwise the row keeps its odd cells.
-/

namespace Telemetry

/-- A column of a table. -/
structure Column (α : Type) where
  leaning : Leaning
  nullable : Bool
  put : α → Cell → α

def ReportCells.column? : String → Option (Column ReportCells)
  | "kind" => some ⟨.text, false, fun c x => { c with kind := x }⟩
  | "name" => some ⟨.text, true, fun c x => { c with name := x }⟩
  | "start_time_ms" => some ⟨.integer, false, fun c x => { c with startMs := x }⟩
  | "end_time_ms" => some ⟨.integer, true, fun c x => { c with endMs := x }⟩
  | "software_version" => some ⟨.text, true, fun c x => { c with softwareVersion := x }⟩
  | _ => none

def MetricCells.column? : String → Option (Column MetricCells)
  | "report_id" => some ⟨.integer, false, fun c x => { c with reportId := x }⟩
  | "event_name" => some ⟨.text, false, fun c x => { c with eventName := x }⟩
  | "metric_kind" => some ⟨.text, false, fun c x => { c with metricKind := x }⟩
  | "data_kind" => some ⟨.text, false, fun c x => { c with dataKind := x }⟩
  | "carry_over" => some ⟨.integer, false, fun c x => { c with carryOver := x }⟩
  | "aggregations" => some ⟨.text, false, fun c x => { c with aggregations := x }⟩
  | "internal" => some ⟨.integer, false, fun c x => { c with internal := x }⟩
  | _ => none

def ValueCells.column? : String → Option (Column ValueCells)
  | "metadata_id" => some ⟨.integer, false, fun c x => { c with metricId := x }⟩
  | "version" => some ⟨.integer, false, fun c x => { c with version := x }⟩
  | "timestamp_ms" => some ⟨.integer, false, fun c x => { c with timeMs := x }⟩
  | "string_val" => some ⟨.text, true, fun c x => { c with text := x }⟩
  | "number_val" => some ⟨.real, true, fun c x => { c with number := x }⟩
  | "bool_val" => some ⟨.integer, true, fun c x => { c with bool := x }⟩
  | _ => none

/-- The action of a name, in any case of letters. -/
def RowAction.ofText? (s : String) : Option RowAction :=
  match s.toUpper with
  | "INSERT" => some .insert
  | "UPDATE" => some .update
  | "DELETE" => some .delete
  | _ => none

namespace Store

/-- The cells of a row with one of them overwritten; nothing, if the column cannot take it. -/
def overwritten? {α : Type} (column : Column α) (cells : α) (cell : Cell) : Option α :=
  if cell.isNull && !column.nullable then none
  else some (column.put cells (cell.leaned column.leaning))

/-- A list of odd cells with those of one row replaced or, if they are sound now, left out. -/
def withOdd {α : Type} (cells : List (Int × α)) (id : Int) (odd : Option α) :
    List (Int × α) :=
  cells.filter (fun e => e.1 != id) ++ odd.toList.map fun c => (id, c)

def setReportCells (s : Store) (r : ReportRow) (c : ReportCells) : Store :=
  match c.row? r.id with
  | some read =>
    { s with
      reports := s.reports.update (fun x => x.id == r.id) fun _ => read
      damage := { s.damage with reportCells := withOdd s.damage.reportCells r.id none } }
  | none =>
    { s with damage := { s.damage with reportCells := withOdd s.damage.reportCells r.id (some c) } }

def setMetricCells (s : Store) (m : MetricRow) (c : MetricCells) : Store :=
  let sound := (c.row? m.id).filter fun read => c.same read.cells
  match sound with
  | some read =>
    { s with
      metrics := s.metrics.update (fun x => x.id == m.id) fun _ => read
      damage := { s.damage with metricCells := withOdd s.damage.metricCells m.id none } }
  | none =>
    { s with damage := { s.damage with metricCells := withOdd s.damage.metricCells m.id (some c) } }

/-- Gives a value other cells. The row itself takes over the metric, by which numbers are summed. -/
def setValueCells (s : Store) (v : ValueRow) (c : ValueCells) : Store :=
  let sound := ((c.row? v.id).bind id).filter fun read => c.same read.cells
  match sound with
  | some read =>
    { s with
      values := s.values.update (fun x => x.id == v.id) fun _ => read
      damage := { s.damage with valueCells := withOdd s.damage.valueCells v.id none } }
  | none =>
    let change (x : ValueRow) : ValueRow := { x with metricId := c.metricId.asInt?.getD x.metricId }
    { s with
      values := s.values.update (fun x => x.id == v.id) change
      damage := { s.damage with valueCells := withOdd s.damage.valueCells v.id (some c) } }

/-- Do two metrics have the name of the same report? -/
def sameMetric (a b : MetricCells) : Bool :=
  a.reportId.order b.reportId == .eq && a.eventName.order b.eventName == .eq

/-- Would cells make a metric that is there already under another id? -/
def isTaken (s : Store) (id : Int) (c : MetricCells) : Bool :=
  s.metrics.rows.any fun m =>
    m.id != id && sameMetric c ((oddCells? s.damage.metricCells m.id).getD m.cells)

def overwriteReport? (s : Store) (column : String) (id : Int) (cell : Cell) : Option Store := do
  let r ← s.reports.rows.find? fun r => r.id == id
  let column ← ReportCells.column? column
  let cells ← overwritten? column ((oddCells? s.damage.reportCells id).getD r.cells) cell
  some (s.setReportCells r cells)

def overwriteMetric? (s : Store) (column : String) (id : Int) (cell : Cell) : Option Store := do
  let m ← s.metrics.rows.find? fun m => m.id == id
  let column ← MetricCells.column? column
  let cells ← overwritten? column ((oddCells? s.damage.metricCells id).getD m.cells) cell
  if s.isTaken id cells then none else some (s.setMetricCells m cells)

def overwriteValue? (s : Store) (column : String) (id : Int) (cell : Cell) : Option Store := do
  let v ← s.values.rows.find? fun v => v.id == id
  let column ← ValueCells.column? column
  let cells ← overwritten? column ((oddCells? s.damage.valueCells id).getD v.cells) cell
  some (s.setValueCells v cells)

/-! ### Overwriting ids -/

/-- A table with a row under another id, at its place in the order of ids. -/
def movedRow? {α : Type} [Identified α] (t : Table α) (id target : Int) : Option (Table α) :=
  if !t.rows.any (fun r => Identified.id r == id) then none
  else if target = id then some t
  else if t.rows.any (fun r => Identified.id r == target) then none
  else
    let rows := t.rows.map fun r => if Identified.id r == id then Identified.withId target r else r
    some { t with rows := rows.mergeSort fun a b => decide (Identified.id a ≤ Identified.id b) }

/-- A list of odd cells with those of a row under another id. -/
def movedCells {α : Type} (cells : List (Int × α)) (id target : Int) : List (Int × α) :=
  cells.map fun e => if e.1 == id then (target, e.2) else e

/-- Overwrites an id. Nothing follows it: what belonged to the row does not any more. -/
def overwriteId? (s : Store) (table : TableName) (id target : Int) : Option Store :=
  match table with
  | .reports => (movedRow? s.reports id target).map fun reports =>
    { s with reports, damage := { s.damage with
        reportCells := movedCells s.damage.reportCells id target } }
  | .metrics => (movedRow? s.metrics id target).map fun metrics =>
    { s with metrics, damage := { s.damage with
        metricCells := movedCells s.damage.metricCells id target } }
  | .values => (movedRow? s.values id target).map fun values =>
    { s with values, damage := { s.damage with
        valueCells := movedCells s.damage.valueCells id target } }
  | .versions => none

/-- Overwrites a cell, if that can be done. Where updates of the table are refused, so is this one. -/
def overwrite? (s : Store) (table : TableName) (column : String) (id : Int) (cell : Cell) :
    Option Store :=
  let column := column.toLower
  if s.damage.blocked.contains (table, .update) then none
  else if column = "id" then (cell.leaned .integer).asInt?.bind (s.overwriteId? table id)
  else
    match table with
    | .reports => s.overwriteReport? column id cell
    | .metrics => s.overwriteMetric? column id cell
    | .values => s.overwriteValue? column id cell
    | .versions => none

/-- Overwrites a cell; the result counts the rows that were changed. -/
def setCell (s : Store) (table : TableName) (column : String) (id : Int) (cell : Cell) :
    Nat × Store :=
  match s.overwrite? table column id cell with
  | some s => (1, s)
  | none => (0, s)

/-! ### Tables and actions -/

/-- The store without the rows of a table. -/
def emptied (s : Store) (table : TableName) : Store :=
  match table with
  | .reports => { s with reports := .empty, damage := { s.damage with reportCells := [] } }
  | .metrics => { s with metrics := .empty, damage := { s.damage with metricCells := [] } }
  | .values => { s with values := .empty, damage := { s.damage with valueCells := [] } }
  | .versions => s

/-- A table goes, and with it what was said about changes of it. -/
def dropTable (s : Store) (table : TableName) : Store :=
  if s.damage.dropped.contains table then s
  else
    let s := s.emptied table
    { s with damage := { s.damage with
        dropped := table :: s.damage.dropped
        unseen := true
        blocked := s.damage.blocked.filter fun b => b.1 != table } }

def block (s : Store) (table : TableName) (action : RowAction) : Store :=
  if s.damage.dropped.contains table then s
  else { s with damage := { s.damage with blocked := (table, action) :: s.damage.blocked } }

def unblock (s : Store) (table : TableName) (action : RowAction) : Store :=
  { s with damage := { s.damage with
      blocked := s.damage.blocked.filter fun b => b != (table, action) } }

end Store

end Telemetry
