import Telemetry.Settings.Basic
import Telemetry.Store.Values

/-!
# Reading values by pages

A cursor hands out the values that match a query one by one, in their order, and never holds more
of them than its buffer takes.  It fetches a page as long as there is room for a whole one; a page
begins after the last value that was fetched before.  A page that is not full is the last one.
-/

namespace Telemetry

/-- A reading under way. -/
structure ValueCursor where
  query : ValueQuery
  pageSize : Nat
  bufferSize : Nat
  /-- Values fetched and not yet handed out. -/
  buffer : List ValueRow
  /-- Time and id of the last value fetched. -/
  position : Option (Int × Int)
  exhausted : Bool
  /-- The number of pages that were asked for. -/
  pages : Nat
deriving Repr

namespace ValueCursor

/-- A cursor before its first page. -/
def start (query : ValueQuery) (paging : PagingSettings) : ValueCursor :=
  let pageSize := max paging.pageSize 1
  { query, pageSize
    bufferSize := max paging.bufferSize pageSize
    buffer := []
    position := none
    exhausted := query.metricIds.isEmpty
    pages := 0 }

def hasRoom (c : ValueCursor) : Bool := c.buffer.length + c.pageSize ≤ c.bufferSize

/-- Does a value come after the last one fetched? -/
def isAhead (c : ValueCursor) (s : Store) (v : ValueRow) : Bool :=
  match c.position with
  | none => true
  | some (t, id) =>
    match (Cell.int t).order (s.timeOf v) with
    | .lt => true
    | .eq => decide (id < v.id)
    | .gt => false

/-- The rows of the next page. -/
def page (c : ValueCursor) (s : Store) : List ValueRow :=
  ((s.values.rows.filter fun v => s.admitsOwned c.query v && c.isAhead s v).mergeSort
    s.precedes).take c.pageSize

/-- Reads a row of a page with its place in the order of values. -/
def readRow (s : Store) (v : ValueRow) : Except Failure ((Int × Int) × Option ValueRow) := do
  match (s.timeOf v).asInt? with
  | none => .error StorageStep.convertValue.failure
  | some t => .ok ((t, v.id), ← s.readValue .convertValue v)

/-- Fetches a page. One that cannot be read ends the reading. -/
def fetchPage (c : ValueCursor) (s : Store) : Except Failure Unit × ValueCursor :=
  match (c.page s).mapM (readRow s) with
  | .error e => (.error e, { c with exhausted := true, pages := c.pages + 1 })
  | .ok rows =>
    (.ok (), { c with
      buffer := c.buffer ++ rows.filterMap (·.2)
      position := (rows.getLast?.map (·.1)).or c.position
      exhausted := decide (rows.length < c.pageSize)
      pages := c.pages + 1 })

/-- Fetches pages until the buffer has no room for one more; `fuel` bounds their number. -/
def fill (s : Store) : Nat → ValueCursor → Except Failure Unit × ValueCursor
  | 0, c => (.ok (), c)
  | fuel + 1, c =>
    if !c.exhausted && (c.buffer.isEmpty || c.hasRoom) then
      match c.fetchPage s with
      | (.error e, c) => (.error e, c)
      | (.ok (), c) => if c.hasRoom then fill s fuel c else (.ok (), c)
    else (.ok (), c)

/-- The next value and the cursor after it. -/
def next (c : ValueCursor) (s : Store) : Option (Except Failure ValueRow) × ValueCursor :=
  match fill s (s.values.rows.length + 1) c with
  | (.error e, c) => (some (.error e), c)
  | (.ok (), c) =>
    match c.buffer with
    | [] => (none, c)
    | v :: rest => (some (.ok v), { c with buffer := rest })

/-- What the cursor hands out up to its end or its first failure, and the cursor then; `fuel` bounds
their number. -/
def drain (s : Store) : Nat → ValueCursor → List (Except Failure ValueRow) × ValueCursor
  | 0, c => ([], c)
  | fuel + 1, c =>
    match c.next s with
    | (none, c) => ([], c)
    | (some (.error e), c) => ([.error e], c)
    | (some (.ok v), c) =>
      let (rest, c) := drain s fuel c
      (.ok v :: rest, c)

end ValueCursor

/-- The values that match a query, in their order, read by pages, and the cursor at their end. -/
def Store.readSeries (s : Store) (query : ValueQuery) (paging : PagingSettings) :
    List (Except Failure ValueRow) × ValueCursor :=
  (ValueCursor.start query paging).drain s (s.values.rows.length + 1)

/-- The values that match a query, in their order, read by pages. -/
def Store.series (s : Store) (query : ValueQuery) (paging : PagingSettings) :
    List (Except Failure ValueRow) :=
  (s.readSeries query paging).1

/-- The query for a page; every page but the first continues another one. -/
def ValueQuery.page (q : ValueQuery) (continued : Bool) : KeptQuery :=
  .valuePage q.metricIds.length q.after.isSome q.ownTime continued

/-- The values that match a query, read by pages with queries that are kept prepared. -/
def Transaction.series (query : ValueQuery) (paging : PagingSettings) :
    Transaction (List (Except Failure ValueRow)) := do
  if query.metricIds.isEmpty then pure []
  else
    useKept (query.page false) [.values, .metrics, .reports] .prepareQuery .convertValue
    let s ← get
    let (values, cursor) := s.readSeries query paging
    if 1 < cursor.pages then set (s.keep (query.page true))
    pure values

end Telemetry
