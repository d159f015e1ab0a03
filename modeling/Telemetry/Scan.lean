import Telemetry.KeyMap
import Telemetry.Metric.Sample

/-!
# Scanning

A scanning aggregation runs over the values of one metric in the order of time, within a window, and
then writes entries to a report: the times in each state, the drops of a counter, or a moving average.

Differences and sums of times are exact integers here.  A program that has 64 bits for them stops
where one of them does not fit: its scan comes to no result, and nothing that is said of results is
said of that case.
-/

namespace Telemetry

/-! ### Windows of time

A window runs from its start to its end, both included.  Its end may lie before its start; its
duration is negative then, and everything is clamped to the start.
-/

/-- A window of time, in milliseconds. -/
structure Window where
  startMs : Int
  endMs : Int
deriving DecidableEq, Repr

namespace Window

/-- The duration, exact also where 64 bits would not hold it. -/
def durationMs (w : Window) : Int := w.endMs - w.startMs

/-- The time of the window that is nearest to `t`. -/
def clamp (w : Window) (t : Int) : Int := min (max t w.startMs) (max w.endMs w.startMs)

end Window

/-! ### Timed values

What the scanning aggregations consume, a value with its time, and the map they write to: entries
are named `<metric>_<what>` and put one after the other, so that a later one replaces an earlier one
of the same name.
-/

/-- The entries of a report, by name. -/
abbrev MetricMap := KeyMap Json

/-- A value and the time from which it holds. -/
structure TimedValue where
  timeMs : Int
  value : SampleValue
deriving Repr

/-- The integer nearest to `x`, halves away from zero, kept within 64 bits; zero if `x` is no
number. -/
def roundToInt (x : Float) : Int :=
  if x.isNaN then 0
  else
    let magnitude : Int :=
      if x.isFinite then
        (Decimal.Dyadic.ofBits x.abs.toBits).nearestInteger
      else UInt64.size
    if x < 0.0 then max (-magnitude) Int64.minValue.toInt else min magnitude Int64.maxValue.toInt

/-! ### Time in state

A stream of values is read as a step function: each value names a state, by its label, and holds
until the next one.  `TimeInState` sums, for each label, the time within a window for which it held.

A *shift* is a stretch of equal labels from its first value to the first value of the next stretch,
not cut to the window.  A shift is committed when the next one begins; the last one never is.
-/

/-- A stretch of one state. -/
structure Shift where
  state : String
  durationMs : Int
deriving DecidableEq, Repr

/-- What has been seen of a stream so far. -/
structure TimeInState where
  /-- Milliseconds within the window, by label. -/
  times : KeyMap Int
  /-- Committed shifts, the latest first. -/
  shifts : List Shift
  /-- The shift that is running. -/
  pending : Option Shift
  last : Option TimedValue

namespace TimeInState

def initial : TimeInState := ⟨.empty, [], none, none⟩

def addTime (times : KeyMap Int) (label : String) (ms : Int) : KeyMap Int :=
  times.insert label ((times.get? label).getD 0 + ms)

/-- Prolongs the running shift up to a value labelled `next`, and commits it if that is another
state. -/
def advance (s : TimeInState) (label next : String) (elapsed : Int) : TimeInState :=
  let running := s.pending.getD ⟨label, 0⟩
  let running := { running with durationMs := running.durationMs + elapsed }
  if next = running.state then { s with pending := some running }
  else { s with shifts := running :: s.shifts, pending := some ⟨next, 0⟩ }

/-- One more value. Values after the end of the window are passed over. The time that has elapsed
since the value before is exact, also where 64 bits would not hold it. -/
def accept (w : Window) (s : TimeInState) (v : TimedValue) : TimeInState :=
  if w.endMs < v.timeMs then s
  else
    let counted :=
      match s.last with
      | none => s
      | some last =>
        match last.value.stateLabel? with
        | none => s
        | some label =>
          let s := { s with times := addTime s.times label (w.clamp v.timeMs - w.clamp last.timeMs) }
          match v.value.stateLabel? with
          | none => s
          | some next => s.advance label next (v.timeMs - last.timeMs)
    { counted with last := some v }

/-- The times once the latest value has held up to the end of the window; they are exact, too. -/
def closedTimes (w : Window) (s : TimeInState) : KeyMap Int :=
  match s.last with
  | none => s.times
  | some last =>
    match last.value.stateLabel? with
    | none => s.times
    | some label => addTime s.times label (w.clamp w.endMs - w.clamp last.timeMs)

/-- A time in the window as seconds of every hour. -/
def secondsPerHour (durationMs ms : Int) : Int :=
  if durationMs = 0 then 0
  else roundToInt (3600.0 * (Float.ofInt ms / Float.ofInt durationMs))

def timeEntries (key : String) (perHour totals : Bool) (w : Window) (label : String) (ms : Int) :
    List (String × Json) :=
  (if perHour && ms ≤ w.durationMs then
    [(s!"{key}_{label}.secs/hour", .int (secondsPerHour w.durationMs ms))] else [])
  ++ (if totals then [(s!"{key}_{label}.total_secs", .int (ms.tdiv 1000))] else [])

/-- Sum and count of the committed shifts that took time, by label. -/
def shiftSums (s : TimeInState) : KeyMap (Int × Nat) :=
  (s.shifts.reverse.filter fun shift => shift.durationMs != 0).foldl
    (fun sums shift =>
      let (sum, count) := (sums.get? shift.state).getD (0, 0)
      sums.insert shift.state (sum + shift.durationMs, count + 1))
    .empty

/-- The entry for the mean length of the shifts of one label. -/
def meanEntry (key label : String) (sum : Int) (count : Nat) : String × Json :=
  (s!"{key}_{label}.mean_time_in_state_ms",
    .int (roundToInt (Float.ofInt sum / Float.ofNat count)))

def entries (key : String) (perHour totals : Bool) (w : Window) (s : TimeInState) :
    List (String × Json) :=
  (s.closedTimes w).entries.flatMap (fun e => timeEntries key perHour totals w e.1 e.2)
  ++ (if totals then s.shiftSums.entries.map fun e => meanEntry key e.1 e.2.1 e.2.2 else [])

end TimeInState

/-! ### Value drop

The sum of the decreases between consecutive numbers, by which resets of a counter show.  A value
that is no number interrupts the comparison.
-/

/-- The drops so far and the latest number. -/
structure ValueDrop where
  total : Float
  last : Option Float
deriving Repr

namespace ValueDrop

def initial : ValueDrop := ⟨0.0, none⟩

def accept (s : ValueDrop) (v : TimedValue) : ValueDrop :=
  let current := v.value.asNumber?
  match s.last, current with
  | some last, some x =>
    let delta := x - last
    ⟨if delta < 0.0 then s.total + delta.abs else s.total, current⟩
  | _, _ => { s with last := current }

/-- The entry for the drops; there always is one. -/
def entries (key : String) (s : ValueDrop) : List (String × Json) :=
  [(s!"{key}_drop", .float s.total)]

end ValueDrop

/-! ### Moving average

An exponential moving average weighted by time: a number that comes `Δt` after the one before has
weight `1 - exp (-Δt / τ)`, where `τ` is a third of the window.  Decibel numbers are averaged as the
powers they stand for.
-/

/-- The average so far and the time of its latest number. -/
structure MovingAverage where
  average : Option Float
  lastMs : Int
deriving Repr

namespace MovingAverage

def initial : MovingAverage := ⟨none, 0⟩

/-- The number that is averaged. -/
def enter (decibel : Bool) (x : Float) : Float := if decibel then Float.pow 10.0 (x / 10.0) else x

/-- The average as it is reported. -/
def leave (decibel : Bool) (x : Float) : Float := if decibel then 10.0 * Float.log10 x else x

/-- The weight of a number that comes `elapsed` after the one before. -/
def weight (w : Window) (elapsed : Int) : Float :=
  let tau := Float.ofInt w.durationMs / 3.0
  if tau > 0.0 then 1.0 - Float.exp (-(Float.ofInt elapsed) / tau) else 1.0

/-- One more value; only numbers count. -/
def accept (decibel : Bool) (w : Window) (s : MovingAverage) (v : TimedValue) : MovingAverage :=
  match v.value.asNumber? with
  | none => s
  | some x =>
    let x := enter decibel x
    match s.average with
    | none => ⟨some x, v.timeMs⟩
    | some average =>
      let alpha := weight w (v.timeMs - s.lastMs)
      ⟨some (x * alpha + (1.0 - alpha) * average), v.timeMs⟩

/-- The entry for the average, if there was a number. -/
def entries (key : String) (decibel : Bool) (s : MovingAverage) : List (String × Json) :=
  match s.average with
  | none => []
  | some average => [(s!"{key}_moving_avg", .float (leave decibel average))]

end MovingAverage

/-! ### Scanners

`forMetric` gives the scanners that a metric's aggregations ask for; `feed` runs them and
`finish` writes what they found.
-/

/-- A scanning aggregation at work. -/
inductive Scanner where
  | timeInState (perHour totals : Bool) (s : TimeInState)
  | drop (s : ValueDrop)
  | movingAverage (decibel : Bool) (s : MovingAverage)

namespace Scanner

/-- The scanners for a list of aggregations. Both moving averages would write the same entry, so
the one in decibel takes precedence. -/
def forMetric (aggregations : List Aggregation) : List Scanner :=
  let perHour := aggregations.contains (.state .timePerHour)
  let totals := aggregations.contains (.state .timeTotals)
  (if perHour || totals then [.timeInState perHour totals .initial] else [])
  ++ (if aggregations.contains (.numeric .drop) then [.drop .initial] else [])
  ++ (if aggregations.contains (.numeric .movingAverageDbm) then [.movingAverage true .initial]
      else if aggregations.contains (.numeric .movingAverage) then [.movingAverage false .initial]
      else [])

def accept (w : Window) (v : TimedValue) : Scanner → Scanner
  | .timeInState perHour totals s => .timeInState perHour totals (s.accept w v)
  | .drop s => .drop (s.accept v)
  | .movingAverage decibel s => .movingAverage decibel (s.accept decibel w v)

/-- The entries of a finished scan of a metric. -/
def entries (key : String) (w : Window) : Scanner → List (String × Json)
  | .timeInState perHour totals s => s.entries key perHour totals w
  | .drop s => s.entries key
  | .movingAverage decibel s => s.entries key decibel

/-- Feeds values to all scanners. -/
def feed (w : Window) (scanners : List Scanner) (values : List TimedValue) : List Scanner :=
  values.foldl (fun scanners v => scanners.map (accept w v)) scanners

/-- Writes the entries of all scanners, in their order. -/
def finish (key : String) (w : Window) (scanners : List Scanner) (out : MetricMap) : MetricMap :=
  scanners.foldl (fun out s => out.insertAll (s.entries key w)) out

end Scanner

end Telemetry
