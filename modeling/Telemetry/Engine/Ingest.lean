import Telemetry.Metric.Sample
import Telemetry.Store.Cursor

/-!
# Taking samples in

A sample goes to the open report that it is addressed to; one is started if none is open.  A sample
of the hourly accumulator goes to every session as well that covers its time.  A session may begin
with the latest values of the hourly accumulator, as if they had been sampled at its start.
-/

namespace Telemetry.Transaction

/-- The open report of a kind and a name, started if none is open. -/
def openOrStart (kind : ReportKind) (name : Option String) (startMs : Int)
    (softwareVersion : Option String) : Transaction Int :=
  update (·.openOrStart kind name startMs softwareVersion)

def insertValue (metricId : Int) (version : Nat) (timeMs : Int) (value : SampleValue) :
    Transaction (Option Int) := do
  useKept .insertValue [.values] .saveValue .saveValue
  update (·.insertValue metricId version timeMs value)

/-- The sessions that cover a time, by id. -/
def sessionsAt (t : Int) : Transaction (List Int) := do
  useKept .sessionsAt [.reports] .prepareQuery .convertSession
  query fun s => .ok (s.sessionsAt t)

/-- Records a value of a metric in a report; the result is the value's id. -/
def record (reportId : Int) (spec : MetricSpec) (version : Nat) (timeMs : Int)
    (value : SampleValue) : Transaction (Option Int) := do
  let metricId ← update (·.putMetric reportId spec)
  insertValue metricId version timeMs value

def recordInAll (sample : MetricSample) : List Int → Transaction Unit
  | [] => pure ()
  | id :: ids => do
    let _ ← record id sample.spec sample.version sample.timeMs sample.value
    recordInAll sample ids

/-- Takes a sample in; the result is the id of its value. -/
def take (softwareVersion : Option String) (sample : MetricSample) : Transaction (Option Int) := do
  let reportId ← openOrStart sample.reportKind sample.sessionName sample.timeMs softwareVersion
  let valueId ← record reportId sample.spec sample.version sample.timeMs sample.value
  if sample.reportKind = .hourly then
    recordInAll sample (← sessionsAt sample.timeMs)
  pure valueId

def startSession (softwareVersion : Option String) (name : String) (t : Int) : Transaction Unit := do
  let _ ← openOrStart .session (some name) t softwareVersion

def latestUpTo (metricId t : Int) : Transaction (Option ValueRow) :=
  query (·.latestValue? ⟨[metricId], none, none, t, false⟩)

/-- Records the latest values of metrics of one report in another, as of a time. -/
def seed (source target t : Int) : List String → Transaction Unit
  | [] => pure ()
  | key :: keys => do
    if let some m ← query (·.findMetric? source key) then
      if let some v ← latestUpTo m.id t then
        let _ ← record target m.spec v.version t v.value
    seed source target t keys

/-- Starts a session with the latest values of metrics of the hourly accumulator. A session that is
open already stays as it is. -/
def startSeeded (softwareVersion : Option String) (name : String) (t : Int) (keys : List String) :
    Transaction Unit := do
  if (← query (·.openReport? .session (some name))).isSome then pure ()
  else
    let sessionId ← openOrStart .session (some name) t softwareVersion
    if let some hourly ← query (·.openReport? .hourly none) then
      seed hourly.id sessionId t keys

def endSession (name : String) (t : Int) : Transaction Unit :=
  change (·.endOpen .session (some name) t)

end Telemetry.Transaction
