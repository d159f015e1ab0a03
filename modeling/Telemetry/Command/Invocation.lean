import Telemetry.Command.Arguments
import Telemetry.Decimal.Numeral
import Telemetry.Metric.Kind
import Telemetry.Path

/-!
# Invocations

What a command line asks for, by its meaning: options of the program, and one of its commands.
`Invocation.parse` reads the arguments; what it gives is consistent in itself, but not yet checked
against the store.
-/

namespace Telemetry.Command

/-- How the text of a value is to be taken. -/
inductive ValueForm where
  | number
  | string
  | bool
deriving DecidableEq, Repr

def ValueForm.ofName? : String → Option ValueForm
  | "number" => some .number
  | "string" => some .string
  | "bool" => some .bool
  | _ => none

/-- The kind of a metric by the names that users know: distributions are gauges, states are
properties. -/
def metricKindOf? : String → Option MetricKind
  | "distribution" => some .gauge
  | "state" => some .property
  | name => MetricKind.ofName? name

/-- A sample to be recorded. -/
structure RecordArguments where
  name : String
  value : String
  form : ValueForm
  kind : Option MetricKind
  aggregations : List String
  session : Option String
  daily : Bool
  carryOver : Bool
  internal : Bool
  timeMs : Option Int
deriving Repr

structure CollectArguments where
  timeMs : Option Int
  noDaily : Bool
  exportFolder : Option Path
  endSessions : Bool
deriving Repr

structure SettingsArguments where
  daily : Option Bool
  sessionMetrics : List String
  pageSize : Option Nat
deriving Repr

inductive Action where
  | record (arguments : RecordArguments)
  | startSession (name : String) (keys : List String) (timeMs : Option Int)
  | endSession (name : String) (timeMs : Option Int)
  | collect (arguments : CollectArguments)
  | dump
  | settings (changes : SettingsArguments)
deriving Repr

/-- A command line. -/
structure Invocation where
  store : Option String
  settingsPath : Option Path
  softwareVersion : Option String
  action : Action
deriving Repr

/-! ### Values of options -/

def int64? (text : String) : Option Int :=
  (Decimal.integer? text).filter fun n =>
    decide (Int64.minValue.toInt ≤ n) && decide (n ≤ Int64.maxValue.toInt)

/-- An unsigned integer of 64 bits; it has no minus sign. -/
def nat64? (text : String) : Option Nat :=
  if text.startsWith "-" then none
  else ((Decimal.integer? text).filter fun n : Int => decide (n < UInt64.size)).map Int.toNat

def bool? : String → Option Bool
  | "true" => some true
  | "false" => some false
  | _ => none

def flag (name : String) : OptionSpec := ⟨name, none, none, false⟩

/-- An option with a value of some form. -/
def option (name : String) (accepts : String → Bool) : OptionSpec :=
  ⟨name, none, some accepts, false⟩

def anyText (_ : String) : Bool := true

/-- A path is not empty. -/
def isPath (text : String) : Bool := !text.isEmpty

def timeOption : OptionSpec := option "at" fun t => (int64? t).isSome

/-! ### Grammars -/

def programGrammar : Grammar where
  options := [option "db" isPath, option "config" isPath, ⟨"log-level", some 'l', some anyText, false⟩,
    option "software-version" anyText]
  plain := 0
  commands := ["record", "session", "collect", "dump", "config", "help"]
  hasVersion := true

/-- A command without further commands. -/
def leaf (options : List OptionSpec) (plain : Nat) : Grammar := ⟨options, plain, [], false⟩

def recordGrammar : Grammar :=
  leaf
    [option "type" fun t => (ValueForm.ofName? t).isSome,
     option "kind" fun t => (metricKindOf? t).isSome,
     { option "agg" anyText with repeatable := true }, option "session" anyText, flag "daily",
     flag "carry-over", flag "internal", timeOption]
    2

def sessionGrammar : Grammar := ⟨[], 0, ["start", "finish", "help"], false⟩

def startGrammar : Grammar := leaf [{ option "seed" anyText with repeatable := true }, timeOption] 1

def finishGrammar : Grammar := leaf [timeOption] 1

def collectGrammar : Grammar :=
  leaf [timeOption, flag "no-daily", option "export-dir" isPath, flag "force-end-all"] 0

def settingsGrammar : Grammar :=
  leaf
    [option "daily" fun t => (bool? t).isSome,
     { option "session-metric" anyText with repeatable := true },
     option "page-size" fun t => (nat64? t).isSome]
    0

/-! ### Reading -/

/-- Help on a command by its names: it is given where there is such a command. -/
def helpOn : List String → Stop
  | [] => .help
  | ["session"] => .help
  | ["session", name] => if sessionGrammar.commands.contains name then .help else .usage
  | [name] => if programGrammar.commands.contains name then .help else .usage
  | _ => .usage

def sessionHelpOn : List String → Stop
  | [] => .help
  | [name] => if sessionGrammar.commands.contains name then .help else .usage
  | _ => .usage

def Given.timeMs? (g : Given) : Option Int := (g.value? "at").bind int64?

def readRecord (args : List String) : Except Stop Action := do
  let g ← recordGrammar.read args .nothing
  match g.plain with
  | [name, value] =>
    if g.has "session" && g.has "daily" then .error .usage
    else
      .ok <| .record
        { name, value
          form := ((g.value? "type").bind ValueForm.ofName?).getD .number
          kind := (g.value? "kind").bind metricKindOf?
          aggregations := g.values "agg"
          session := g.value? "session"
          daily := g.has "daily"
          carryOver := g.has "carry-over"
          internal := g.has "internal"
          timeMs := g.timeMs? }
  | _ => .error .usage

def readSession (args : List String) : Except Stop Action := do
  let g ← sessionGrammar.read args .nothing
  match g.command with
  | some ("start", args) =>
    let g ← startGrammar.read args .nothing
    match g.plain with
    | [name] => .ok (.startSession name (g.values "seed") g.timeMs?)
    | _ => .error .usage
  | some ("finish", args) =>
    let g ← finishGrammar.read args .nothing
    match g.plain with
    | [name] => .ok (.endSession name g.timeMs?)
    | _ => .error .usage
  | some (_, names) => .error (sessionHelpOn names)
  | none => .error .usage

def readCollect (args : List String) : Except Stop Action := do
  let g ← collectGrammar.read args .nothing
  .ok <| .collect
    { timeMs := g.timeMs?
      noDaily := g.has "no-daily"
      exportFolder := (g.value? "export-dir").map Path.ofText
      endSessions := g.has "force-end-all" }

def readSettings (args : List String) : Except Stop Action := do
  let g ← settingsGrammar.read args .nothing
  .ok <| .settings
    { daily := (g.value? "daily").bind bool?
      sessionMetrics := g.values "session-metric"
      pageSize := (g.value? "page-size").bind nat64? }

def readAction : String → List String → Except Stop Action
  | "record", args => readRecord args
  | "session", args => readSession args
  | "collect", args => readCollect args
  | "dump", args => do
    let _ ← (leaf [] 0).read args .nothing
    .ok .dump
  | "config", args => readSettings args
  | _, names => .error (helpOn names)

/-- Reads a command line. -/
def Invocation.parse (args : List String) : Except Stop Invocation := do
  let g ← programGrammar.read args .nothing
  match g.command with
  | none => .error .usage
  | some (name, args) =>
    let action ← readAction name args
    let g ← g.settle
    .ok
      { store := g.value? "db"
        settingsPath := (g.value? "config").map Path.ofText
        softwareVersion := g.value? "software-version"
        action }

end Telemetry.Command
