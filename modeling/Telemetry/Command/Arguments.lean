/-!
# Arguments of a command line

A grammar says which options a command knows, how many plain arguments it takes, and which commands
may follow.  Arguments are read from left to right, and the first one that does not fit, asks for help
or asks for the version decides.

* `--name value`, `--name=value`, `-n value`, `-nvalue` and `-n=value` give an option its value; a
  value of its own must not look like an option.
* An option is given at most once, unless it may be repeated.
* After `--` everything is a plain argument.

A value that stands for itself is looked at when the next argument of the same command is read.  So
whether the value in front of a command fits comes out only after the arguments of that command, and
help on the command goes first.
-/

namespace Telemetry.Command

/-- Why reading arguments ended early. -/
inductive Stop where
  | usage
  | help
  | version
deriving DecidableEq, Repr

structure OptionSpec where
  name : String
  letter : Option Char
  /-- The values it takes; without them it is a flag. -/
  accepts : Option (String → Bool)
  repeatable : Bool

/-- What may be given to a command. -/
structure Grammar where
  options : List OptionSpec
  plain : Nat
  commands : List String
  hasVersion : Bool

/-- What was given to a command. -/
structure Given where
  /-- Options by name; a flag has the empty value. -/
  options : List (String × String)
  plain : List String
  /-- The last option, if its value was not looked at yet. -/
  pending : Option (OptionSpec × String)
  /-- The command that follows and its arguments. -/
  command : Option (String × List String)

def Given.nothing : Given := ⟨[], [], none, none⟩

namespace Given

def values (g : Given) (name : String) : List String :=
  (g.options.filter fun o => o.1 == name).map (·.2)

def value? (g : Given) (name : String) : Option String := (g.values name).head?

def has (g : Given) (name : String) : Bool := !(g.values name).isEmpty

def take (g : Given) (o : OptionSpec) (value : String) : Except Stop Given :=
  if g.has o.name && !o.repeatable then .error .usage
  else if o.accepts.any fun accepts => !accepts value then .error .usage
  else .ok { g with options := g.options ++ [(o.name, value)] }

/-- Takes the option whose value was not looked at yet. -/
def settle (g : Given) : Except Stop Given :=
  match g.pending with
  | none => .ok g
  | some (o, value) => { g with pending := none }.take o value

end Given

def looksLikeOption (arg : String) : Bool := arg.startsWith "-" && arg != "-"

/-- An argument split at its first `=`. -/
def splitValue (cs : List Char) : String × Option String :=
  match cs.dropWhile (· != '=') with
  | [] => (String.ofList cs, none)
  | _ :: value => (String.ofList (cs.takeWhile (· != '=')), some (String.ofList value))

namespace Grammar

def option? (g : Grammar) (name : String) : Option OptionSpec :=
  g.options.find? fun o => o.name == name

def letter? (g : Grammar) (c : Char) : Option OptionSpec :=
  g.options.find? fun o => o.letter == some c

/-- What an unknown name may still stand for. -/
def unknownName (g : Grammar) (name : String) (value : Option String) : Stop :=
  if value.isSome then .usage
  else if name = "help" then .help
  else if name = "version" && g.hasVersion then .version
  else .usage

/-- What an unknown letter may still stand for. -/
def unknownLetter (g : Grammar) (c : Char) : Stop :=
  if c = 'h' then .help else if c = 'V' && g.hasVersion then .version else .usage

/-- The option that an argument names, and the value that comes in the same argument. -/
def named (g : Grammar) (arg : String) : Except Stop (OptionSpec × Option String) :=
  match arg.toList with
  | '-' :: '-' :: cs =>
    let (name, value) := splitValue cs
    match g.option? name with
    | some o => .ok (o, value)
    | none => .error (g.unknownName name value)
  | _ :: c :: cs =>
    match g.letter? c with
    | none => .error (g.unknownLetter c)
    | some o =>
      match cs with
      | [] => .ok (o, none)
      | '=' :: value => .ok (o, some (String.ofList value))
      | value => .ok (o, some (String.ofList value))
  | _ => .error .usage

/-- Takes a plain argument, if there is room for it. -/
def takePlain (g : Grammar) (arg : String) (given : Given) : Except Stop Given :=
  if given.plain.length < g.plain then .ok { given with plain := given.plain ++ [arg] }
  else .error .usage

def takeAllPlain (g : Grammar) : List String → Given → Except Stop Given
  | [], given => .ok given
  | arg :: rest, given =>
    match g.takePlain arg given with
    | .ok given => takeAllPlain g rest given
    | .error stop => .error stop

/-- Reads the arguments of a command. -/
def read (g : Grammar) : List String → Given → Except Stop Given
  | [], given => given.settle
  | "--" :: rest, given => do g.takeAllPlain rest (← given.settle)
  | arg :: rest, given =>
    if looksLikeOption arg then
      match given.settle with
      | .error stop => .error stop
      | .ok given =>
        match g.named arg with
        | .error stop => .error stop
        | .ok (o, value) =>
          match o.accepts, value, rest with
          | none, some _, _ => .error .usage
          | none, none, rest =>
            match given.take o "" with
            | .ok given => read g rest given
            | .error stop => .error stop
          | some _, some value, rest =>
            match given.take o value with
            | .ok given => read g rest given
            | .error stop => .error stop
          | some _, none, [] => .error .usage
          | some _, none, value :: rest =>
            if looksLikeOption value then .error .usage
            else read g rest { given with pending := some (o, value) }
    else if g.commands.isEmpty then
      match given.settle >>= g.takePlain arg with
      | .ok given => read g rest given
      | .error stop => .error stop
    else if g.commands.contains arg then .ok { given with command := some (arg, rest) }
    else .error .usage
termination_by args => args.length
decreasing_by all_goals (simp_all; try omega)

end Grammar

end Telemetry.Command
