import BoundedGo.Settings

/-!
Invocations: what the arguments of the command line ask for. Arguments are read from left to
right. An option that waits for its value gets the next argument, unless that argument is itself
an option. The value is looked at when the next option comes or the arguments end, so a fault in
how an argument is written is found before a fault in the value in front of it.
-/
namespace BoundedGo

structure Invocation where
  input : String
  /-- The file for the program, instead of the standard output. -/
  output : Option String
  /-- The file that settings are read from. -/
  config : Option String
  /-- The settings that options give. -/
  options : Layer
  verbosity : Nat
  deriving DecidableEq, Repr

/-- Why arguments give no invocation. -/
inductive UsageStop
  | help
  | version
  | unknownArgument
  /-- An option has no value, or an empty one in the place of the name of a file. -/
  | noValue
  | wrongValue
  | tooManyValues
  | repeated
  | noInput
  deriving DecidableEq, Repr

namespace Invocation

/-- The options that have a value. -/
inductive Parameter
  | input | output | target | entry | mode | config
  deriving DecidableEq, Repr

inductive Switch
  | debug | verbose | help | version
  deriving DecidableEq, Repr

inductive Flag
  | parameter (p : Parameter)
  | switch (s : Switch)
  deriving DecidableEq, Repr

/-- The option that is written with two dashes and a name. -/
def Flag.ofName? : String → Option Flag
  | "input" => some (.parameter .input)
  | "output" => some (.parameter .output)
  | "target" => some (.parameter .target)
  | "entry" => some (.parameter .entry)
  | "eval" => some (.parameter .mode)
  | "config" => some (.parameter .config)
  | "debug" => some (.switch .debug)
  | "verbose" => some (.switch .verbose)
  | "help" => some (.switch .help)
  | "version" => some (.switch .version)
  | _ => none

/-- The option that is written with one dash and a letter. -/
def Flag.ofLetter? : Char → Option Flag
  | 'i' => some (.parameter .input)
  | 'o' => some (.parameter .output)
  | 'v' => some (.switch .verbose)
  | 'h' => some (.switch .help)
  | 'V' => some (.switch .version)
  | _ => none

/-- What the arguments so far have given. -/
structure Draft where
  input : Option String
  output : Option String
  config : Option String
  options : Layer
  verbosity : Nat
  /-- The option that waits for its value, or whose value has not been looked at. -/
  pending : Option (Parameter × Option String)
  deriving DecidableEq, Repr

namespace Draft

def empty : Draft := ⟨none, none, none, Layer.empty, 0, none⟩

def isSet (d : Draft) : Parameter → Bool
  | .input => d.input.isSome
  | .output => d.output.isSome
  | .config => d.config.isSome
  | .target => d.options.target.isSome
  | .entry => d.options.entry.isSome
  | .mode => d.options.mode.isSome

/-- The name of a file, which is not empty. -/
def fileName (value : String) : Except UsageStop String :=
  if value.isEmpty then .error .noValue else .ok value

/-- A name out of a fixed choice. -/
def chosen {α : Type} : Except ChoiceFault α → Except UsageStop α
  | .ok a => .ok a
  | .error _ => .error .wrongValue

/-- Gives an option its value. No option has two. -/
def set (d : Draft) (p : Parameter) (value : String) : Except UsageStop Draft :=
  if d.isSet p then .error .repeated
  else match p with
    | .input => do return { d with input := ← fileName value }
    | .output => do return { d with output := ← fileName value }
    | .config => do return { d with config := ← fileName value }
    | .target => do
      let t ← chosen (TargetLanguage.ofText value)
      return { d with options := { d.options with target := t } }
    | .entry => .ok { d with options := { d.options with entry := value } }
    | .mode => do
      let m ← chosen (EvalMode.ofText value)
      return { d with options := { d.options with mode := m } }

/-- Looks at the value of the last option. No option may be left waiting for one. -/
def settled (d : Draft) : Except UsageStop Draft :=
  match d.pending with
  | none => .ok d
  | some (_, none) => .error .noValue
  | some (p, some value) => { d with pending := none }.set p value

/-- The greatest verbosity that is counted. -/
def verbosityBound : Nat := 255

def apply (d : Draft) : Switch → Except UsageStop Draft
  | .help => .error .help
  | .version => .error .version
  | .verbose => .ok { d with verbosity := min (d.verbosity + 1) verbosityBound }
  | .debug =>
    if d.options.debug.isSome then .error .repeated
    else .ok { d with options := { d.options with debug := true } }

/-- An option with the value that is written behind it, if one is. -/
def give (d : Draft) (p : Parameter) (value : Option String) : Except UsageStop Draft := do
  let d ← d.settled
  match value with
  | some v => d.set p v
  | none => return { d with pending := some (p, none) }

/-- An option written with two dashes. Its value follows an equals sign. -/
def longFlag (d : Draft) (text : List Char) : Except UsageStop Draft :=
  let name := text.takeWhile (· ≠ '=')
  let value := match text.dropWhile (· ≠ '=') with
    | [] => none
    | _ :: v => some (String.ofList v)
  match Flag.ofName? (String.ofList name), value with
  | none, _ => .error .unknownArgument
  | some (.parameter p), v => d.give p v
  | some (.switch _), some _ => .error .tooManyValues
  | some (.switch s), none => do (← d.settled).apply s

/-- Options written with one dash: any number of switches, and behind them an option together
with its value. An equals sign may stand in front of the value. -/
def shortFlags (d : Draft) : List Char → Except UsageStop Draft
  | [] => .ok d
  | c :: cs =>
    match Flag.ofLetter? c with
    | none => .error .unknownArgument
    | some (.switch s) => do
      let d ← (← d.settled).apply s
      d.shortFlags cs
    | some (.parameter p) =>
      match cs with
      | [] => d.give p none
      | '=' :: v => d.give p (some (String.ofList v))
      | v => d.give p (some (String.ofList v))

/-- An argument that is no option must be awaited. -/
def operand (d : Draft) (value : String) : Except UsageStop Draft :=
  match d.pending with
  | some (p, none) => .ok { d with pending := some (p, some value) }
  | _ => .error .unknownArgument

/-- Reads the arguments. Behind two dashes there are no options, so nothing may follow them. -/
def read (d : Draft) : List String → Except UsageStop Draft
  | [] => d.settled
  | argument :: rest =>
    match argument.toList with
    | ['-', '-'] => if rest.isEmpty then d.settled else .error .unknownArgument
    | '-' :: '-' :: text => do (← d.longFlag text).read rest
    | '-' :: c :: cs => do (← d.shortFlags (c :: cs)).read rest
    | _ => do (← d.operand argument).read rest

/-- What a draft gives, once all arguments are read. -/
def finish (d : Draft) : Except UsageStop Invocation :=
  match d.input with
  | none => .error .noInput
  | some input => .ok ⟨input, d.output, d.config, d.options, d.verbosity⟩

end Draft

/-- What the arguments ask for, the name of the program not among them. -/
def ofArguments (arguments : List String) : Except UsageStop Invocation := do
  (← Draft.empty.read arguments).finish

end Invocation

end BoundedGo
