import BoundedGo.Session

/-!
The command line: files, environment variables and the standard streams around a session.
-/
namespace BoundedGo

def usage : String :=
  "\n".intercalate [
    "Usage: boundedgo --input FILE [OPTIONS]",
    "",
    "  -i, --input FILE     the Go source",
    "  -o, --output FILE    where the program goes, instead of the standard output",
    "      --target NAME    simplicityhl or simplicity",
    "      --entry NAME     the function whose body gives the witnesses",
    "      --eval NAME      approximate or environment",
    "      --config FILE    a TOML file with settings",
    "      --debug          show the syntax tree",
    "  -v, --verbose        say more, also several times",
    "  -h, --help",
    "  -V, --version"]

def UsageStop.message : UsageStop → String
  | .help => usage
  | .version => "boundedgo 0.2.0"
  | .unknownArgument => "unknown argument"
  | .noValue => "an option needs a value"
  | .wrongValue => "an option has a value that is none of its values"
  | .tooManyValues => "an option takes no value"
  | .repeated => "an option is given twice"
  | .noInput => "--input is missing"

/-- The text of a file that is there and can be read. -/
def fileText? (path : String) : IO (Option String) := do
  try
    return some (← IO.FS.readFile path)
  catch _ => return none

/-- All that an invocation can ask for. -/
def surroundings (i : Invocation) : IO Surroundings := do
  let files ← (i.input :: i.config.toList).mapM fun path => do return (path, ← fileText? path)
  let values ← Layer.variableNames.mapM fun name => do return (name, ← IO.getEnv name)
  return ⟨fun path => (files.lookup path).join, fun name => (values.lookup name).join⟩

/-- Files with the texts that they were found with. What is written is noted, if it can be. -/
def noted (around : Surroundings) (writable : Bool) : FileSystem (Option (String × String)) where
  read? _ := around.file?
  write? _ path text := if writable then some (some (path, text)) else none

/-- Writes what a run has noted. If that is impossible, it is the run in which it was refused. -/
def written (i : Invocation) (around : Surroundings) : IO (Run (Option (String × String))) := do
  let run := (noted around true).run i around.environment none
  match run.directory with
  | none => return run
  | some (path, text) =>
    try
      IO.FS.writeFile path text
      return run
    catch _ => return (noted around false).run i around.environment none

def execute (i : Invocation) : IO UInt32 := do
  let run ← written i (← surroundings i)
  IO.eprint run.stderr
  match run.failure with
  | none =>
    IO.print run.stdout
    return 0
  | some e =>
    IO.eprintln ("Compilation failed: " ++ e.message)
    return 1

end BoundedGo

def main (arguments : List String) : IO UInt32 := do
  match BoundedGo.Invocation.ofArguments arguments with
  | .ok i => BoundedGo.execute i
  | .error stop =>
    if stop = .help ∨ stop = .version then
      IO.println stop.message
      return 0
    else
      IO.eprintln ("error: " ++ stop.message ++ "\n\n" ++ BoundedGo.usage)
      return 2
