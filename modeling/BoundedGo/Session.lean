import BoundedGo.Directory
import BoundedGo.Invocation
import BoundedGo.Settings.File
import BoundedGo.Translation

/-!
Sessions: one run of the program. Settings are put together in layers, the defaults first, then
the settings file, the environment and the options; then the input is read and translated, and
the program is written out. A session that fails has written nothing.
-/
namespace BoundedGo

/-- Why a session stopped. -/
inductive SessionError
  | settingsUnreadable (path : String)
  | settingsMalformed (path : String)
  | settings (fault : SettingsFault)
  | inputUnreadable (path : String)
  | translation (e : TranslationError)
  | outputUnwritable (path : String)
  deriving DecidableEq, Repr

/-- The message of an error. That of a translation goes on with the errors that it comes from. -/
def SessionError.message : SessionError → String
  | .settingsUnreadable path => "lecture " ++ path
  | .settingsMalformed path => "TOML invalide : " ++ path
  | .settings fault => "configuration invalide : " ++ fault.message
  | .inputUnreadable path => "failed to read input file " ++ path
  | .translation e => ": ".intercalate e.chain
  | .outputUnwritable path => "failed to write output file " ++ path

/-- What a session can see of the world around it. -/
structure Surroundings where
  /-- The text of the file at a path. -/
  file? : String → Option String
  /-- The value of an environment variable, if it is set. -/
  environment : String → Option String

namespace Invocation

/-- The layer of the settings file; without one, no settings. -/
def fileLayer (i : Invocation) (file? : String → Option String) : Except SessionError Layer :=
  match i.config with
  | none => .ok Layer.empty
  | some path =>
    match file? path with
    | none => .error (.settingsUnreadable path)
    | some text =>
      match Layer.ofFile? text with
      | none => .error (.settingsMalformed path)
      | some layer => .ok layer

/-- The settings of a session. -/
def settings (i : Invocation) (around : Surroundings) : Except SessionError Settings := do
  let layer ← i.fileLayer around.file?
  let s := ((Settings.default.under layer).under (Layer.ofVariables around.environment)).under
    i.options
  match s.check with
  | .ok () => return s
  | .error fault => throw (.settings fault)

/-- The translation of the input with settings that have been found. -/
def translation (i : Invocation) (around : Surroundings) (s : Settings) :
    Except SessionError Translation :=
  match around.file? i.input with
  | none => .error (.inputUnreadable i.input)
  | some source =>
    match translate s i.input source with
    | .error e => .error (.translation e)
    | .ok t => .ok t

/-- What is said when the program has been written to a file. -/
def successLine (i : Invocation) (output : String) : String :=
  "Successfully compiled " ++ i.input ++ " to " ++ output ++ "\n"

end Invocation

/-- What is shown before the program is written out. -/
def Translation.preface (t : Translation) : String :=
  match t.outline with
  | none => ""
  | some outline => outline ++ "\n"

/-- How files are read and written, where the state of all files has the type `σ`. A write that
fails gives no state. -/
structure FileSystem (σ : Type) where
  read? : σ → String → Option String
  write? : σ → String → String → Option σ

def Directory.fileSystem : FileSystem Directory := ⟨read?, write?⟩

/-- What a session leaves behind. -/
structure Run (σ : Type) where
  /-- The settings, once they have been found. -/
  settings : Option Settings
  /-- The error that ended the session early. -/
  failure : Option SessionError
  stdout : String
  stderr : String
  directory : σ

namespace Run

variable {σ : Type}

def failed (d : σ) (settings : Option Settings) (e : SessionError) (stderr : String) : Run σ :=
  ⟨settings, some e, "", stderr, d⟩

end Run

namespace FileSystem

variable {σ : Type}

/-- Writes a translation out. -/
def deliver (files : FileSystem σ) (i : Invocation) (s : Settings) (t : Translation) (d : σ) :
    Run σ :=
  match i.output with
  | none => ⟨some s, none, t.text, t.preface, d⟩
  | some path =>
    match files.write? d path t.text with
    | none => .failed d (some s) (.outputUnwritable path) t.preface
    | some d =>
      ⟨some s, none, "", t.preface ++ if s.debug then i.successLine path else "", d⟩

/-- Runs an invocation. -/
def run (files : FileSystem σ) (i : Invocation) (environment : String → Option String) (d : σ) :
    Run σ :=
  let around : Surroundings := ⟨files.read? d, environment⟩
  match i.settings around with
  | .error e => .failed d none e ""
  | .ok s =>
    match i.translation around s with
    | .error e => .failed d (some s) e ""
    | .ok t => files.deliver i s t d

end FileSystem

/-- What a session leaves behind in a directory. -/
abbrev Session := Run Directory

/-- Runs an invocation in a directory. -/
def Session.run (i : Invocation) (environment : String → Option String) (d : Directory) : Session :=
  Directory.fileSystem.run i environment d

end BoundedGo
