import BoundedGo.Fold
import BoundedGo.Text.Alphabetic
import BoundedGo.Text.Blank
import BoundedGo.Text.Numeric

/-!
The settings of a translation, and the layers that they are put together from. A layer sets some
of them and leaves the others to the layers below it.
-/
namespace BoundedGo

/-- The language that is produced. -/
inductive TargetLanguage
  | simplicityHL | simplicity
  deriving DecidableEq, Repr

structure Settings where
  target : TargetLanguage
  /-- The function whose body gives the witnesses. -/
  entry : String
  /-- Whether the syntax tree is shown. -/
  debug : Bool
  mode : EvalMode
  deriving DecidableEq, Repr

/-- Why a text is not the name of a setting's value. -/
inductive ChoiceFault
  | target (text : String)
  | mode (text : String)
  deriving DecidableEq, Repr

def ChoiceFault.message : ChoiceFault → String
  | .target text => "unsupported target: " ++ text
  | .mode text => "unknown evaluation mode: " ++ text

/-- A text without white space around it and with the small letters of the ASCII alphabet. -/
def normalized (text : String) : String :=
  String.ofList ((Text.trimBlank text.toList).map Char.toLower)

namespace TargetLanguage

def name : TargetLanguage → String
  | .simplicityHL => "simplicityhl"
  | .simplicity => "simplicity"

def ofText (text : String) : Except ChoiceFault TargetLanguage :=
  let word := normalized text
  if word = "simplicityhl" ∨ word = "shl" then .ok .simplicityHL
  else if word = "simplicity" then .ok .simplicity
  else .error (.target word)

end TargetLanguage

namespace EvalMode

def name : EvalMode → String
  | .approximate => "approximate"
  | .environment => "environment"

def ofText (text : String) : Except ChoiceFault EvalMode :=
  let word := normalized text
  if word = "approximate" ∨ word = "approx" then .ok .approximate
  else if word = "environment" ∨ word = "env" then .ok .environment
  else .error (.mode word)

end EvalMode

/-- The truth value that a text stands for. -/
def switch? (text : String) : Option Bool :=
  let word := normalized text
  if ["1", "true", "yes", "on"].contains word then some true
  else if ["0", "false", "no", "off"].contains word then some false
  else none

/-- Values for some of the settings. -/
structure Layer where
  target : Option TargetLanguage
  entry : Option String
  debug : Option Bool
  mode : Option EvalMode
  deriving DecidableEq, Repr

namespace Layer

def empty : Layer := ⟨none, none, none, none⟩

/-- The environment variables that give settings. -/
def variableNames : List String := ["SIMGO_TARGET", "SIMGO_ENTRY", "SIMGO_DEBUG", "SIMGO_EVAL"]

/-- The settings that environment variables give. A text that is no value of its setting gives
nothing; the name of the entry function is taken as it is, without white space around it. -/
def ofVariables (read : String → Option String) : Layer where
  target := (read "SIMGO_TARGET").bind (fun text => (TargetLanguage.ofText text).toOption)
  entry := (read "SIMGO_ENTRY").map Text.trimmed
  debug := (read "SIMGO_DEBUG").bind switch?
  mode := (read "SIMGO_EVAL").bind (fun text => (EvalMode.ofText text).toOption)

end Layer

inductive SettingsFault
  | emptyEntry
  | entryNotIdentifier
  deriving DecidableEq, Repr

def SettingsFault.message : SettingsFault → String
  | .emptyEntry => "entry ne doit pas être vide"
  | .entryNotIdentifier => "entry doit être un identifiant Go"

namespace Settings

def default : Settings := ⟨.simplicityHL, "main", false, .approximate⟩

/-- What a layer sets replaces what was set before. -/
def under (s : Settings) (l : Layer) : Settings where
  target := l.target.getD s.target
  entry := l.entry.getD s.entry
  debug := l.debug.getD s.debug
  mode := l.mode.getD s.mode

/-- A step by which settings come about. -/
inductive Change
  /-- A layer is put over the settings. -/
  | lay (l : Layer)
  /-- The settings are dropped, and a layer is put over the defaults. -/
  | restart (l : Layer)
  deriving DecidableEq, Repr

def after (s : Settings) : Change → Settings
  | .lay l => s.under l
  | .restart l => default.under l

/-- The settings can be used if the entry has the form of an identifier. -/
def check (s : Settings) : Except SettingsFault Unit :=
  match s.entry.toList with
  | [] => .error .emptyEntry
  | c :: cs =>
    if (c = '_' || Text.isAlphabetic c)
      && cs.all (fun c => c = '_' || Text.isAlphabetic c || Text.isNumeric c) then .ok ()
    else .error .entryNotIdentifier

end Settings

end BoundedGo
