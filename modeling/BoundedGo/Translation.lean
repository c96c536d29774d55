import BoundedGo.Emission
import BoundedGo.Parse.Source
import BoundedGo.Restriction
import BoundedGo.Settings
import BoundedGo.Tree.Outline

/-!
The translation of a file: it is checked for forbidden constructs, analysed and written out. What
stops it is an error; what had to be guessed is reported beside the program.
-/
namespace BoundedGo

structure Translation where
  text : String
  /-- The values that are not exact, then the warnings of the entry point. -/
  diagnostics : List Diagnostic
  /-- The outline of the syntax tree, in debug mode. -/
  outline : Option String
  deriving DecidableEq, Repr

def Translation.warnings (t : Translation) : List Diagnostic :=
  t.diagnostics.filter (fun d => d.severity = .warning)

/-- The values that are not exact. -/
def Translation.notes (t : Translation) : List Diagnostic :=
  t.diagnostics.filter (fun d => d.severity = .info)

inductive TranslationError
  | parse (file : String) (source : SourceError)
  | validation (violations : List Violation)
  | typeMapping (e : TypeError)
  | unsupportedTarget
  deriving DecidableEq, Repr

namespace TranslationError

def message : TranslationError → String
  | .parse file source => "failed to parse " ++ file ++ ": " ++ source.message
  | .validation violations =>
    "unsupported Go features detected:\n" ++ "\n".intercalate (violations.map Violation.message)
  | .typeMapping e => "code analysis failed: " ++ e.message
  | .unsupportedTarget => "direct Simplicity compilation not yet implemented"

/-- The message and those of the errors that it comes from, outermost first. -/
def chain : TranslationError → List String
  | .parse file source => [message (.parse file source), source.message]
  | .typeMapping e => [message (.typeMapping e), e.message]
  | e => [e.message]

end TranslationError

/-- Translates a syntax tree. -/
def translateFile (settings : Settings) (file : File) : Except TranslationError Translation :=
  match file.validate with
  | .error violations => .error (.validation violations)
  | .ok () =>
    match settings.target with
    | .simplicity => .error .unsupportedTarget
    | .simplicityHL =>
      match analyze settings.entry settings.mode file with
      | .error e => .error (.typeMapping e)
      | .ok analysis =>
        let (text, warnings) := generate analysis
        .ok ⟨text, analysis.fallbacks.map .notConstant ++ warnings,
          if settings.debug then some file.outline.text else none⟩

/-- Translates a source text. The name of its file is only used in messages. -/
def translate (settings : Settings) (name source : String) :
    Except TranslationError Translation :=
  match parseFile source with
  | .error e => .error (.parse name e)
  | .ok file => translateFile settings file

end BoundedGo
