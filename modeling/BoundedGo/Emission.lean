import BoundedGo.Analysis

/-!
The text of the target program: the witnesses, the constants, the functions and an entry point
that asserts something. What it asserts is guessed: a witness that is named as a result, or the
last function applied to the witnesses that are truth values, or `true`.
-/
namespace BoundedGo

inductive Severity
  | info | warning
  deriving DecidableEq, Repr

def Severity.word : Severity → String
  | .info => "info"
  | .warning => "warning"

/-- What a translation reports beside the program. -/
inductive Diagnostic
  | notConstant (name : String)
  | nothingToCall
  | callsLast (helper : String)
  | lacksArguments (helper : String) (wanted found : Nat)
  deriving DecidableEq, Repr

namespace Diagnostic

def severity : Diagnostic → Severity
  | .notConstant _ => .info
  | _ => .warning

def message : Diagnostic → String
  | .notConstant name => "`" ++ name ++ "` is not a compile-time constant; using `true`"
  | .nothingToCall => "no `result` witness and no function to call; emitting `assert!(true)`"
  | .callsLast helper =>
    "no `result` witness; asserting the last function `" ++ helper ++ "` on boolean witnesses"
  | .lacksArguments helper wanted found =>
    "no `result` witness; `" ++ helper ++ "` takes " ++ Text.decimal wanted
      ++ " argument(s) but only " ++ Text.decimal found
      ++ " boolean witness(es) exist; emitting `assert!(true)`"

def display (d : Diagnostic) : String :=
  d.severity.word ++ ": " ++ d.message

end Diagnostic

/-- Lines of a program. -/
abbrev Lines := List String

namespace Lines

/-- A line with four spaces in front for every level. -/
def indented (depth : Nat) (line : String) : String :=
  String.ofList (List.replicate (4 * depth) ' ') ++ line

/-- Every line ends with a line feed. -/
def text : Lines → String
  | [] => ""
  | line :: lines => line ++ "\n" ++ text lines

end Lines

/-- What the entry point asserts. -/
inductive Assertion
  | witness (name : String)
  | call (helper : String) (arguments : List String)
  | trivial
  deriving DecidableEq, Repr

namespace Emission

def definition (name type value : String) : String :=
  Lines.indented 1 ("const " ++ name ++ ": " ++ type ++ " = " ++ value ++ ";")

def witnessName (w : Witness) : String := Text.uppercase w.name

def witnessLine (w : Witness) : String :=
  definition (witnessName w) w.resolvedType w.value

def constantLine (c : Constant) : String :=
  definition c.name c.type c.value

def openBrace : String := " \x7b"

def closeBrace : String := "\x7d"

def witnessBlock (ws : List Witness) : Lines :=
  ["mod witness" ++ openBrace] ++ ws.map witnessLine ++ [closeBrace]

def constantBlock (cs : List Constant) : Lines :=
  ["mod param" ++ openBrace] ++ cs.map constantLine ++ [closeBrace]

def bodyLines : HelperBody → Lines
  | .positive scrutinee =>
    ["match " ++ scrutinee ++ openBrace, Lines.indented 1 "0 => false,",
      Lines.indented 1 "_ => true,", closeBrace]
  | .name name => [name]
  | .placeholder => ["true"]

def parameter (p : Parameter) : String := p.name ++ ": " ++ p.type

def resultText : Option String → String
  | some type => " -> " ++ type
  | none => ""

def headLine (h : Helper) : String :=
  "fn " ++ h.name ++ "(" ++ ", ".intercalate (h.params.map parameter) ++ ")"
    ++ resultText h.result ++ openBrace

/-- A function, with an empty line behind it. -/
def helperLines (h : Helper) : Lines :=
  [headLine h] ++ (bodyLines h.body).map (Lines.indented 1) ++ [closeBrace, ""]

/-- A witness whose name speaks of a result, in letters of either case. -/
def namesResult (w : Witness) : Bool :=
  Text.occursIn "result".toList (w.name.toList.map Char.toLower)

/-- The assertion of the entry point, and the warning that goes with a guess. -/
def chooseAssertion (a : Analysis) : Assertion × List Diagnostic :=
  match a.witnesses.find? namesResult with
  | some w => (.witness (witnessName w), [])
  | none =>
    match a.helpers.getLast? with
    | none => (.trivial, [.nothingToCall])
    | some last =>
      let wanted := last.params.length
      let arguments := ((a.witnesses.filter Witness.isBool).take wanted).map witnessName
      if arguments.length = wanted then (.call last.name arguments, [.callsLast last.name])
      else (.trivial, [.lacksArguments last.name wanted arguments.length])

def witnessPath (name : String) : String := "witness::" ++ name

def assertionText : Assertion → String
  | .witness name => witnessPath name
  | .call helper arguments => helper ++ "(" ++ ", ".intercalate (arguments.map witnessPath) ++ ")"
  | .trivial => "true"

def entryLines (assertion : Assertion) : Lines :=
  ["fn main()" ++ openBrace, Lines.indented 1 ("assert!(" ++ assertionText assertion ++ ");"),
    closeBrace]

def programLines (a : Analysis) : Lines :=
  witnessBlock a.witnesses ++ constantBlock a.constants ++ [""]
    ++ a.helpers.flatMap helperLines ++ entryLines (chooseAssertion a).1

end Emission

/-- The program for what a file gives, with the warnings of the entry point. -/
def generate (a : Analysis) : String × List Diagnostic :=
  ((Emission.programLines a).text, (Emission.chooseAssertion a).2)

end BoundedGo
