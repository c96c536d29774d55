import BoundedGo.Settings
import BoundedGo.Toml.Document

/-!
Settings files. A file gives any of the settings under their names; what else it holds has no
effect, as long as the file is a well-formed document.
-/
namespace BoundedGo

namespace Toml

def Item.isEmpty : Item → Bool
  | .array [] => true
  | .table _ [] => true
  | _ => false

/-- A name out of a fixed choice. It may also be the only key of a table, with nothing in it. -/
def Item.name? : Item → Option String
  | .string name => some name
  | .table _ [(name, item)] => if item.isEmpty then some name else none
  | _ => none

def Item.text? : Item → Option String
  | .string text => some text
  | _ => none

def Item.truth? : Item → Option Bool
  | .boolean b => some b
  | _ => none

/-- The value of an entry that need not be there. An entry that cannot be read is a fault. -/
def setting? {α : Type} (read : Item → Option α) (key : String) (entries : Entries) :
    Option (Option α) :=
  match entry? key entries with
  | none => some none
  | some item => (read item).map some

end Toml

/-- The language of exactly this name. -/
def TargetLanguage.named? (name : String) : Option TargetLanguage :=
  [simplicityHL, simplicity].find? (fun t => t.name = name)

/-- The mode of exactly this name. -/
def EvalMode.named? (name : String) : Option EvalMode :=
  [approximate, environment].find? (fun m => m.name = name)

namespace Layer

/-- The settings among the entries of a document. -/
def ofEntries? (entries : Toml.Entries) : Option Layer := do
  let target ← Toml.setting? (fun i => i.name?.bind TargetLanguage.named?) "target" entries
  let entry ← Toml.setting? Toml.Item.text? "entry" entries
  let debug ← Toml.setting? Toml.Item.truth? "debug" entries
  let mode ← Toml.setting? (fun i => i.name?.bind EvalMode.named?) "eval" entries
  return ⟨target, entry, debug, mode⟩

/-- The settings that the text of a file gives. -/
def ofFile? (text : String) : Option Layer := do
  ofEntries? (← Toml.read? text)

end Layer

end BoundedGo
