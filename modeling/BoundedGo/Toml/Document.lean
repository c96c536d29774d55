import BoundedGo.Toml.Value

/-!
Documents: lines that open tables and lines that add entries to the table opened last. A key is
given one value, and a table is opened once.
-/
namespace BoundedGo.Toml

open Reader

/-- What a line says. -/
inductive Statement
  | header (key : Key)
  /-- Opens another table of an array of tables. -/
  | element (key : Key)
  | assign (key : Key) (item : Item)

def header : Reader Statement := do
  symbol '['
  let k ← key
  symbol ']'
  return .header k

def element : Reader Statement := do
  exactly ['[', '[']
  let k ← key
  exactly [']', ']']
  return .element k

def assignment : Reader Statement := do
  let (k, item) ← keyValue value
  return .assign k item

def line : Reader (Option Statement) := do
  spaces
  let statement ← maybe (header <|> element <|> assignment)
  spaces
  let _ ← maybe comment
  return statement

/-- The statements of a text, in the order of the lines. -/
def statements : Reader (List Statement) := do
  let _ ← maybe (symbol '\ufeff')
  let ended ← many (do
    let statement ← line
    newline
    return statement)
  let last ← line
  return (ended ++ [last]).filterMap id

structure Document where
  root : Entries
  /-- The path of the table that was opened last. -/
  current : List String

namespace Document

def empty : Document := ⟨[], []⟩

/-- Opens the table of a header. It may have been passed before, but not opened. -/
def openTable (key : Key) (_ : Origin) (entries : Entries) : Option Entries :=
  match entry? key.name entries with
  | none => some (put key.name (.table .header []) entries)
  | some (.table .passing inner) => some (put key.name (.table .header inner) entries)
  | some _ => none

def openElement (key : Key) (_ : Origin) (entries : Entries) : Option Entries :=
  match entry? key.name entries with
  | none => some (put key.name (.tables [] []) entries)
  | some (.tables before last) => some (put key.name (.tables (before ++ [last]) []) entries)
  | some _ => none

def after (d : Document) : Statement → Option Document
  | .header k => do
    return ⟨← within .passing (openTable k) k.path .header d.root, k.path ++ [k.name]⟩
  | .element k => do
    return ⟨← within .passing (openElement k) k.path .header d.root, k.path ++ [k.name]⟩
  | .assign k item => do
    return ⟨← within .passing (Toml.assign k item) d.current .header d.root, d.current⟩

end Document

/-- The entries of a document, if its text is well formed and gives nothing twice. -/
def read? (text : String) : Option Entries := do
  let lines ← statements.whole? text.toList
  let d ← lines.foldlM Document.after Document.empty
  return d.root

end BoundedGo.Toml
