/-!
The contents of a TOML document. A table keeps its entries in the order of writing and knows how
it came about, because that decides who may still add to it.
-/
namespace BoundedGo.Toml

/-- How a table came about. -/
inductive Origin
  | header
  /-- It was only named on the way to the table of a header. -/
  | passing
  /-- It was only named on the way to the last part of a dotted key. -/
  | dotted
  | inline
  deriving DecidableEq, Repr

inductive Item
  | string (text : String)
  | boolean (value : Bool)
  /-- A number, a date or a time. -/
  | scalar
  | array (items : List Item)
  | table (origin : Origin) (entries : List (String × Item))
  /-- An array of tables that headers have made. Only the last table can grow. -/
  | tables (before : List (List (String × Item))) (last : List (String × Item))

abbrev Entries := List (String × Item)

def entry? (key : String) (entries : Entries) : Option Item := entries.lookup key

/-- Gives a key its item, in the place of the item that it had. -/
def put (key : String) (item : Item) : Entries → Entries
  | [] => [(key, item)]
  | (k, i) :: entries => if k = key then (key, item) :: entries else (k, i) :: put key item entries

/-- Changes the table at a path. Tables that are missing on the way are made, with the given
origin. There is no way into an inline table, nor from a dotted key into the table of a header. -/
def within (fresh : Origin) (change : Origin → Entries → Option Entries) :
    List String → Origin → Entries → Option Entries
  | [], origin, entries => change origin entries
  | key :: path, _, entries =>
    match entry? key entries with
    | none => do
      let inner ← within fresh change path fresh []
      return put key (.table fresh inner) entries
    | some (.table origin inner) =>
      if origin = .inline ∨ fresh = .dotted ∧ origin = .header then none
      else do
        let inner ← within fresh change path origin inner
        return put key (.table origin inner) entries
    | some (.tables before last) => do
      let last ← within fresh change path .header last
      return put key (.tables before last) entries
    | some _ => none

structure Key where
  path : List String
  name : String
  deriving DecidableEq, Repr

/-- The key whose parts are the given ones. -/
def Key.ofParts (first : String) : List String → Key
  | [] => ⟨[], first⟩
  | next :: rest =>
    let key := Key.ofParts next rest
    ⟨first :: key.path, key.name⟩

/-- Adds an entry. The key must be new, and a dotted key must lead to a table that only dotted
keys have made. -/
def assign (key : Key) (item : Item) : Origin → Entries → Option Entries :=
  within .dotted (fun origin entries =>
    if key.path ≠ [] ∧ origin ≠ .dotted then none
    else match entry? key.name entries with
      | some _ => none
      | none => some (put key.name item entries)) key.path

end BoundedGo.Toml
