import BoundedGo.Text.Quoted

/-!
Trees as indented text, one part on a line: named parts in braces, parts that go by their place in
parentheses, lists in brackets, and a comma behind every part.
-/
namespace BoundedGo.Text

inductive Outline
  | atom (text : String)
  /-- Parts that have names. -/
  | record (name : String) (fields : List (String × Outline))
  /-- Parts that go by their place. -/
  | tuple (name : String) (items : List Outline)
  | list (items : List Outline)

namespace Outline

def string (s : String) : Outline := .atom (quotedString s)

def bool (b : Bool) : Outline := .atom (if b then "true" else "false")

def option : Option Outline → Outline
  | none => .atom "None"
  | some x => .tuple "Some" [x]

def indent (depth : Nat) : String :=
  String.ofList (List.replicate (4 * depth) ' ')

mutual

/-- The text of a tree that stands at the given depth. The first line is not indented. -/
def render (depth : Nat) : Outline → String
  | .atom text => text
  | .record name fields =>
    name ++ " \x7b\n" ++ renderFields (depth + 1) fields ++ indent depth ++ "\x7d"
  | .tuple name items =>
    name ++ "(\n" ++ renderItems (depth + 1) items ++ indent depth ++ ")"
  | .list [] => "[]"
  | .list (item :: items) =>
    "[\n" ++ renderItem (depth + 1) item ++ renderItems (depth + 1) items ++ indent depth ++ "]"

def renderItem (depth : Nat) (item : Outline) : String :=
  indent depth ++ item.render depth ++ ",\n"

def renderItems (depth : Nat) : List Outline → String
  | [] => ""
  | item :: items => renderItem depth item ++ renderItems depth items

def renderFields (depth : Nat) : List (String × Outline) → String
  | [] => ""
  | (name, item) :: fields =>
    indent depth ++ name ++ ": " ++ item.render depth ++ ",\n" ++ renderFields depth fields

end

/-- The text of a whole tree. -/
def text (x : Outline) : String := x.render 0

end Outline

end BoundedGo.Text
