import BoundedGo.Toml.Item
import BoundedGo.Toml.Quoted
import BoundedGo.Toml.Scalar

/-!
Values and keys. Arrays and inline tables nest to a bounded depth, so reading a value is recursion
on the depth that is left.
-/
namespace BoundedGo.Toml

open Reader

/-- Neither keys nor nested values go on for this many levels. -/
def levelBound : Nat := 80

def isBareKeyChar (c : Char) : Bool := c.isAlphanum || c = '-' || c = '_'

def simpleKey : Reader String :=
  shortText '\x22' <|> shortText '\x27' <|> (String.ofList <$> word isBareKeyChar)

def keyPart : Reader String := do
  spaces
  let part ← simpleKey
  spaces
  return part

def key : Reader Key := do
  let first ← keyPart
  let rest ← many (do
    symbol '.'
    keyPart)
  check (rest.length + 1 < levelBound)
  return Key.ofParts first rest

/-- A number, a date or a time. White space may stand between a date and a time. -/
def scalar : Reader Item := do
  let text ← word isScalarChar
  check (isScalar text)
  if isDate text then
    let _ ← maybe (do
      symbol ' '
      let time ← word isScalarChar
      check (isOffsetTime time))
  return .scalar

def boolean : Reader Item := do
  let text ← word isScalarChar
  if text = "true".toList then return .boolean true
  else if text = "false".toList then return .boolean false
  else failure

/-- A value without values in it. -/
def simpleValue : Reader Item := (Item.string <$> quotedText) <|> boolean <|> scalar

/-- Values between brackets, on as many lines as needed. A comma may stand behind the last. -/
def array (value : Reader Item) : Reader Item := do
  symbol '['
  let items ← separated (do
    gap
    let item ← value
    gap
    return item)
  if !items.isEmpty then
    let _ ← maybe (symbol ',')
  gap
  symbol ']'
  return .array items

def keyValue (value : Reader Item) : Reader (Key × Item) := do
  let k ← key
  symbol '='
  spaces
  let item ← value
  spaces
  return (k, item)

/-- Entries between braces, on one line. -/
def inlineTable (value : Reader Item) : Reader Item := do
  symbol '\x7b'
  let pairs ← separated (keyValue value)
  spaces
  symbol '\x7d'
  match pairs.foldlM (fun entries (k, item) => assign k item .inline entries) [] with
  | some entries => return .table .inline entries
  | none => failure

def valueWithin : Nat → Reader Item
  | 0 => simpleValue
  | depth + 1 => simpleValue <|> array (valueWithin depth) <|> inlineTable (valueWithin depth)

def value : Reader Item := valueWithin (levelBound - 1)

end BoundedGo.Toml
