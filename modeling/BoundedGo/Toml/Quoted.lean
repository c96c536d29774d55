import BoundedGo.Toml.Reader

/-!
Quoted texts, on one line or on several, with escapes between double quotes and without them
between single ones.
-/
namespace BoundedGo.Toml

open Reader

/-- A code point in hexadecimal digits. -/
def codePoint (width : Nat) : Reader Char := fun cs => do
  let digits := cs.take width
  let n ← Text.readNat? 16 digits
  if digits.length = width ∧ n.isValidChar then some (Char.ofNat n, cs.drop width) else none

/-- The character that a backslash and what follows it stand for. -/
def escape : Reader Char := do
  symbol '\\'
  match ← char (fun _ => true) with
  | 'b' => return '\x08'
  | 't' => return '\t'
  | 'n' => return '\n'
  | 'f' => return '\x0c'
  | 'r' => return '\r'
  | '\x22' => return '\x22'
  | '\\' => return '\\'
  | 'u' => codePoint 4
  | 'U' => codePoint 8
  | _ => failure

/-- A character of a text between the given quotes, on one line. -/
def piece (quote : Char) : Reader Char :=
  if quote = '\x22' then char (fun c => isPlain c && c ≠ quote && c ≠ '\\') <|> escape
  else char (fun c => isPlain c && c ≠ quote)

def shortText (quote : Char) : Reader String := do
  symbol quote
  let cs ← many (piece quote)
  symbol quote
  return String.ofList cs

/-- A run of quotes that is too short to close a text of several lines. -/
def loneQuotes (quote : Char) : Reader (List Char) := do
  let run ← word (· = quote)
  check (run.length < 3)
  return run

/-- The end of a text of several lines. Up to two quotes in front of it belong to the text. -/
def closingQuotes (quote : Char) : Reader (List Char) := do
  let run ← word (· = quote)
  check (3 ≤ run.length ∧ run.length ≤ 5)
  return run.drop 3

/-- A backslash at the end of a line takes the white space and the line ends behind it away. -/
def joint : Reader Unit := do
  symbol '\\'
  spaces
  newline
  let _ ← many (symbol ' ' <|> symbol '\t' <|> newline)

/-- A part of a text on several lines. -/
def longPiece (quote : Char) : Reader (List Char) :=
  ((fun c => [c]) <$> piece quote) <|> ((fun _ => ['\n']) <$> newline) <|> loneQuotes quote <|>
    if quote = '\x22' then (fun _ => []) <$> joint else failure

def longText (quote : Char) : Reader String := do
  exactly [quote, quote, quote]
  let _ ← maybe newline
  let pieces ← many (longPiece quote)
  let rest ← closingQuotes quote
  return String.ofList (pieces.flatten ++ rest)

def quotedText : Reader String :=
  longText '\x22' <|> shortText '\x22' <|> longText '\x27' <|> shortText '\x27'

end BoundedGo.Toml
