import BoundedGo.Text.Numeral

/-!
Readers of text: each takes something off the front of a list of characters, or fails. An
alternative starts again where the first one started.
-/
namespace BoundedGo.Toml

abbrev Reader := StateT (List Char) Option

namespace Reader

variable {α : Type}

/-- One character of a class. -/
def char (accepts : Char → Bool) : Reader Char
  | [] => none
  | c :: cs => if accepts c then some (c, cs) else none

def symbol (c : Char) : Reader Unit := do
  let _ ← char (· = c)

/-- The given characters, in this order. -/
def exactly : List Char → Reader Unit
  | [] => return ()
  | c :: cs => do
    symbol c
    exactly cs

/-- All characters of a class in front, which may be none. -/
def span (accepts : Char → Bool) : Reader (List Char) := fun cs =>
  some (cs.takeWhile accepts, cs.dropWhile accepts)

/-- One character of a class or more. -/
def word (accepts : Char → Bool) : Reader (List Char) := do
  let first ← char accepts
  let rest ← span accepts
  return first :: rest

/-- What a condition holds of. -/
def check (p : Prop) [Decidable p] : Reader Unit :=
  if p then return () else failure

def atMost (r : Reader α) : Nat → Reader (List α)
  | 0 => return []
  | n + 1 => (do
      let first ← r
      let rest ← atMost r n
      return first :: rest) <|> return []

/-- As many as there are, for a reader that takes one character at the least. -/
def many (r : Reader α) : Reader (List α) := fun cs => atMost r cs.length cs

def maybe (r : Reader α) : Reader (Option α) :=
  some <$> r <|> return none

/-- Parts with a comma between two of them. -/
def separated (r : Reader α) : Reader (List α) := do
  match ← maybe r with
  | none => return []
  | some first =>
    let rest ← many (do
      symbol ','
      r)
    return first :: rest

/-- What a reader makes of a whole text. -/
def whole? (r : Reader α) (cs : List Char) : Option α :=
  match r cs with
  | some (a, []) => some a
  | _ => none

end Reader

/-! White space is a space or a tab. -/

def isSpace (c : Char) : Bool := c = ' ' || c = '\t'

def spaces : Reader Unit := do
  let _ ← Reader.span isSpace

def newline : Reader Unit := Reader.symbol '\n' <|> Reader.exactly ['\r', '\n']

/-- No control character but the tab stands in a text or a comment. -/
def isPlain (c : Char) : Bool := c = '\t' || (' ' ≤ c && c ≠ '\x7f')

def comment : Reader Unit := do
  Reader.symbol '#'
  let _ ← Reader.span isPlain

/-- White space, ends of lines and comments. -/
def gap : Reader Unit := do
  let _ ← Reader.many (
    Reader.symbol ' ' <|> Reader.symbol '\t' <|> newline <|> (do
      comment
      newline))

end BoundedGo.Toml
