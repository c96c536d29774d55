import BoundedGo.Parse.Fault
import BoundedGo.Parse.Stream

/-!
Parsers over a stream of tokens. A parser that fails leaves the stream where it stopped: nothing
is read twice and nothing is put back.
-/
namespace BoundedGo

abbrev Parse := EStateM SyntaxError Stream

instance : Coe Symbol TokenKind := ⟨.symbol⟩
instance : Coe Keyword TokenKind := ⟨.keyword⟩

namespace Parse

variable {α : Type}

def current : Parse Token := fun s => .ok s.current s

def kind : Parse TokenKind := fun s => .ok s.current.kind s

/-- The kind of a token further on. -/
def kindAt (n : Nat) : Parse TokenKind := fun s => .ok (s.kindAt n) s

/-- Goes on to the next token. -/
def skip : Parse Unit := fun s => .ok () s.advance

def skipSemicolons : Parse Unit := fun s => .ok () s.skipSemicolons

/-- Fails at the current token. -/
def fail (fault : SyntaxFault) : Parse α := fun s => .error ⟨fault, s.current.span⟩ s

/-- Fails because the current token is not what was wanted. -/
def refuse (wanted : Expectation) : Parse α := fun s =>
  .error ⟨.expected wanted s.current, s.current.span⟩ s

def isAt (k : TokenKind) : Parse Bool := do
  return (← kind) = k

/-- Goes on if the current token is of the given kind, and tells whether it did. -/
def accept (k : TokenKind) : Parse Bool := do
  if ← isAt k then
    skip
    return true
  else return false

def expectSymbol (s : Symbol) : Parse Unit := do
  if ← accept s then return () else refuse (.symbol s)

def expectKeyword (w : Keyword) : Parse Unit := do
  if ← accept w then return () else refuse (.keyword w)

def identifier : Parse String := do
  let t ← current
  if t.kind = .ident then
    skip
    return t.lexeme
  else refuse .identifier

/-- The end of a statement: a semicolon, or whatever closes the statements around it. -/
def statementEnd : Parse Unit := do
  match ← kind with
  | .symbol .semicolon => skip
  | .eof | .symbol .parenClose | .symbol .braceClose => return ()
  | _ => refuse .statementEnd

/-- Runs a parser with literals of named types allowed or not. The setting that was there before
is put back behind it, also when it fails. -/
def withLiterals (allowed : Bool) (p : Parse α) : Parse α := fun s =>
  match p { s with literals := allowed } with
  | .ok a t => .ok a { t with literals := s.literals }
  | .error e t => .error e { t with literals := s.literals }

def literalsAllowed : Parse Bool := fun s => .ok s.literals s

/-- Runs a step until it gives nothing, at most `n` times, and collects what it gave. -/
def collectN (step : Parse (Option α)) : Nat → Parse (List α)
  | 0 => fail .exhausted
  | n + 1 => do
    match ← step with
    | none => return []
    | some x => return x :: (← collectN step n)

/-- Runs a step until it gives nothing. Every step that gives something must go on by a token, so
the tokens ahead bound their number. -/
def collect (step : Parse (Option α)) : Parse (List α) := fun s =>
  collectN step (s.rest.length + 1) s

/-- Replaces a value by what a step makes of it, at most `n` times. -/
def iterateN (step : α → Parse (Option α)) : Nat → α → Parse α
  | 0, _ => fail .exhausted
  | n + 1, x => do
    match ← step x with
    | none => return x
    | some y => iterateN step n y

/-- Replaces a value by what a step makes of it, until the step gives nothing. -/
def iterate (step : α → Parse (Option α)) (x : α) : Parse α := fun s =>
  iterateN step (s.rest.length + 1) x s

/-- One item or more, with commas between them. -/
def commaSeparated (item : Parse α) : Parse (List α) := do
  let first ← item
  let others ← collect do
    if ← accept Symbol.comma then return some (← item) else return none
  return first :: others

/-- Items with commas between them up to a closing symbol, which a comma may precede. -/
def commaClosed (close : Symbol) (item : Parse α) : Parse (List α) := do
  let items ←
    if ← isAt close then pure []
    else do
      let first ← item
      let others ← collect do
        if ← accept Symbol.comma then
          if ← isAt close then return none else return some (← item)
        else return none
      pure (first :: others)
  expectSymbol close
  return items

/-- Items that end like statements, up to a closing symbol. -/
def statementsClosed (close : Symbol) (item : Parse α) : Parse (List α) :=
  collect do
    skipSemicolons
    if ← accept close then return none
    else do
      let x ← item
      statementEnd
      return some x

end Parse

end BoundedGo
