import BoundedGo.Parse.Types

/-!
Expressions, by precedence climbing: an operand with what is attached to it, operators in front,
operators between.
-/
namespace BoundedGo

namespace Parse

open Grammar

/-- The type that an operand names if a composite literal follows, and whether it is just a name.
Names are no types of literals in the header of a control statement. -/
def literalType : Expr → Option (TypeExpr × Bool)
  | .ident name => some (.named name, true)
  | .selector (.ident package) name => some (.qualified package name, true)
  | .type (.array length element) => some (.array length element, false)
  | .type (.slice element) => some (.slice element, false)
  | .type (.map key value) => some (.map key value, false)
  | .type (.struct fields) => some (.struct fields, false)
  | _ => none

/-- An element with the key it may have. -/
def keyedElement (g : Grammar) : Parse Expr := do
  let first ← g.element
  if ← accept Symbol.colon then return .keyValue first (← g.element) else return first

def composite (g : Grammar) (type : Option TypeExpr) : Parse Expr := do
  expectSymbol .braceOpen
  return .composite type (← withLiterals true (commaClosed .braceClose (keyedElement g)))

def argument (g : Grammar) : Parse Expr := do
  let value ← g.binary 1
  let _ ← accept Symbol.ellipsis
  return value

/-- A selected field, behind the point. -/
def selector (base : Expr) : Parse Expr := do
  let t ← current
  match t.kind with
  | .ident => do
    skip
    return .selector base t.lexeme
  | .symbol .parenOpen => fail .typeAssertion
  | _ => refuse .selector

/-- An index, behind its opening bracket. -/
def index (g : Grammar) (base : Expr) : Parse Expr := do
  let index ← withLiterals true (g.binary 1)
  if ← isAt Symbol.colon then fail .slicing
  else do
    expectSymbol .bracketClose
    return .index base index

/-- The arguments of a call, behind the opening parenthesis. -/
def call (g : Grammar) (function : Expr) : Parse Expr := do
  return .call function (← withLiterals true (commaClosed .parenClose (argument g)))

/-- The operand with the next part that is attached to it, if there is one. -/
def suffix (g : Grammar) (x : Expr) : Parse (Option Expr) := do
  match ← kind with
  | .symbol .dot => do skip; return some (← selector x)
  | .symbol .bracketOpen => do skip; return some (← index g x)
  | .symbol .parenOpen => do skip; return some (← call g x)
  | .symbol .braceOpen =>
    match literalType x with
    | some (type, isName) => do
      if isName && !(← literalsAllowed) then return none
      else return some (← composite g (some type))
    | none => return none
  | _ => return none

/-- A function literal, or a function type in the place of an expression, behind `func`. -/
def functionOperand (g : Grammar) : Parse Expr := do
  let type ← signature g
  if ← isAt Symbol.braceOpen then return .functionLiteral type (← g.block)
  else return .type (.function type)

def parenOperand (g : Grammar) : Parse Expr := do
  let inner ← withLiterals true (g.binary 1)
  expectSymbol .parenClose
  return .paren inner

/-- The tokens that begin a type in the place of an operand. -/
def startsTypeOperand : TokenKind → Bool
  | .keyword w => w = .map || w = .chan || w = .struct || w = .interface
  | .symbol s => s = .bracketOpen || s = .arrow
  | _ => false

def operand (g : Grammar) : Parse Expr := do
  let t ← current
  match t.kind with
  | .ident => do skip; return .ident t.lexeme
  | .literal k => do skip; return .literal ⟨k, t.lexeme⟩
  | .symbol .parenOpen => do skip; parenOperand g
  | .keyword .func => do skip; functionOperand g
  | k => if startsTypeOperand k then return .type (← typeExpr g) else refuse .expression

def primary (g : Grammar) : Parse Expr := do
  iterate (suffix g) (← operand g)

/-- The operator in front of an operand. An arrow before `chan` belongs to a type. -/
def unaryOp? : Parse (Option UnaryOp) := do
  match ← kind with
  | .symbol .arrow =>
    if (← kindAt 1) = .keyword .chan then return none else return some .receive
  | .symbol s => return UnaryOp.ofSymbol? s
  | _ => return none

def unary (g : Grammar) : Parse Expr := do
  match ← unaryOp? with
  | some op => do skip; return .unary op (← g.unary)
  | none => primary g

def binaryOp? : Parse (Option BinaryOp) := do
  match ← kind with
  | .symbol s => return BinaryOp.ofSymbol? s
  | _ => return none

/-- The left operand with the next operator and its right operand, if the operator binds at least
as strongly as asked for. -/
def binaryStep (g : Grammar) (least : Nat) (lhs : Expr) : Parse (Option Expr) := do
  match ← binaryOp? with
  | some op =>
    if op.precedence < least then return none
    else do
      skip
      return some (.binary op lhs (← g.binary (op.precedence + 1)))
  | none => return none

def binary (g : Grammar) (least : Nat) : Parse Expr := do
  iterate (binaryStep g least) (← unary g)

def expr (g : Grammar) : Parse Expr := binary g 1

def exprs (g : Grammar) : Parse (List Expr) := commaSeparated (expr g)

/-- An element of a composite literal, whose type is left out if it is a literal itself. -/
def element (g : Grammar) : Parse Expr := do
  if ← isAt Symbol.braceOpen then composite g none else expr g

end Parse

end BoundedGo
