import BoundedGo.Parse.Declarations

/-!
Statements and blocks.
-/
namespace BoundedGo

namespace Parse

open Grammar

/-- The only expression of a list of one. -/
def single (fault : SyntaxFault) : List Expr → Parse Expr
  | [e] => return e
  | _ => fail fault

/-- The simple statement that begins with the given expressions. -/
def simpleFrom (g : Grammar) (lhs : List Expr) : Parse Stmt := do
  match ← kind with
  | .symbol .define => do skip; return .assign lhs .define (← exprs g)
  | .symbol .assign => do skip; return .assign lhs .assign (← exprs g)
  | .symbol .plusPlus => do skip; return .incDec (← single .incDecOperands lhs) true
  | .symbol .minusMinus => do skip; return .incDec (← single .incDecOperands lhs) false
  | .symbol .arrow => do
    skip
    let channel ← single .sendOperands lhs
    return .send channel (← expr g)
  | k =>
    match k, lhs with
    | .symbol .colon, [.ident _] => fail .label
    | _, _ =>
      match (match k with | .symbol s => BinaryOp.ofAssignment? s | _ => none) with
      | some op => do skip; return .assign lhs (.compound op) [← expr g]
      | none =>
        match lhs with
        | [e] => return .expr e
        | _ => refuse .assignment

def simple (g : Grammar) : Parse Stmt := do
  simpleFrom g (← exprs g)

/-- What stands between `for` and the body. -/
inductive Header
  | loop (init : Option Stmt) (condition : Option Expr) (post : Option Stmt)
  | range (key value : Option Expr) (define : Bool) (subject : Expr)

def Header.statement (body : List Stmt) : Header → Stmt
  | .loop init condition post => .for_ init condition post body
  | .range key value define subject => .range key value define subject body

/-- A statement in the place of a condition has to be an expression. -/
def condition : Stmt → Parse Expr
  | .expr e => return e
  | _ => fail .condition

/-- The variables of a range, of which there are at most two, and what it runs over. -/
def rangeOver (g : Grammar) (define : Bool) : List Expr → Parse Header
  | _ :: _ :: _ :: _ => fail .rangeVariables
  | vars => do return .range vars[0]? vars[1]? define (← expr g)

/-- The rest of a header behind the semicolon after its first statement. -/
def loopClauses (g : Grammar) (init : Option Stmt) : Parse Header := do
  let condition ← if ← isAt Symbol.semicolon then pure none else some <$> expr g
  expectSymbol .semicolon
  let post ← if ← isAt Symbol.braceOpen then pure none else some <$> simple g
  return .loop init condition post

/-- A header that begins with a statement. -/
def statementHeader (g : Grammar) : Parse Header := do
  let lhs ← exprs g
  let op ← kind
  if (op = .symbol .define || op = .symbol .assign) && (← kindAt 1) = .keyword .range then do
    skip
    skip
    rangeOver g (op = .symbol .define) lhs
  else do
    let first ← simpleFrom g lhs
    if ← accept Symbol.semicolon then loopClauses g (some first)
    else return .loop none (some (← condition first)) none

def header (g : Grammar) : Parse Header := do
  if ← accept Keyword.range then return .range none none false (← expr g)
  else if ← accept Symbol.semicolon then loopClauses g none
  else statementHeader g

/-- A loop behind `for`. -/
def forStatement (g : Grammar) : Parse Stmt := do
  if ← isAt Symbol.braceOpen then return .for_ none none none (← g.block)
  else do
    let h ← withLiterals false (header g)
    return h.statement (← g.block)

/-- The condition of an `if` with the statement that may precede it. -/
def ifHeader (g : Grammar) : Parse (Option Stmt × Expr) := do
  let first ← simple g
  if ← accept Symbol.semicolon then return (some first, ← expr g)
  else return (none, ← condition first)

def elseBody (g : Grammar) : Parse Stmt := do
  match ← kind with
  | .keyword .if_ => g.statement
  | .symbol .braceOpen => return .block (← g.block)
  | _ => refuse .elseBody

/-- A conditional behind `if`. -/
def ifStatement (g : Grammar) : Parse Stmt := do
  let (init, condition) ← withLiterals false (ifHeader g)
  let body ← g.block
  let orElse ← if ← accept Keyword.else_ then some <$> elseBody g else pure none
  return .if_ init condition body orElse

/-- Whether a case of a `select` ends in front of a token. -/
def endsClause : TokenKind → Bool
  | .keyword w => w = .case_ || w = .default
  | .symbol s => s = .braceClose
  | .eof => true
  | _ => false

/-- The next statement of a case, if there is one. The case behind it can follow directly. -/
def clauseStep (g : Grammar) : Parse (Option Stmt) := do
  skipSemicolons
  if endsClause (← kind) then return none
  else do
    let stmt ← g.statement
    match ← kind with
    | .keyword .case_ | .keyword .default => return some stmt
    | _ => do
      statementEnd
      return some stmt

def clauseBody (g : Grammar) (comm : Option Stmt) : Parse (Option CommClause) := do
  expectSymbol .colon
  return some ⟨comm, ← collect (clauseStep g)⟩

/-- The next case of a `select`, or nothing at its closing brace. -/
def commClause (g : Grammar) : Parse (Option CommClause) := do
  skipSemicolons
  match ← kind with
  | .symbol .braceClose => do skip; return none
  | .keyword .case_ => do
    skip
    let comm ← simple g
    clauseBody g (some comm)
  | .keyword .default => do skip; clauseBody g none
  | _ => refuse .commClause

/-- A `select` behind its keyword. -/
def selectStatement (g : Grammar) : Parse Stmt := do
  expectSymbol .braceOpen
  return .select (← withLiterals true (collect (commClause g)))

def returnStatement (g : Grammar) : Parse Stmt := do
  let k ← kind
  if k = .symbol .semicolon ∨ k = .symbol .braceClose then return .return_ []
  else return .return_ (← exprs g)

/-- A jump, whose label is dropped. -/
def jumpStatement (kind : Jump) : Parse Stmt := do
  let _ ← accept .ident
  return .jump kind

def block (g : Grammar) : Parse (List Stmt) := do
  expectSymbol .braceOpen
  withLiterals true (statementsClosed .braceClose do
    if ← isAt .eof then refuse (.symbol .braceClose) else g.statement)

/-- The statements that the tree has no form for. -/
def isUnsupported : Keyword → Bool
  | .switch | .defer | .goto | .fallthrough | .case_ | .default => true
  | _ => false

def statement (g : Grammar) : Parse Stmt := do
  let t ← current
  match t.kind with
  | .keyword .return_ => do skip; returnStatement g
  | .keyword .if_ => do skip; ifStatement g
  | .keyword .for_ => do skip; forStatement g
  | .keyword .select => do skip; selectStatement g
  | .keyword .go => do skip; return .go (← expr g)
  | .keyword .break_ => do skip; jumpStatement .break_
  | .keyword .continue_ => do skip; jumpStatement .continue_
  | .symbol .braceOpen => return .block (← block g)
  | .symbol .semicolon => return .empty
  | .keyword w =>
    if isLocalDecl (.keyword w) then return .declare (← localDecl g)
    else if isUnsupported w then fail (.statement t.lexeme)
    else simple g
  | _ => simple g

end Parse

namespace Grammar

/-- The grammar whose productions use the productions of `g` for what is nested in them. -/
def above (g : Grammar) : Grammar where
  binary := Parse.binary g
  unary := Parse.unary g
  element := Parse.element g
  type := Parse.typeExpr g
  block := Parse.block g
  statement := Parse.statement g

/-- The grammar that reads nested constructs up to the given depth. -/
def ofDepth : Nat → Grammar
  | 0 => bottom
  | n + 1 => (ofDepth n).above

end Grammar

end BoundedGo
