import BoundedGo.Parse.Statements
import BoundedGo.Token.Lexer

/-!
Whole source files, and reading from text. Every construct goes on by a token before it reads
what is nested in it, so the tokens ahead bound the depth to which the grammar has to nest.
-/
namespace BoundedGo

namespace Parse

open Grammar

/-- The path of an import without the quotes around it. -/
def unquoted (lexeme : String) : String :=
  let isQuote (c : Char) : Bool := c = '\x22' || c = '\x60'
  String.ofList ((lexeme.toList.dropWhile isQuote).reverse.dropWhile isQuote).reverse

def importAlias : Parse (Option String) := do
  let t ← current
  match t.kind with
  | .ident => do skip; return some t.lexeme
  | .symbol .dot => do skip; return some "."
  | _ => return none

def importSpec : Parse Import := do
  let alias? ← importAlias
  let t ← current
  if t.kind = .literal .string then
    skip
    return ⟨alias?, unquoted t.lexeme⟩
  else refuse .importPath

/-- The next import declaration, if there is one. -/
def importStep : Parse (Option (List Import)) := do
  if ← accept Keyword.import_ then
    let imports ← specs importSpec
    statementEnd
    skipSemicolons
    return some imports
  else return none

def receiver (g : Grammar) : Parse (Option Field) := do
  if ← isAt Symbol.parenOpen then
    match ← params g with
    | [field] => return some field
    | _ => fail .receiverCount
  else return none

/-- A function behind `func`. -/
def functionDecl (g : Grammar) : Parse FunctionDecl := do
  let receiver ← receiver g
  let name ← identifier
  if ← isAt Symbol.bracketOpen then fail .genericFunction
  else do
    let type ← signature g
    let body ← if ← isAt Symbol.braceOpen then some <$> g.block else pure none
    return ⟨name, receiver, type, body⟩

def topDecl (g : Grammar) : Parse Decl := do
  if ← accept Keyword.func then return .function (← functionDecl g) else localDecl g

/-- The next declaration of a file, if there is one. -/
def declStep (g : Grammar) : Parse (Option Decl) := do
  skipSemicolons
  if ← isAt .eof then return none
  else do
    let decl ← topDecl g
    statementEnd
    return some decl

def packageClause : Parse String := do
  skipSemicolons
  expectKeyword .package
  let name ← identifier
  statementEnd
  return name

def fileOver (g : Grammar) : Parse File := do
  let package ← packageClause
  skipSemicolons
  let imports ← collect importStep
  return ⟨package, imports.flatten, ← collect (declStep g)⟩

/-- Runs a production with a grammar that is deep enough for all tokens ahead. -/
def nested {α : Type} (production : Grammar → Parse α) : Parse α := fun s =>
  production (ofDepth (s.rest.length + 1)) s

def expression : Parse Expr := nested expr

def typeExpression : Parse TypeExpr := nested typeExpr

def blockStatement : Parse (List Stmt) := nested block

def file : Parse File := nested fileOver

/-- An expression with nothing but semicolons behind it. -/
def wholeExpression : Parse Expr := do
  let e ← expression
  skipSemicolons
  if ← isAt .eof then return e else refuse .expressionEnd

/-- The result of a parser, without the stream behind it. -/
def run {α : Type} (p : Parse α) (s : Stream) : Except SyntaxError α :=
  match p s with
  | .ok a _ => .ok a
  | .error e _ => .error e

/-- Reads a source text with a parser. -/
def onText {α : Type} (p : Parse α) (source : String) : Except SourceError α :=
  match tokenize source with
  | .error e => .error (.lexical e)
  | .ok tokens =>
    match p.run (Stream.ofTokens tokens) with
    | .error e => .error (.syntactic e)
    | .ok a => .ok a

end Parse

/-- Reads a source file. -/
def parseFile (source : String) : Except SourceError File :=
  Parse.file.onText source

/-- Reads a source text that is a single expression. -/
def parseExpr (source : String) : Except SourceError Expr :=
  Parse.wholeExpression.onText source

/-- Reads the type that a source text begins with. -/
def parseType (source : String) : Except SourceError TypeExpr :=
  Parse.typeExpression.onText source

end BoundedGo
