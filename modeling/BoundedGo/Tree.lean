import BoundedGo.Operator
import BoundedGo.Text.Numeral

/-!
The syntax trees of Go programs. They also hold what the bounded fragment leaves out, such as
loops, channels and slices, so that a program can be read in full before it is refused.
Literals keep the text they were written with.
-/
namespace BoundedGo

structure Literal where
  kind : LiteralKind
  raw : String
  deriving DecidableEq, Repr

namespace Literal

/-- The base and the digits of an integer's text, which has no underscores and no capitals. -/
def baseAndDigits : List Char → Nat × List Char
  | '0' :: 'x' :: cs => (16, cs)
  | '0' :: 'o' :: cs => (8, cs)
  | '0' :: 'b' :: cs => (2, cs)
  | '0' :: c :: cs => (8, c :: cs)
  | cs => (10, cs)

/-- What numbers of 64 bits are below. -/
def wordBound : Nat := 18446744073709551616

/-- The value of an integer literal that fits an unsigned word of 64 bits. -/
def value? (l : Literal) : Option Nat :=
  match l.kind with
  | .int =>
    let (base, digits) := baseAndDigits ((l.raw.toList.filter (· != '_')).map Char.toLower)
    Text.readBelow? wordBound base digits
  | _ => none

end Literal

/-- Whether a channel can be sent to, received from, or both. -/
inductive ChannelDirection
  | both | send | receive
  deriving DecidableEq, Repr

inductive AssignOp
  | define
  | assign
  | compound (op : BinaryOp)
  deriving DecidableEq, Repr

/-- A jump out of a loop or to its next round. -/
inductive Jump
  | break_ | continue_
  deriving DecidableEq, Repr

mutual

inductive Expr
  | ident (name : String)
  | literal (lit : Literal)
  | paren (inner : Expr)
  | unary (op : UnaryOp) (operand : Expr)
  | binary (op : BinaryOp) (lhs rhs : Expr)
  | call (function : Expr) (arguments : List Expr)
  | selector (base : Expr) (field : String)
  | index (base index : Expr)
  /-- A literal such as `T{a, b}`; inside of another literal the type may be missing. -/
  | composite (type : Option TypeExpr) (elements : List Expr)
  | keyValue (key value : Expr)
  | functionLiteral (type : FunctionType) (body : List Stmt)
  /-- A type in the place of an expression, such as the argument of `make`. -/
  | type (type : TypeExpr)

inductive TypeExpr
  | named (name : String)
  | qualified (package name : String)
  | array (length : Expr) (element : TypeExpr)
  | slice (element : TypeExpr)
  | struct (fields : List Field)
  | map (key value : TypeExpr)
  | channel (direction : ChannelDirection) (element : TypeExpr)
  | interface (elements : List Field)
  | function (type : FunctionType)
  | pointer (target : TypeExpr)

structure FunctionType where
  params : List Field
  results : List Field

/-- Names that share a type. Without names it is an embedded field, a parameter or a result. -/
structure Field where
  names : List String
  type : TypeExpr

inductive Stmt
  | declare (decl : Decl)
  | assign (lhs : List Expr) (op : AssignOp) (rhs : List Expr)
  | incDec (target : Expr) (increment : Bool)
  | expr (value : Expr)
  | return_ (values : List Expr)
  | if_ (init : Option Stmt) (condition : Expr) (body : List Stmt) (orElse : Option Stmt)
  | for_ (init : Option Stmt) (condition : Option Expr) (post : Option Stmt) (body : List Stmt)
  | range (key value : Option Expr) (define : Bool) (subject : Expr) (body : List Stmt)
  | go (call : Expr)
  | send (channel value : Expr)
  | select (clauses : List CommClause)
  | block (body : List Stmt)
  | jump (kind : Jump)
  | empty

/-- A case of a `select`; the default case communicates nothing. -/
structure CommClause where
  comm : Option Stmt
  body : List Stmt

inductive Decl
  | function (decl : FunctionDecl)
  | const (specs : List ValueSpec)
  | var (specs : List ValueSpec)
  | type (specs : List TypeSpec)

structure FunctionDecl where
  name : String
  receiver : Option Field
  type : FunctionType
  /-- A function that is defined elsewhere has no body. -/
  body : Option (List Stmt)

/-- Names with a type, with values, or with both. -/
structure ValueSpec where
  names : List String
  type : Option TypeExpr
  values : List Expr

structure TypeSpec where
  name : String
  isAlias : Bool
  type : TypeExpr

end

structure Import where
  alias? : Option String
  path : String
  deriving DecidableEq, Repr

structure File where
  package : String
  imports : List Import
  decls : List Decl

namespace Expr

def name? : Expr → Option String
  | .ident name => some name
  | _ => none

end Expr

namespace TypeExpr

/-- What a type is, in words. -/
def shape : TypeExpr → String
  | .named _ => "identifier"
  | .qualified .. => "qualified identifier"
  | .array .. => "array type"
  | .slice _ => "slice type"
  | .struct _ => "struct type"
  | .map .. => "map type"
  | .channel .. => "channel type"
  | .interface _ => "interface type"
  | .function _ => "function type"
  | .pointer _ => "pointer type"

end TypeExpr

namespace Decl

private def labelled (word : String) : Option String → String
  | some name => word ++ " " ++ name
  | none => word

/-- The word of a declaration and the first name that it declares. -/
def label : Decl → String
  | .function f => "func " ++ f.name
  | .const specs => labelled "const" (specs.flatMap (fun s => s.names.take 1)).head?
  | .var specs => labelled "var" (specs.flatMap (fun s => s.names.take 1)).head?
  | .type specs => labelled "type" (specs.map (·.name)).head?

end Decl

namespace File

/-- The functions of a file, in the order of the source. -/
def functions (file : File) : List FunctionDecl :=
  file.decls.filterMap fun
    | .function f => some f
    | _ => none

/-- The first function of the given name. -/
def function? (file : File) (name : String) : Option FunctionDecl :=
  file.functions.find? (fun f => f.name = name)

end File

end BoundedGo
