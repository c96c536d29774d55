import BoundedGo.Text.Outline
import BoundedGo.Tree

/-!
Syntax trees as outlines, in which every form shows its tag and its parts.
-/
namespace BoundedGo

open Text (Outline)

namespace UnaryOp

def tag : UnaryOp → String
  | .not => "Not" | .neg => "Neg" | .pos => "Pos" | .complement => "BitNot" | .deref => "Deref"
  | .address => "Addr" | .receive => "Recv"

end UnaryOp

namespace BinaryOp

def tag : BinaryOp → String
  | .add => "Add" | .sub => "Sub" | .mul => "Mul" | .div => "Quo" | .rem => "Rem" | .and => "And"
  | .or => "Or" | .xor => "Xor" | .shl => "Shl" | .shr => "Shr" | .andNot => "AndNot"
  | .both => "LAnd" | .either => "LOr" | .eq => "Eql" | .ne => "Neq" | .lt => "Lss"
  | .le => "Leq" | .gt => "Gtr" | .ge => "Geq"

end BinaryOp

def LiteralKind.tag : LiteralKind → String
  | .int => "Int" | .float => "Float" | .imag => "Imag" | .char => "Char" | .string => "String"

def ChannelDirection.tag : ChannelDirection → String
  | .both => "Both" | .send => "Send" | .receive => "Recv"

def Jump.tag : Jump → String
  | .break_ => "Break" | .continue_ => "Continue"

def AssignOp.outline : AssignOp → Outline
  | .define => .atom "Define"
  | .assign => .atom "Assign"
  | .compound op => .tuple "Compound" [.atom op.tag]

def Literal.outline (l : Literal) : Outline :=
  .record "Lit" [("kind", .atom l.kind.tag), ("raw", .string l.raw)]

namespace Outline

/-- A block and its statements. -/
def block (stmts : List Outline) : Outline :=
  .record "Block" [("stmts", .list stmts)]

def names (ns : List String) : Outline :=
  .list (ns.map Outline.string)

end Outline

mutual

def Expr.outline : Expr → Outline
  | .ident name => .tuple "Ident" [.string name]
  | .literal lit => .tuple "Lit" [lit.outline]
  | .paren inner => .tuple "Paren" [inner.outline]
  | .unary op operand => .record "Unary" [("op", .atom op.tag), ("operand", operand.outline)]
  | .binary op lhs rhs =>
    .record "Binary" [("op", .atom op.tag), ("lhs", lhs.outline), ("rhs", rhs.outline)]
  | .call function arguments =>
    .record "Call" [("func", function.outline), ("args", .list (Expr.outlines arguments))]
  | .selector base field => .record "Selector" [("base", base.outline), ("field", .string field)]
  | .index base index => .record "Index" [("base", base.outline), ("index", index.outline)]
  | .composite type elements =>
    .record "Composite"
      [("ty", .option (match type with
        | some type => some type.outline
        | none => none)),
       ("elts", .list (Expr.outlines elements))]
  | .keyValue key value => .record "KeyValue" [("key", key.outline), ("value", value.outline)]
  | .functionLiteral type body =>
    .record "FuncLit" [("ty", type.outline), ("body", Outline.block (Stmt.outlines body))]
  | .type type => .tuple "Type" [type.outline]

def Expr.outlines : List Expr → List Outline
  | [] => []
  | e :: es => e.outline :: Expr.outlines es

def TypeExpr.outline : TypeExpr → Outline
  | .named name => .tuple "Named" [.string name]
  | .qualified package name =>
    .record "Qualified" [("package", .string package), ("name", .string name)]
  | .array length element =>
    .record "Array" [("len", length.outline), ("elem", element.outline)]
  | .slice element => .tuple "Slice" [element.outline]
  | .struct fields => .tuple "Struct" [.list (Field.outlines fields)]
  | .map key value => .record "Map" [("key", key.outline), ("value", value.outline)]
  | .channel direction element =>
    .record "Chan" [("dir", .atom direction.tag), ("elem", element.outline)]
  | .interface elements => .tuple "Interface" [.list (Field.outlines elements)]
  | .function type => .tuple "Func" [type.outline]
  | .pointer target => .tuple "Pointer" [target.outline]

def FunctionType.outline : FunctionType → Outline
  | ⟨params, results⟩ =>
    .record "FuncType" [("params", .list (Field.outlines params)),
      ("results", .list (Field.outlines results))]

def Field.outline : Field → Outline
  | ⟨names, type⟩ => .record "Field" [("names", Outline.names names), ("ty", type.outline)]

def Field.outlines : List Field → List Outline
  | [] => []
  | f :: fs => f.outline :: Field.outlines fs

def Stmt.outline : Stmt → Outline
  | .declare decl => .tuple "Decl" [decl.outline]
  | .assign lhs op rhs =>
    .record "Assign" [("lhs", .list (Expr.outlines lhs)), ("op", op.outline),
      ("rhs", .list (Expr.outlines rhs))]
  | .incDec target increment =>
    .record "IncDec" [("target", target.outline), ("inc", .bool increment)]
  | .expr value => .tuple "Expr" [value.outline]
  | .return_ values => .tuple "Return" [.list (Expr.outlines values)]
  | .if_ init condition body orElse =>
    .record "If"
      [("init", .option (match init with
        | some init => some init.outline
        | none => none)),
       ("cond", condition.outline), ("then", Outline.block (Stmt.outlines body)),
       ("els", .option (match orElse with
        | some orElse => some orElse.outline
        | none => none))]
  | .for_ init condition post body =>
    .record "For"
      [("init", .option (match init with
        | some init => some init.outline
        | none => none)),
       ("cond", .option (match condition with
        | some condition => some condition.outline
        | none => none)),
       ("post", .option (match post with
        | some post => some post.outline
        | none => none)),
       ("body", Outline.block (Stmt.outlines body))]
  | .range key value define subject body =>
    .record "Range"
      [("key", .option (match key with
        | some key => some key.outline
        | none => none)),
       ("value", .option (match value with
        | some value => some value.outline
        | none => none)),
       ("define", .bool define), ("iter", subject.outline),
       ("body", Outline.block (Stmt.outlines body))]
  | .go call => .tuple "Go" [call.outline]
  | .send channel value => .record "Send" [("chan", channel.outline), ("value", value.outline)]
  | .select clauses => .tuple "Select" [.list (CommClause.outlines clauses)]
  | .block body => .tuple "Block" [Outline.block (Stmt.outlines body)]
  | .jump kind => .tuple "Branch" [.atom kind.tag]
  | .empty => .atom "Empty"

def Stmt.outlines : List Stmt → List Outline
  | [] => []
  | s :: ss => s.outline :: Stmt.outlines ss

def CommClause.outline : CommClause → Outline
  | ⟨comm, body⟩ =>
    .record "CommClause"
      [("comm", .option (match comm with
        | some comm => some comm.outline
        | none => none)),
       ("body", .list (Stmt.outlines body))]

def CommClause.outlines : List CommClause → List Outline
  | [] => []
  | c :: cs => c.outline :: CommClause.outlines cs

def Decl.outline : Decl → Outline
  | .function decl => .tuple "Func" [decl.outline]
  | .const specs => .tuple "Const" [.list (ValueSpec.outlines specs)]
  | .var specs => .tuple "Var" [.list (ValueSpec.outlines specs)]
  | .type specs => .tuple "Type" [.list (TypeSpec.outlines specs)]

def FunctionDecl.outline : FunctionDecl → Outline
  | ⟨name, receiver, type, body⟩ =>
    .record "FuncDecl"
      [("name", .string name),
       ("recv", .option (match receiver with
        | some receiver => some receiver.outline
        | none => none)),
       ("ty", type.outline),
       ("body", .option (match body with
        | some body => some (Outline.block (Stmt.outlines body))
        | none => none))]

def ValueSpec.outline : ValueSpec → Outline
  | ⟨names, type, values⟩ =>
    .record "ValueSpec"
      [("names", Outline.names names),
       ("ty", .option (match type with
        | some type => some type.outline
        | none => none)),
       ("values", .list (Expr.outlines values))]

def ValueSpec.outlines : List ValueSpec → List Outline
  | [] => []
  | s :: ss => s.outline :: ValueSpec.outlines ss

def TypeSpec.outline : TypeSpec → Outline
  | ⟨name, isAlias, type⟩ =>
    .record "TypeSpec" [("name", .string name), ("alias", .bool isAlias), ("ty", type.outline)]

def TypeSpec.outlines : List TypeSpec → List Outline
  | [] => []
  | s :: ss => s.outline :: TypeSpec.outlines ss

end

def Import.outline (i : Import) : Outline :=
  .record "Import" [("alias", .option (i.alias?.map .string)), ("path", .string i.path)]

def File.outline (file : File) : Outline :=
  .record "File"
    [("package", .string file.package), ("imports", .list (file.imports.map Import.outline)),
     ("decls", .list (file.decls.map Decl.outline))]

end BoundedGo
