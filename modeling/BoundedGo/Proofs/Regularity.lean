import BoundedGo.Proofs.Spellings

/-!
Trees as a parser makes them. Names and literals are spelled as tokens were, and more is known of
the shape of a tree than its type says: keys and untyped literals stand in composite literals only,
specifications have names, parameters have names together or not at all, the statements of a header
are simple, and so on. There is one rule for every way in which a node is read.
-/
namespace BoundedGo

namespace Stmt

/-- The statements that may stand in a header. -/
def isSimple : Stmt → Bool
  | .assign .. | .incDec .. | .send .. | .expr _ => true
  | _ => false

def isConditional : Stmt → Bool
  | .if_ .. => true
  | _ => false

def isBlock : Stmt → Bool
  | .block _ => true
  | _ => false

end Stmt

/-- Types that can stand in the place of an expression. The others look like expressions. -/
def TypeExpr.isWrittenOut : TypeExpr → Bool
  | .named _ | .qualified .. | .pointer _ => false
  | _ => true

def Decl.isFunction : Decl → Bool
  | .function _ => true
  | _ => false

namespace Field

/-- Either all fields have names or none has. -/
def Grouped (fs : List Field) : Prop :=
  (∀ f ∈ fs, f.names ≠ []) ∨ ∀ f ∈ fs, f.names = []

/-- A method with its type, or an embedded interface. -/
def IsInterfaceElement (f : Field) : Prop :=
  f.names = [] ∨ ∃ name signature, f = ⟨[name], .function signature⟩

end Field

section

variable (W : Piece → Prop)

mutual

/-- An expression that is a value of its own. -/
inductive Expr.Regular : Expr → Prop
  | ident {name : String} (h : W (.ident, name)) : Expr.Regular (.ident name)
  | literal {l : Literal} (h : W (.literal l.kind, l.raw)) : Expr.Regular (.literal l)
  | paren {inner : Expr} (h : Expr.Regular inner) : Expr.Regular (.paren inner)
  | unary {op : UnaryOp} {operand : Expr} (h : Expr.Regular operand) :
    Expr.Regular (.unary op operand)
  | binary {op : BinaryOp} {lhs rhs : Expr} (hl : Expr.Regular lhs) (hr : Expr.Regular rhs) :
    Expr.Regular (.binary op lhs rhs)
  | call {callee : Expr} {arguments : List Expr} (hcallee : Expr.Regular callee)
    (harguments : ∀ e ∈ arguments, Expr.Regular e) : Expr.Regular (.call callee arguments)
  | selector {base : Expr} {field : String} (hbase : Expr.Regular base)
    (hfield : W (.ident, field)) : Expr.Regular (.selector base field)
  | index {base place : Expr} (hbase : Expr.Regular base) (hplace : Expr.Regular place) :
    Expr.Regular (.index base place)
  | composite {type : TypeExpr} {elements : List Expr} (htype : TypeExpr.Regular type)
    (helements : ∀ e ∈ elements, Expr.RegularElement e) :
    Expr.Regular (.composite (some type) elements)
  | functionLiteral {signature : FunctionType} {body : List Stmt}
    (hsignature : FunctionType.Regular signature) (hbody : ∀ s ∈ body, Stmt.Regular s) :
    Expr.Regular (.functionLiteral signature body)
  | type {operand : TypeExpr} (hform : operand.isWrittenOut) (h : TypeExpr.Regular operand) :
    Expr.Regular (.type operand)

/-- The key or the value of an element: its type may be left out if it is a literal. -/
inductive Expr.RegularPart : Expr → Prop
  | value {e : Expr} (h : Expr.Regular e) : Expr.RegularPart e
  | untyped {elements : List Expr} (h : ∀ e ∈ elements, Expr.RegularElement e) :
    Expr.RegularPart (.composite none elements)

inductive Expr.RegularElement : Expr → Prop
  | part {e : Expr} (h : Expr.RegularPart e) : Expr.RegularElement e
  | keyValue {key value : Expr} (hkey : Expr.RegularPart key) (hvalue : Expr.RegularPart value) :
    Expr.RegularElement (.keyValue key value)

inductive TypeExpr.Regular : TypeExpr → Prop
  | named {name : String} (h : W (.ident, name)) : TypeExpr.Regular (.named name)
  | qualified {package name : String} (hpackage : W (.ident, package)) (hname : W (.ident, name)) :
    TypeExpr.Regular (.qualified package name)
  | array {length : Expr} {element : TypeExpr} (hlength : Expr.Regular length)
    (helement : TypeExpr.Regular element) : TypeExpr.Regular (.array length element)
  | slice {element : TypeExpr} (h : TypeExpr.Regular element) : TypeExpr.Regular (.slice element)
  | struct {fields : List Field} (h : ∀ f ∈ fields, Field.Regular f) :
    TypeExpr.Regular (.struct fields)
  | map {key value : TypeExpr} (hkey : TypeExpr.Regular key) (hvalue : TypeExpr.Regular value) :
    TypeExpr.Regular (.map key value)
  | channel {direction : ChannelDirection} {element : TypeExpr} (h : TypeExpr.Regular element) :
    TypeExpr.Regular (.channel direction element)
  | interface {elements : List Field} (h : ∀ f ∈ elements, Field.Regular f)
    (hshape : ∀ f ∈ elements, f.IsInterfaceElement) : TypeExpr.Regular (.interface elements)
  | function {signature : FunctionType} (h : FunctionType.Regular signature) :
    TypeExpr.Regular (.function signature)
  | pointer {target : TypeExpr} (h : TypeExpr.Regular target) : TypeExpr.Regular (.pointer target)

inductive FunctionType.Regular : FunctionType → Prop
  | mk {t : FunctionType} (hparams : ∀ f ∈ t.params, Field.Regular f)
    (hresults : ∀ f ∈ t.results, Field.Regular f) (hparamNames : Field.Grouped t.params)
    (hresultNames : Field.Grouped t.results) : FunctionType.Regular t

inductive Field.Regular : Field → Prop
  | mk {f : Field} (hnames : ∀ name ∈ f.names, W (.ident, name))
    (htype : TypeExpr.Regular f.type) : Field.Regular f

inductive Stmt.Regular : Stmt → Prop
  | declare {decl : Decl} (h : Decl.Regular decl) (hform : decl.isFunction = false) :
    Stmt.Regular (.declare decl)
  | assign {lhs rhs : List Expr} {op : AssignOp} (hlhs : ∀ e ∈ lhs, Expr.Regular e)
    (hrhs : ∀ e ∈ rhs, Expr.Regular e) (hlne : lhs ≠ []) (hrne : rhs ≠ [])
    (hcompound : ∀ compound, op = .compound compound → rhs.length = 1) :
    Stmt.Regular (.assign lhs op rhs)
  | incDec {target : Expr} {increment : Bool} (h : Expr.Regular target) :
    Stmt.Regular (.incDec target increment)
  | expr {value : Expr} (h : Expr.Regular value) : Stmt.Regular (.expr value)
  | return_ {values : List Expr} (h : ∀ e ∈ values, Expr.Regular e) : Stmt.Regular (.return_ values)
  | if_ {init orElse : Option Stmt} {condition : Expr} {body : List Stmt}
    (hinit : ∀ s ∈ init, Stmt.Regular s) (hsimple : ∀ s ∈ init, s.isSimple)
    (hcondition : Expr.Regular condition) (hbody : ∀ s ∈ body, Stmt.Regular s)
    (helse : ∀ s ∈ orElse, Stmt.Regular s) (hform : ∀ s ∈ orElse, s.isConditional ∨ s.isBlock) :
    Stmt.Regular (.if_ init condition body orElse)
  | for_ {init post : Option Stmt} {condition : Option Expr} {body : List Stmt}
    (hinit : ∀ s ∈ init, Stmt.Regular s) (hinitSimple : ∀ s ∈ init, s.isSimple)
    (hcondition : ∀ e ∈ condition, Expr.Regular e)
    (hpost : ∀ s ∈ post, Stmt.Regular s) (hpostSimple : ∀ s ∈ post, s.isSimple)
    (hbody : ∀ s ∈ body, Stmt.Regular s) : Stmt.Regular (.for_ init condition post body)
  | range {key value : Option Expr} {define : Bool} {subject : Expr} {body : List Stmt}
    (hkey : ∀ e ∈ key, Expr.Regular e) (hvalue : ∀ e ∈ value, Expr.Regular e)
    (hfirst : value.isSome → key.isSome) (hsubject : Expr.Regular subject)
    (hbody : ∀ s ∈ body, Stmt.Regular s) : Stmt.Regular (.range key value define subject body)
  | go {started : Expr} (h : Expr.Regular started) : Stmt.Regular (.go started)
  | send {channel value : Expr} (hchannel : Expr.Regular channel) (hvalue : Expr.Regular value) :
    Stmt.Regular (.send channel value)
  | select {clauses : List CommClause} (h : ∀ c ∈ clauses, CommClause.Regular c) :
    Stmt.Regular (.select clauses)
  | block {body : List Stmt} (h : ∀ s ∈ body, Stmt.Regular s) : Stmt.Regular (.block body)
  | jump (kind : Jump) : Stmt.Regular (.jump kind)

inductive CommClause.Regular : CommClause → Prop
  | mk {c : CommClause} (hcomm : ∀ s ∈ c.comm, Stmt.Regular s)
    (hsimple : ∀ s ∈ c.comm, s.isSimple) (hbody : ∀ s ∈ c.body, Stmt.Regular s) :
    CommClause.Regular c

inductive Decl.Regular : Decl → Prop
  | function {f : FunctionDecl} (h : FunctionDecl.Regular f) : Decl.Regular (.function f)
  | const {specs : List ValueSpec} (h : ∀ s ∈ specs, ValueSpec.Regular s) :
    Decl.Regular (.const specs)
  | var {specs : List ValueSpec} (h : ∀ s ∈ specs, ValueSpec.Regular s) : Decl.Regular (.var specs)
  | type {specs : List TypeSpec} (h : ∀ s ∈ specs, TypeSpec.Regular s) : Decl.Regular (.type specs)

inductive FunctionDecl.Regular : FunctionDecl → Prop
  | mk {f : FunctionDecl} (hname : W (.ident, f.name)) (hreceiver : ∀ r ∈ f.receiver, Field.Regular r)
    (htype : FunctionType.Regular f.type) (hbody : ∀ body ∈ f.body, ∀ s ∈ body, Stmt.Regular s) :
    FunctionDecl.Regular f

inductive ValueSpec.Regular : ValueSpec → Prop
  | mk {s : ValueSpec} (hne : s.names ≠ []) (hnames : ∀ name ∈ s.names, W (.ident, name))
    (htype : ∀ t ∈ s.type, TypeExpr.Regular t) (hvalues : ∀ e ∈ s.values, Expr.Regular e) :
    ValueSpec.Regular s

inductive TypeSpec.Regular : TypeSpec → Prop
  | mk {s : TypeSpec} (hname : W (.ident, s.name)) (htype : TypeExpr.Regular s.type) :
    TypeSpec.Regular s

end

end

end BoundedGo
