import BoundedGo.Tree

/-!
The constructs of Go that no bounded program may use: loops, goroutines, channels, interfaces,
maps and slices. Every occurrence is reported, in the order of the source, but nothing inside of
an occurrence is looked at.
-/
namespace BoundedGo

inductive Feature
  | loop | goroutine | channel | interface | map | slice
  deriving DecidableEq, Repr

def Feature.message : Feature → String
  | .loop => "loops are not supported in Simplicity"
  | .goroutine => "goroutines are not supported in Simplicity"
  | .channel => "channels are not supported in Simplicity"
  | .interface => "interfaces are not supported in Simplicity"
  | .map => "maps are not supported in Simplicity"
  | .slice => "slices are not supported, use fixed-size arrays"

mutual

def Expr.features : Expr → List Feature
  | .ident _ => []
  | .literal _ => []
  | .paren inner => inner.features
  | .unary _ operand => operand.features
  | .binary _ lhs rhs => lhs.features ++ rhs.features
  | .call function arguments => function.features ++ Expr.featuresOf arguments
  | .selector base _ => base.features
  | .index base index => base.features ++ index.features
  | .composite type elements =>
    (match type with
      | some type => type.features
      | none => []) ++ Expr.featuresOf elements
  | .keyValue key value => key.features ++ value.features
  | .functionLiteral type body => type.features ++ Stmt.featuresOf body
  | .type type => type.features

def Expr.featuresOf : List Expr → List Feature
  | [] => []
  | e :: es => e.features ++ Expr.featuresOf es

def TypeExpr.features : TypeExpr → List Feature
  | .named _ => []
  | .qualified _ _ => []
  | .array length element => length.features ++ element.features
  | .slice _ => [.slice]
  | .struct fields => Field.featuresOf fields
  | .map _ _ => [.map]
  | .channel _ _ => [.channel]
  | .interface _ => [.interface]
  | .function type => type.features
  | .pointer target => target.features

def FunctionType.features : FunctionType → List Feature
  | ⟨params, results⟩ => Field.featuresOf params ++ Field.featuresOf results

def Field.features : Field → List Feature
  | ⟨_, type⟩ => type.features

def Field.featuresOf : List Field → List Feature
  | [] => []
  | f :: fs => f.features ++ Field.featuresOf fs

def Stmt.features : Stmt → List Feature
  | .declare decl => decl.features
  | .assign lhs _ rhs => Expr.featuresOf lhs ++ Expr.featuresOf rhs
  | .incDec target _ => target.features
  | .expr value => value.features
  | .return_ values => Expr.featuresOf values
  | .if_ init condition body orElse =>
    (match init with
      | some init => init.features
      | none => []) ++ condition.features ++ Stmt.featuresOf body ++
    (match orElse with
      | some orElse => orElse.features
      | none => [])
  | .for_ _ _ _ _ => [.loop]
  | .range _ _ _ _ _ => [.loop]
  | .go _ => [.goroutine]
  | .send _ _ => [.channel]
  | .select _ => [.channel]
  | .block body => Stmt.featuresOf body
  | .jump _ => []
  | .empty => []

def Stmt.featuresOf : List Stmt → List Feature
  | [] => []
  | s :: ss => s.features ++ Stmt.featuresOf ss

def Decl.features : Decl → List Feature
  | .function decl => decl.features
  | .const specs => ValueSpec.featuresOf specs
  | .var specs => ValueSpec.featuresOf specs
  | .type specs => TypeSpec.featuresOf specs

def FunctionDecl.features : FunctionDecl → List Feature
  | ⟨_, receiver, type, body⟩ =>
    (match receiver with
      | some receiver => receiver.features
      | none => []) ++ type.features ++
    (match body with
      | some body => Stmt.featuresOf body
      | none => [])

def ValueSpec.features : ValueSpec → List Feature
  | ⟨_, type, values⟩ =>
    (match type with
      | some type => type.features
      | none => []) ++ Expr.featuresOf values

def ValueSpec.featuresOf : List ValueSpec → List Feature
  | [] => []
  | s :: ss => s.features ++ ValueSpec.featuresOf ss

def TypeSpec.features : TypeSpec → List Feature
  | ⟨_, _, type⟩ => type.features

def TypeSpec.featuresOf : List TypeSpec → List Feature
  | [] => []
  | s :: ss => s.features ++ TypeSpec.featuresOf ss

end

/-- A forbidden construct, with the top-level declaration that it occurs in. -/
structure Violation where
  feature : Feature
  context : String
  deriving DecidableEq, Repr

def Violation.message (v : Violation) : String :=
  v.feature.message ++ " (in " ++ v.context ++ ")"

def Decl.violations (d : Decl) : List Violation :=
  d.features.map (fun feature => ⟨feature, d.label⟩)

/-- All occurrences of forbidden constructs in a file. -/
def File.violations (file : File) : List Violation :=
  file.decls.flatMap Decl.violations

/-- Accepts the files without forbidden constructs. -/
def File.validate (file : File) : Except (List Violation) Unit :=
  match file.violations with
  | [] => .ok ()
  | violations => .error violations

end BoundedGo
