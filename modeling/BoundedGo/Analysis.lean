import BoundedGo.Fold
import BoundedGo.Target.Type
import BoundedGo.Text.Naming
import BoundedGo.Text.Uppercase

/-!
What a file gives to the target program: its constants, the witnesses that the body of the entry
function declares, and its other functions. Constants and witnesses keep the order of the source
and are folded in that order, so that each can refer to those before it.
-/
namespace BoundedGo

/-- The type of a witness: known from its declaration, or told by its value. -/
inductive WitnessType
  | known (text : String)
  | deferred
  deriving DecidableEq, Repr

structure Witness where
  name : String
  type : WitnessType
  value : String
  deriving DecidableEq, Repr

namespace Witness

def isBoolText (text : String) : Bool :=
  text = "true" || text = "false"

/-- The type that a witness is emitted with. Without a declared type numbers are `u64` and all
else is `bool`. -/
def resolvedType (w : Witness) : String :=
  match w.type with
  | .known text => text
  | .deferred =>
    if isBoolText w.value then "bool"
    else if (Text.readWord? w.value.toList).isSome then "u64"
    else "bool"

/-- Whether a witness can be an argument where a truth value is wanted. -/
def isBool (w : Witness) : Bool :=
  match w.type with
  | .known text => text = "bool"
  | .deferred => isBoolText w.value

end Witness

structure Constant where
  name : String
  type : String
  value : String
  deriving DecidableEq, Repr

structure Parameter where
  name : String
  type : String
  deriving DecidableEq, Repr

/-- What is left of the body of a function. -/
inductive HelperBody
  /-- Whether a parameter is not zero. -/
  | positive (scrutinee : String)
  | name (name : String)
  | placeholder
  deriving DecidableEq, Repr

structure Helper where
  name : String
  params : List Parameter
  result : Option String
  body : HelperBody
  deriving DecidableEq, Repr

structure Analysis where
  witnesses : List Witness
  constants : List Constant
  helpers : List Helper
  /-- The Go names whose value is not exact. -/
  fallbacks : List String
  deriving DecidableEq, Repr

/-- Where the type of a record comes from: the declaration, with or without a written type, or
the value. -/
inductive Typing
  | declared (written : Option TypeExpr)
  | inferred

/-- A name with the expression that it gets its value from. -/
structure Initializer where
  name : String
  typing : Typing
  value : Expr

namespace Initializer

/-- Names get the values at their place; what has no partner is left out. -/
def ofSpec (spec : ValueSpec) : List Initializer :=
  (spec.names.zip spec.values).map fun (name, value) => ⟨name, .declared spec.type, value⟩

def ofDecl : Decl → List Initializer
  | .const specs => specs.flatMap ofSpec
  | _ => []

/-- The declarations of variables that stand directly in the body of the entry function. -/
def ofStmt : Stmt → List Initializer
  | .declare (.var specs) => specs.flatMap ofSpec
  | .assign [.ident name] .define [value] => [⟨name, .inferred, value⟩]
  | _ => []

end Initializer

namespace File

def constantInitializers (file : File) : List Initializer :=
  file.decls.flatMap Initializer.ofDecl

def entryBody (file : File) (entry : String) : List Stmt :=
  ((file.function? entry).bind (·.body)).getD []

def witnessInitializers (file : File) (entry : String) : List Initializer :=
  (file.entryBody entry).flatMap Initializer.ofStmt

end File

/-- Folds values in order. Every value is bound to its name for those that follow. -/
def foldAll (mode : EvalMode) : Bindings → List Initializer → List (Initializer × Folded)
  | _, [] => []
  | env, i :: is =>
    let v := i.value.fold mode env
    (i, v) :: foldAll mode ((i.name, v) :: env) is

/-- The bindings behind values that have been folded. -/
def bindAll (env : Bindings) : List (Initializer × Folded) → Bindings
  | [] => env
  | (i, v) :: rest => bindAll ((i.name, v) :: env) rest

namespace Analysis

/-- Without a written type a declared value is a `u64`. -/
def declaredType : Option TypeExpr → Except TypeError String
  | some type => typeText type
  | none => .ok "u64"

def constant (i : Initializer) (v : Folded) : Except TypeError Constant := do
  let type ← match i.typing with
    | .declared written => declaredType written
    | .inferred => .ok "u64"
  return ⟨Text.uppercase (Text.snakeCase i.name), type, v.text⟩

def witness (i : Initializer) (v : Folded) : Except TypeError Witness := do
  let type ← match i.typing with
    | .declared written => .known <$> declaredType written
    | .inferred => .ok .deferred
  return ⟨Text.snakeCase i.name, type, v.text⟩

/-- The parameters of a field, one for every name. -/
def paramsOfField (f : Field) : Except TypeError (List Parameter) := do
  let type ← typeText f.type
  return f.names.map (fun name => ⟨Text.snakeCase name, type⟩)

/-- Only a body that returns a comparison with `>` or a name is kept. -/
def bodyOf : List Stmt → HelperBody
  | [.return_ [.binary .gt (.ident name) _]] => .positive (Text.snakeCase name)
  | [.return_ [.ident name]] => .name (Text.snakeCase name)
  | _ => .placeholder

def resultOf : List Field → Except TypeError (Option String)
  | [] => .ok none
  | f :: _ => some <$> typeText f.type

def helper (f : FunctionDecl) : Except TypeError Helper := do
  let params ← f.type.params.mapM paramsOfField
  let result ← resultOf f.type.results
  return ⟨Text.snakeCase f.name, params.flatten, result,
    match f.body with
    | some body => bodyOf body
    | none => .placeholder⟩

/-- The names of the values that are not exact. -/
def inexact (values : List (Initializer × Folded)) : List String :=
  (values.filter (fun (_, v) => !v.exact)).map (fun (i, _) => i.name)

end Analysis

open Analysis in
/-- Collects what a file gives to the target program. The first type without a target type is an
error: those of constants come first, then those of witnesses, then those of functions. -/
def analyze (entry : String) (mode : EvalMode) (file : File) : Except TypeError Analysis := do
  let constantValues := foldAll mode [] file.constantInitializers
  let env := bindAll [] constantValues
  let witnessValues := foldAll mode env (file.witnessInitializers entry)
  let constants ← constantValues.mapM (fun (i, v) => constant i v)
  let witnesses ← witnessValues.mapM (fun (i, v) => witness i v)
  let helpers ← (file.functions.filter (fun f => f.name ≠ entry)).mapM helper
  return ⟨witnesses, constants, helpers, inexact (constantValues ++ witnessValues)⟩

end BoundedGo
