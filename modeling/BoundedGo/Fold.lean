import BoundedGo.Tree

/-!
Folding of initial values at translation time. The result is a text of the target language, and
a mark that tells whether it is the value of the expression; where no rule applies it is `true`,
marked as inexact. In the environment mode the names that already have a value are read, and
conversions to the built-in types are passed through.
-/
namespace BoundedGo

inductive EvalMode
  | approximate | environment
  deriving DecidableEq, Repr

structure Folded where
  text : String
  exact : Bool
  deriving DecidableEq, Repr

namespace Folded

def ofText (text : String) : Folded := ⟨text, true⟩

/-- What stands for a value that cannot be folded. -/
def fallback : Folded := ⟨"true", false⟩

def boolText (b : Bool) : String :=
  if b then "true" else "false"

def bool? (v : Folded) : Option Bool :=
  if v.text = "true" then some true
  else if v.text = "false" then some false
  else none

/-- The number of a text that is a signed decimal number. -/
def word? (v : Folded) : Option Int :=
  Text.readWord? v.text.toList

/-- The opposite of a truth value. It is as exact as the value. -/
def negate (v : Folded) : Folded :=
  match v.bool? with
  | some b => ⟨boolText (!b), v.exact⟩
  | none => fallback

end Folded

/-- The values of the names that have one, the latest first. -/
abbrev Bindings := List (String × Folded)

namespace Fold

/-- The text of a number that fits a signed word. -/
def wordText? (n : Int) : Option String :=
  if Text.IsWord n then some (Text.signedDecimal n) else none

/-- The text of an operation on two numbers, if there is a rule for it and the result fits.
Division drops the fraction. -/
def operation? (op : BinaryOp) (a b : Int) : Option String :=
  match op with
  | .add => wordText? (a + b)
  | .sub => wordText? (a - b)
  | .mul => wordText? (a * b)
  | .div => if b = 0 then none else wordText? (a.tdiv b)
  | .eq => some (Folded.boolText (a = b))
  | .ne => some (Folded.boolText (a ≠ b))
  | .lt => some (Folded.boolText (a < b))
  | .le => some (Folded.boolText (a ≤ b))
  | .gt => some (Folded.boolText (a > b))
  | .ge => some (Folded.boolText (a ≥ b))
  | _ => none

/-- An operation on two folded operands. It is exact if both of them are. -/
def combine (op : BinaryOp) (l r : Folded) : Folded :=
  match l.word?, r.word? with
  | some a, some b =>
    match operation? op a b with
    | some text => ⟨text, l.exact && r.exact⟩
    | none => .fallback
  | _, _ => .fallback

/-- The types whose conversions change no value. -/
def conversions : List String :=
  ["uint8", "uint16", "uint32", "uint64", "byte", "bool"]

def lookup (mode : EvalMode) (env : Bindings) (name : String) : Folded :=
  match mode with
  | .approximate => .fallback
  | .environment => (env.lookup name).getD .fallback

end Fold

open Fold in
/-- The folded value of an expression. -/
def Expr.fold (mode : EvalMode) (env : Bindings) : Expr → Folded
  | .literal l => .ofText l.raw
  | .ident name =>
    if name = "true" ∨ name = "false" then .ofText name else lookup mode env name
  | .paren inner => inner.fold mode env
  | .unary .not operand => (operand.fold mode env).negate
  | .binary op lhs rhs => combine op (lhs.fold mode env) (rhs.fold mode env)
  | .call (.ident name) [argument] =>
    if mode = .environment ∧ name ∈ conversions then argument.fold mode env else .fallback
  | _ => .fallback

end BoundedGo
