import BoundedGo.Parse.Basic
import BoundedGo.Tree

/-!
The productions that nest in each other. A production reads what is nested in it through a
`Grammar`, whose own productions may nest one level less deep.
-/
namespace BoundedGo

/-- The productions to use for what is nested one level deeper. -/
structure Grammar where
  /-- An expression whose operators have at least the given precedence. -/
  binary : Nat → Parse Expr
  unary : Parse Expr
  /-- An element of a composite literal. -/
  element : Parse Expr
  type : Parse TypeExpr
  block : Parse (List Stmt)
  statement : Parse Stmt

namespace Grammar

/-- The grammar of depth zero reads nothing. -/
def bottom : Grammar where
  binary _ := Parse.fail .exhausted
  unary := Parse.fail .exhausted
  element := Parse.fail .exhausted
  type := Parse.fail .exhausted
  block := Parse.fail .exhausted
  statement := Parse.fail .exhausted

end Grammar

end BoundedGo
