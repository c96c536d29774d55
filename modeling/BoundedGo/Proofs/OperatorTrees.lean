import BoundedGo.Proofs.Spellings
import BoundedGo.Tree

/-!
Expressions of operands and operators, written as tokens from left to right. A tree is well formed
if it groups as the tokens do without parentheses that are not there: a binary operator stands
below one on its right side only if it binds more strongly, below one on its left side also if it
binds as strongly; operators in front have operands with no binary operator on top, and what is
attached behind an operand has no operator on top of the operand.
-/
namespace BoundedGo

theorem BinaryOp.one_le_precedence (op : BinaryOp) : 1 ≤ op.precedence := by
  cases op <;> decide

theorem BinaryOp.precedence_le_five (op : BinaryOp) : op.precedence ≤ 5 := by
  cases op <;> decide

namespace Expr

mutual

/-- The tokens of an operator tree. -/
def pieces : Expr → List Piece
  | .ident name => [(.ident, name)]
  | .literal lit => [(.literal lit.kind, lit.raw)]
  | .paren inner => Symbol.parenOpen.piece :: (pieces inner ++ [Symbol.parenClose.piece])
  | .unary op operand => op.symbol.piece :: pieces operand
  | .binary op lhs rhs => pieces lhs ++ op.symbol.piece :: pieces rhs
  | .selector base field => pieces base ++ [Symbol.dot.piece, (.ident, field)]
  | .index base place =>
    pieces base ++ Symbol.bracketOpen.piece :: (pieces place ++ [Symbol.bracketClose.piece])
  | .call callee arguments =>
    pieces callee ++ Symbol.parenOpen.piece ::
      (argumentPieces arguments ++ [Symbol.parenClose.piece])
  | _ => []

def argumentPieces : List Expr → List Piece
  | [] => []
  | e :: es => pieces e ++ piecesBehind es

/-- The tokens of the arguments behind the first one. -/
def piecesBehind : List Expr → List Piece
  | [] => []
  | e :: es => Symbol.comma.piece :: (pieces e ++ piecesBehind es)

end

/-- How strongly an expression holds together: by its operator on top, and more than any binary
operator does without one. -/
def level : Expr → Nat
  | .binary op _ _ => op.precedence
  | .unary _ _ => 6
  | _ => 7

inductive WellFormed : Expr → Prop
  | ident (name : String) : WellFormed (.ident name)
  | literal (lit : Literal) : WellFormed (.literal lit)
  | paren {inner : Expr} (h : WellFormed inner) : WellFormed (.paren inner)
  | unary (op : UnaryOp) {operand : Expr} (h : WellFormed operand) (hl : 6 ≤ operand.level) :
    WellFormed (.unary op operand)
  | binary (op : BinaryOp) {lhs rhs : Expr} (h : WellFormed lhs) (h' : WellFormed rhs)
    (hl : op.precedence ≤ lhs.level) (hr : op.precedence < rhs.level) :
    WellFormed (.binary op lhs rhs)
  | selector {base : Expr} (field : String) (h : WellFormed base) (hl : 7 ≤ base.level) :
    WellFormed (.selector base field)
  | index {base place : Expr} (h : WellFormed base) (h' : WellFormed place)
    (hl : 7 ≤ base.level) : WellFormed (.index base place)
  | call {callee : Expr} {arguments : List Expr} (h : WellFormed callee)
    (h' : ∀ a ∈ arguments, WellFormed a) (hl : 7 ≤ callee.level) :
    WellFormed (.call callee arguments)

theorem one_le_level (e : Expr) : 1 ≤ e.level := by
  cases e with
  | binary op _ _ => exact op.one_le_precedence
  | _ => simp [level]

/-- The tokens that an operand begins with. -/
def startsOperand : TokenKind → Bool
  | .ident | .literal _ => true
  | .symbol s => s = .parenOpen
  | _ => false

/-- The tokens that a tree begins with. -/
def startsTree : TokenKind → Bool
  | .symbol s => s = .parenOpen || (UnaryOp.ofSymbol? s).isSome
  | k => startsOperand k

end Expr

end BoundedGo
