import BoundedGo.Token

/-!
The operators of expressions. Binary operators bind in five levels, from `||` on the lowest to
the multiplicative ones on the highest.
-/
namespace BoundedGo

inductive UnaryOp
  | not | neg | pos | complement | deref | address | receive
  deriving DecidableEq, Repr

inductive BinaryOp
  | add | sub | mul | div | rem | and | or | xor | shl | shr | andNot
  | both | either | eq | ne | lt | le | gt | ge
  deriving DecidableEq, Repr

namespace UnaryOp

def symbol : UnaryOp → Symbol
  | .not => .bang | .neg => .minus | .pos => .plus | .complement => .caret | .deref => .star
  | .address => .amp | .receive => .arrow

/-- The operator that a symbol stands for in front of an operand. -/
def ofSymbol? : Symbol → Option UnaryOp
  | .bang => some .not
  | .minus => some .neg
  | .plus => some .pos
  | .caret => some .complement
  | .star => some .deref
  | .amp => some .address
  | .arrow => some .receive
  | _ => none

end UnaryOp

namespace BinaryOp

def precedence : BinaryOp → Nat
  | .either => 1
  | .both => 2
  | .eq | .ne | .lt | .le | .gt | .ge => 3
  | .add | .sub | .or | .xor => 4
  | .mul | .div | .rem | .shl | .shr | .and | .andNot => 5

def symbol : BinaryOp → Symbol
  | .add => .plus | .sub => .minus | .mul => .star | .div => .slash | .rem => .percent
  | .and => .amp | .or => .bar | .xor => .caret | .shl => .shl | .shr => .shr
  | .andNot => .ampCaret | .both => .ampAmp | .either => .barBar | .eq => .eq | .ne => .ne
  | .lt => .lt | .le => .le | .gt => .gt | .ge => .ge

/-- The operator that a symbol stands for between two operands. -/
def ofSymbol? : Symbol → Option BinaryOp
  | .plus => some .add | .minus => some .sub | .star => some .mul | .slash => some .div
  | .percent => some .rem | .amp => some .and | .bar => some .or | .caret => some .xor
  | .shl => some .shl | .shr => some .shr | .ampCaret => some .andNot | .ampAmp => some .both
  | .barBar => some .either | .eq => some .eq | .ne => some .ne | .lt => some .lt
  | .le => some .le | .gt => some .gt | .ge => some .ge
  | _ => none

/-- The operator that an assignment such as `+=` applies before it stores. -/
def ofAssignment? : Symbol → Option BinaryOp
  | .plusAssign => some .add | .minusAssign => some .sub | .starAssign => some .mul
  | .slashAssign => some .div | .percentAssign => some .rem | .ampAssign => some .and
  | .barAssign => some .or | .caretAssign => some .xor | .shlAssign => some .shl
  | .shrAssign => some .shr | .ampCaretAssign => some .andNot
  | _ => none

theorem ofSymbol?_symbol (op : BinaryOp) : ofSymbol? op.symbol = some op := by
  cases op <;> rfl

theorem symbol_eq_of_ofSymbol? {s : Symbol} {op : BinaryOp} (h : ofSymbol? s = some op) :
    op.symbol = s := by
  cases s <;> simp_all [ofSymbol?] <;> subst h <;> rfl

end BinaryOp

end BoundedGo
