import BoundedGo.Proofs.TypeTrees

/-!
Operator trees with composite literals, written as tokens. In the header of a control statement a
brace opens the body, so a literal of a named type may stand there only where brackets are around
it: in parentheses, as an index, among arguments, or among the elements of another literal. A tree
is placed where literals are allowed or not; what is in brackets is placed where they are allowed.
Without literals the tokens are those of the operator tree, and the place does not matter.
-/
namespace BoundedGo

/-- Names of types, which may be qualified by a package. -/
def TypeExpr.isName : TypeExpr → Bool
  | .named _ | .qualified .. => true
  | _ => false

namespace Expr

open Parse (commaPieces)

mutual

/-- The tokens of an operator tree with composite literals. -/
def written : Expr → List Piece
  | .ident name => [(.ident, name)]
  | .literal lit => [(.literal lit.kind, lit.raw)]
  | .paren inner => Symbol.parenOpen.piece :: (written inner ++ [Symbol.parenClose.piece])
  | .unary op operand => op.symbol.piece :: written operand
  | .binary op lhs rhs => written lhs ++ op.symbol.piece :: written rhs
  | .selector base field => written base ++ [Symbol.dot.piece, (.ident, field)]
  | .index base place =>
    written base ++ Symbol.bracketOpen.piece :: (written place ++ [Symbol.bracketClose.piece])
  | .call callee arguments =>
    written callee ++ Symbol.parenOpen.piece ::
      (commaPieces (writtenAll arguments) ++ [Symbol.parenClose.piece])
  | .composite name elements =>
    name.elim [] TypeExpr.pieces ++ Symbol.braceOpen.piece ::
      (commaPieces (writtenAll elements) ++ [Symbol.braceClose.piece])
  | _ => []

def writtenAll : List Expr → List (List Piece)
  | [] => []
  | e :: es => written e :: writtenAll es

end

theorem writtenAll_eq_map (es : List Expr) : writtenAll es = es.map written := by
  induction es with
  | nil => rw [writtenAll, List.map_nil]
  | cons e es ih => rw [writtenAll, ih, List.map_cons]

/-- Trees that group as their tokens do, with literals of named types where they are allowed. The
flag tells whether they are allowed where the tree itself stands. -/
inductive Placed : Bool → Expr → Prop
  | ident {l : Bool} (name : String) : Placed l (.ident name)
  | literal {l : Bool} (lit : Literal) : Placed l (.literal lit)
  | paren {l : Bool} {inner : Expr} (h : Placed true inner) : Placed l (.paren inner)
  | unary {l : Bool} (op : UnaryOp) {operand : Expr} (h : Placed l operand)
    (hl : 6 ≤ operand.level) : Placed l (.unary op operand)
  | binary {l : Bool} (op : BinaryOp) {lhs rhs : Expr} (h : Placed l lhs) (h' : Placed l rhs)
    (hl : op.precedence ≤ lhs.level) (hr : op.precedence < rhs.level) :
    Placed l (.binary op lhs rhs)
  | selector {l : Bool} {base : Expr} (field : String) (h : Placed l base)
    (hl : 7 ≤ base.level) : Placed l (.selector base field)
  | index {l : Bool} {base place : Expr} (h : Placed l base) (h' : Placed true place)
    (hl : 7 ≤ base.level) : Placed l (.index base place)
  | call {l : Bool} {callee : Expr} {arguments : List Expr} (h : Placed l callee)
    (h' : ∀ a ∈ arguments, Placed true a) (hl : 7 ≤ callee.level) :
    Placed l (.call callee arguments)
  | composite {type : TypeExpr} {elements : List Expr} (htype : type.isName)
    (h : ∀ e ∈ elements, Placed true e) : Placed true (.composite (some type) elements)

/-- Where literals are allowed, they need not be in brackets. -/
theorem Placed.allowed {l : Bool} {e : Expr} (h : e.Placed l) : e.Placed true := by
  induction h with
  | ident name => exact .ident name
  | literal lit => exact .literal lit
  | paren h _ => exact .paren h
  | unary op _ hl ih => exact .unary op ih hl
  | binary op _ _ hl hr ihl ihr => exact .binary op ihl ihr hl hr
  | selector field _ hl ih => exact .selector field ih hl
  | index _ h' hl ih _ => exact .index ih h' hl
  | call _ h' hl ih _ => exact .call ih h' hl
  | composite htype h _ => exact .composite htype h

/-- Trees without composite literals may stand everywhere. -/
theorem WellFormed.placed {e : Expr} (h : e.WellFormed) (l : Bool) : e.Placed l := by
  induction h generalizing l with
  | ident name => exact .ident name
  | literal lit => exact .literal lit
  | paren _ ih => exact .paren (ih true)
  | unary op _ hl ih => exact .unary op (ih l) hl
  | binary op _ _ hl hr ihl ihr => exact .binary op (ihl l) (ihr l) hl hr
  | selector field _ hl ih => exact .selector field (ih l) hl
  | index _ _ hl ih ih' => exact .index (ih l) (ih' true) hl
  | call _ _ hl ih ih' => exact .call (ih l) (fun a ha => ih' a ha true) hl

/-- Arguments are written with commas between them. -/
theorem argumentPieces_eq (arguments : List Expr) :
    argumentPieces arguments = commaPieces (arguments.map pieces) := by
  have hbehind : ∀ as : List Expr,
      piecesBehind as = (as.map pieces).flatMap (Symbol.comma.piece :: ·) := by
    intro as
    induction as with
    | nil => rfl
    | cons a as ih => simp [piecesBehind, ih]
  cases arguments with
  | nil => rfl
  | cons a as => rw [argumentPieces, hbehind, List.map_cons, commaPieces]

/-- Without literals the tokens are those of the operator tree. -/
theorem WellFormed.written_eq {e : Expr} (h : e.WellFormed) : e.written = e.pieces := by
  induction h with
  | ident | literal => rfl
  | paren _ ih | unary _ _ _ ih | selector _ _ _ ih => simp only [written, pieces, ih]
  | binary _ _ _ _ _ ih ih' | index _ _ _ ih ih' => simp only [written, pieces, ih, ih']
  | @call callee arguments _ _ _ ih ih' =>
    rw [written, pieces, ih, writtenAll_eq_map, argumentPieces_eq, List.map_congr_left ih']

/-- The first token is one that a tree begins with, or an operand if there is no operator on
top. -/
def HasHead (e : Expr) : Prop :=
  ∃ p ps, e.written = p :: ps ∧ startsTree p.1 ∧ (7 ≤ e.level → startsOperand p.1)

theorem hasHead_cons {e : Expr} {p : Piece} {ps : List Piece} (h : e.written = p :: ps)
    (hp : startsOperand p.1) : e.HasHead := by
  refine ⟨p, ps, h, ?_, fun _ => hp⟩
  unfold startsTree
  split
  · rename_i s hs
    rw [hs] at hp
    exact Bool.or_eq_true_iff.mpr (.inl hp)
  · exact hp

/-- What is attached to a base, or follows a left operand, leaves the first token as it is. -/
theorem HasHead.extend {x e : Expr} {qs : List Piece} (h : x.HasHead)
    (hwritten : e.written = x.written ++ qs) (hlevel : 7 ≤ e.level → 7 ≤ x.level) : e.HasHead := by
  obtain ⟨p, ps, hp, htree, hoperand⟩ := h
  exact ⟨p, ps ++ qs, by rw [hwritten, hp]; rfl, htree, fun h => hoperand (hlevel h)⟩

theorem Placed.hasHead {l : Bool} {e : Expr} (h : e.Placed l) : e.HasHead := by
  induction h with
  | ident | literal | paren => exact hasHead_cons rfl rfl
  | unary op _ _ _ =>
    refine ⟨_, _, rfl, ?_, fun hl => absurd hl (by simp [level])⟩
    cases op <;> rfl
  | binary op _ _ _ _ ih _ =>
    refine ih.extend rfl fun hl => ?_
    have := op.precedence_le_five
    simp only [level] at hl
    omega
  | selector field _ hl ih => exact ih.extend rfl fun _ => hl
  | index _ _ hl ih _ => exact ih.extend rfl fun _ => hl
  | call _ _ hl ih _ => exact ih.extend rfl fun _ => hl
  | @composite type elements htype _ _ =>
    cases type with
    | named | qualified => exact hasHead_cons rfl rfl
    | _ => cases htype

/-- What no tree begins with does not stand in front of a tree. -/
theorem Placed.leadKind_ne {l : Bool} {e : Expr} (h : e.Placed l) {k : TokenKind}
    (hk : startsTree k = false) (next : TokenKind) : Parse.leadKind e.written next ≠ k := by
  rintro rfl
  obtain ⟨p, ps, hp, hstart, -⟩ := h.hasHead
  rw [hp, Parse.leadKind_cons] at hk
  exact Bool.noConfusion (hstart.symm.trans hk)

end Expr

end BoundedGo
