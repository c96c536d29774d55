import BoundedGo.Proofs.Decimal

/-!
What expressions mean when the program runs. A value is a number or a truth value; arithmetic is
defined as long as its result fits a signed word and nothing is divided by zero, and comparisons
are defined between values of one kind. Names have the values that a store gives them. Folding
works on texts instead: on the texts of numbers it follows the operations on the numbers
(`Fold.combine_numbers`), and it gives up on all others.
-/
namespace BoundedGo

/-- What a Go expression can be worth. -/
inductive Value
  | number (n : Int)
  | truth (b : Bool)
  deriving DecidableEq, Repr

namespace Value

/-- The text of a value in the target language. -/
def text : Value → String
  | .number n => Text.signedDecimal n
  | .truth b => Folded.boolText b

/-- A number as the result of arithmetic. -/
def word? (n : Int) : Option Value :=
  if Text.IsWord n then some (.number n) else none

/-- An operation on two numbers. Division drops the fraction. -/
def onNumbers? (op : BinaryOp) (a b : Int) : Option Value :=
  match op with
  | .add => word? (a + b)
  | .sub => word? (a - b)
  | .mul => word? (a * b)
  | .div => if b = 0 then none else word? (a.tdiv b)
  | .eq => some (.truth (a = b))
  | .ne => some (.truth (a ≠ b))
  | .lt => some (.truth (a < b))
  | .le => some (.truth (a ≤ b))
  | .gt => some (.truth (a > b))
  | .ge => some (.truth (a ≥ b))
  | _ => none

/-- An operation on two values. Truth values are only compared for being the same. -/
def operate? (op : BinaryOp) : Value → Value → Option Value
  | .number a, .number b => onNumbers? op a b
  | .truth a, .truth b =>
    match op with
    | .eq => some (.truth (a = b))
    | .ne => some (.truth (a ≠ b))
    | _ => none
  | _, _ => none

/-- Truth values, and the numbers of a signed word. -/
def IsWord : Value → Prop
  | .number n => Text.IsWord n
  | .truth _ => True

theorem eq_of_word? {n : Int} {v : Value} (h : word? n = some v) :
    v = .number n ∧ Text.IsWord n := by
  unfold word? at h
  split at h
  · obtain rfl := Option.some.inj h
    exact ⟨rfl, ‹_›⟩
  · cases h

/-- Arithmetic gives numbers. -/
theorem number_of_onNumbers? {op : BinaryOp} (hop : op ∈ [.add, .sub, .mul, .div]) {a b : Int}
    {v : Value} (h : onNumbers? op a b = some v) : ∃ n, v = .number n ∧ Text.IsWord n := by
  simp only [List.mem_cons, List.not_mem_nil, or_false] at hop
  rcases hop with rfl | rfl | rfl | rfl
  · exact ⟨_, eq_of_word? h⟩
  · exact ⟨_, eq_of_word? h⟩
  · exact ⟨_, eq_of_word? h⟩
  · by_cases hb : b = 0
    · simp [onNumbers?, hb] at h
    · exact ⟨_, eq_of_word? (by simpa [onNumbers?, hb] using h)⟩

theorem isWord_of_arithmetic {op : BinaryOp} (hop : op ∈ [.add, .sub, .mul, .div]) {a b : Int}
    {v : Value} (h : onNumbers? op a b = some v) : v.IsWord := by
  obtain ⟨n, rfl, hn⟩ := number_of_onNumbers? hop h
  exact hn

theorem isWord_of_onNumbers? {op : BinaryOp} {a b : Int} {v : Value}
    (h : onNumbers? op a b = some v) : v.IsWord := by
  cases op with
  | add | sub | mul | div => exact isWord_of_arithmetic (by decide) h
  | eq | ne | lt | le | gt | ge =>
    obtain rfl := Option.some.inj h
    trivial
  | _ => cases h

theorem text_injective : Function.Injective text := by
  intro v w h
  cases v with
  | number n =>
    cases w with
    | number m => rw [Text.signedDecimal_injective h]
    | truth c => exact absurd h (Folded.signedDecimal_ne_boolText c)
  | truth b =>
    cases w with
    | number m => exact absurd h.symm (Folded.signedDecimal_ne_boolText b)
    | truth c => cases b <;> cases c <;> first | rfl | exact absurd h (by decide)

/-- A text that is read as a number is the text of that number. -/
theorem eq_number_of_readWord? {v : Value} (hv : v.IsWord) {n : Int}
    (h : Text.readWord? v.text.toList = some n) : v = .number n := by
  cases v with
  | number m =>
    have hm : Text.readWord? (Text.signedDecimal m).toList = some m :=
      Text.readWord?_signedDecimal hv
    rw [text, hm] at h
    rw [Option.some.inj h]
  | truth b =>
    rw [text, Folded.readWord?_boolText] at h
    cases h

end Value

/-- The values of names. -/
abbrev Store := String → Option Value

namespace Store

/-- The names that every program has from the start. -/
def predeclared : Store := fun name =>
  if name = "true" then some (.truth true)
  else if name = "false" then some (.truth false)
  else none

/-- What is visible where the given names are declared: they hide the names that are always
there. -/
def visible (σ : Store) : Store := fun name => σ name <|> predeclared name

end Store

/-- The value of an expression. What the literals stand for is given by `κ`. -/
def Expr.value? (κ : Literal → Option Nat) (σ : Store) : Expr → Option Value
  | .literal l => (κ l).map fun n => .number n
  | .ident name => σ name
  | .paren inner => inner.value? κ σ
  | .binary op lhs rhs =>
    match lhs.value? κ σ, rhs.value? κ σ with
    | some a, some b => Value.operate? op a b
    | _, _ => none
  | _ => none

namespace Fold

theorem wordText?_eq (n : Int) : wordText? n = (Value.word? n).map Value.text := by
  unfold wordText? Value.word?
  split <;> rfl

/-- The rules of folding are the operations on numbers. -/
theorem operation?_eq (op : BinaryOp) (a b : Int) :
    operation? op a b = (Value.onNumbers? op a b).map Value.text := by
  cases op with
  | div =>
    by_cases hb : b = 0
    · simp [operation?, Value.onNumbers?, hb]
    · simp [operation?, Value.onNumbers?, hb, wordText?_eq]
  | _ => simp [operation?, Value.onNumbers?, wordText?_eq, Value.text]

/-- On the texts of numbers folding gives the text of the result, if there is one. -/
theorem combine_numbers (op : BinaryOp) {a b : Int} (ha : Text.IsWord a) (hb : Text.IsWord b)
    (p q : Bool) :
    combine op ⟨Text.signedDecimal a, p⟩ ⟨Text.signedDecimal b, q⟩
      = match Value.onNumbers? op a b with
        | some v => ⟨v.text, p && q⟩
        | none => .fallback := by
  simp only [combine, Folded.word?, Text.readWord?_signedDecimal ha,
    Text.readWord?_signedDecimal hb, operation?_eq]
  cases Value.onNumbers? op a b <;> rfl

/-- What is exact comes from two exact numbers. -/
theorem combine_exact {op : BinaryOp} {l r : Folded} (h : (combine op l r).exact) :
    l.exact ∧ r.exact ∧ ∃ a b v, l.word? = some a ∧ r.word? = some b ∧
      Value.onNumbers? op a b = some v ∧ (combine op l r).text = v.text := by
  cases hl : l.word? with
  | none => simp [combine, hl, Folded.fallback] at h
  | some a =>
    cases hr : r.word? with
    | none => simp [combine, hl, hr, Folded.fallback] at h
    | some b =>
      cases hv : Value.onNumbers? op a b with
      | none => simp [combine, hl, hr, operation?_eq, hv, Folded.fallback] at h
      | some v =>
        simp only [combine, hl, hr, operation?_eq, hv, Option.map_some, Bool.and_eq_true] at h ⊢
        exact ⟨h.1, h.2, a, b, v, rfl, rfl, hv, rfl⟩

/-- A truth value is no operand of a rule. -/
theorem combine_truth_left (op : BinaryOp) (b p : Bool) (r : Folded) :
    combine op ⟨Folded.boolText b, p⟩ r = .fallback := by
  simp [combine, Folded.word?, Folded.readWord?_boolText]

theorem combine_truth_right (op : BinaryOp) (l : Folded) (b p : Bool) :
    combine op l ⟨Folded.boolText b, p⟩ = .fallback := by
  simp only [combine, Folded.word?, Folded.readWord?_boolText]
  split <;> simp_all

end Fold

end BoundedGo
