import BoundedGo.Proofs.Records

/-!
Reading the bindings is writing their values. Where an expression reads a bound name, the text of
its value can stand as a literal, and then nothing has to be bound. The names `true` and `false`
are values already, and what a call calls is no operand. A text says how folding goes on; the mark
of a literal is that of an exact value, so the marks agree as long as all that is bound is exact.
Main statement: an expression folds to the text of its inlined forms, and to their marks when the
bindings are exact (`fold_inlined`).
-/
namespace BoundedGo

/-- Forms of an expression in which the values of the bound names are written as literals. What
folding does not look at may be any: the types, the keys, and the bodies of functions. -/
inductive Expr.Inlined (env : Bindings) : Expr → Expr → Prop
  | bound {name : String} {v : Folded} (kind : LiteralKind)
      (htruth : ¬(name = "true" ∨ name = "false")) (hbound : env.lookup name = some v) :
      Inlined env (.ident name) (.literal ⟨kind, v.text⟩)
  | kept {name : String} (hfree : (name = "true" ∨ name = "false") ∨ env.lookup name = none) :
      Inlined env (.ident name) (.ident name)
  | literal (l : Literal) : Inlined env (.literal l) (.literal l)
  | paren {inner inner' : Expr} (hinner : Inlined env inner inner') :
      Inlined env (.paren inner) (.paren inner')
  | unary (op : UnaryOp) {operand operand' : Expr} (hoperand : Inlined env operand operand') :
      Inlined env (.unary op operand) (.unary op operand')
  | binary (op : BinaryOp) {lhs lhs' rhs rhs' : Expr} (hlhs : Inlined env lhs lhs')
      (hrhs : Inlined env rhs rhs') : Inlined env (.binary op lhs rhs) (.binary op lhs' rhs')
  | call (function : Expr) {arguments arguments' : List Expr}
      (harguments : List.Forall₂ (Inlined env) arguments arguments') :
      Inlined env (.call function arguments) (.call function arguments')
  | selector {base base' : Expr} (field : String) (hbase : Inlined env base base') :
      Inlined env (.selector base field) (.selector base' field)
  | index {base base' index index' : Expr} (hbase : Inlined env base base')
      (hindex : Inlined env index index') : Inlined env (.index base index) (.index base' index')
  | composite (type type' : Option TypeExpr) {elements elements' : List Expr}
      (helements : List.Forall₂ (Inlined env) elements elements') :
      Inlined env (.composite type elements) (.composite type' elements')
  | keyValue (key key' : Expr) {value value' : Expr} (hvalue : Inlined env value value') :
      Inlined env (.keyValue key value) (.keyValue key' value')
  | functionLiteral (type type' : FunctionType) (body body' : List Stmt) :
      Inlined env (.functionLiteral type body) (.functionLiteral type' body')
  | type (t t' : TypeExpr) : Inlined env (.type t) (.type t')

mutual

/-- Every expression has an inlined form. -/
theorem exists_inlined (env : Bindings) : ∀ e : Expr, ∃ e', e.Inlined env e'
  | .ident name => by
    by_cases htruth : name = "true" ∨ name = "false"
    · exact ⟨_, .kept (.inl htruth)⟩
    · cases hbound : env.lookup name with
      | none => exact ⟨_, .kept (.inr hbound)⟩
      | some v => exact ⟨_, .bound .int htruth hbound⟩
  | .literal l => ⟨_, .literal l⟩
  | .paren inner => by
    obtain ⟨_, hinner⟩ := exists_inlined env inner
    exact ⟨_, .paren hinner⟩
  | .unary op operand => by
    obtain ⟨_, hoperand⟩ := exists_inlined env operand
    exact ⟨_, .unary op hoperand⟩
  | .binary op lhs rhs => by
    obtain ⟨_, hlhs⟩ := exists_inlined env lhs
    obtain ⟨_, hrhs⟩ := exists_inlined env rhs
    exact ⟨_, .binary op hlhs hrhs⟩
  | .call function arguments => by
    obtain ⟨_, harguments⟩ := exists_inlined_all env arguments
    exact ⟨_, .call function harguments⟩
  | .selector base field => by
    obtain ⟨_, hbase⟩ := exists_inlined env base
    exact ⟨_, .selector field hbase⟩
  | .index base index => by
    obtain ⟨_, hbase⟩ := exists_inlined env base
    obtain ⟨_, hindex⟩ := exists_inlined env index
    exact ⟨_, .index hbase hindex⟩
  | .composite type elements => by
    obtain ⟨_, helements⟩ := exists_inlined_all env elements
    exact ⟨_, .composite type type helements⟩
  | .keyValue key value => by
    obtain ⟨_, hvalue⟩ := exists_inlined env value
    exact ⟨_, .keyValue key key hvalue⟩
  | .functionLiteral type body => ⟨_, .functionLiteral type type body body⟩
  | .type t => ⟨_, .type t t⟩

theorem exists_inlined_all (env : Bindings) :
    ∀ es : List Expr, ∃ es', List.Forall₂ (Expr.Inlined env) es es'
  | [] => ⟨_, .nil⟩
  | e :: es => by
    obtain ⟨_, he⟩ := exists_inlined env e
    obtain ⟨_, hes⟩ := exists_inlined_all env es
    exact ⟨_, .cons he hes⟩

end

/-- All the bindings that can be read are exact. -/
def Bindings.AllExact (env : Bindings) : Prop :=
  ∀ name v, env.lookup name = some v → v.exact

namespace Folded

/-- Two values with one text, and with one mark as far as `p` is known. -/
structure Matches (p : Prop) (v w : Folded) : Prop where
  text : v.text = w.text
  exact : p → v.exact = w.exact

namespace Matches

variable {p : Prop} {v w l l' r r' : Folded}

theorem refl (v : Folded) : Matches p v v := ⟨rfl, fun _ => rfl⟩

theorem negate (h : Matches p v w) : Matches p v.negate w.negate := by
  have hbool : v.bool? = w.bool? := by rw [bool?, bool?, h.text]
  unfold Folded.negate
  rw [hbool]
  cases w.bool? with
  | none => exact refl _
  | some b => exact ⟨rfl, h.exact⟩

theorem combine (op : BinaryOp) (hl : Matches p l l') (hr : Matches p r r') :
    Matches p (Fold.combine op l r) (Fold.combine op l' r') := by
  have hleft : l.word? = l'.word? := by rw [word?, word?, hl.text]
  have hright : r.word? = r'.word? := by rw [word?, word?, hr.text]
  unfold Fold.combine
  rw [hleft, hright]
  cases l'.word? with
  | none => exact refl _
  | some a =>
    cases r'.word? with
    | none => exact refl _
    | some b =>
      cases hoperation : Fold.operation? op a b with
      | none =>
        simp only [hoperation]
        exact refl _
      | some text =>
        simp only [hoperation]
        exact ⟨rfl, fun hp => by rw [hl.exact hp, hr.exact hp]⟩

end Matches

end Folded

namespace Expr.Inlined

open Folded

variable {env : Bindings}

/-- A name folds to its value, which is what the literal in its place is worth. -/
theorem matches_ident {name : String} {e' : Expr} (h : (Expr.ident name).Inlined env e') :
    Matches env.AllExact ((Expr.ident name).fold .environment env) (e'.fold .environment []) := by
  cases h with
  | bound kind htruth hbound =>
    refine ⟨?_, fun hall => ?_⟩
    · simp [Expr.fold, htruth, Fold.lookup, hbound, ofText]
    · simp [Expr.fold, htruth, Fold.lookup, hbound, ofText, hall _ _ hbound]
  | kept hfree =>
    have hsame : (Expr.ident name).fold .environment env
        = (Expr.ident name).fold .environment [] := by
      rcases hfree with htruth | hfree
      · rw [Expr.fold, Expr.fold, if_pos htruth, if_pos htruth]
      · rw [Expr.fold, Expr.fold, Fold.lookup, Fold.lookup, hfree, List.lookup_nil]
    rw [hsame]
    exact .refl _

theorem exists_singleton {argument : Expr} {arguments : List Expr}
    (h : List.Forall₂ (Expr.Inlined env) [argument] arguments) :
    ∃ argument', argument.Inlined env argument' ∧ arguments = [argument'] := by
  cases h with
  | cons hargument hrest =>
    cases hrest
    exact ⟨_, hargument, rfl⟩

/-- Where no rule of folding applies, none applies to the inlined forms. -/
theorem fold_eq_fallback {e e' : Expr} (h : e.Inlined env e')
    (hliteral : ∀ l, e ≠ .literal l) (hident : ∀ name, e ≠ .ident name)
    (hparen : ∀ inner, e ≠ .paren inner) (hnot : ∀ operand, e ≠ .unary .not operand)
    (hbinary : ∀ op lhs rhs, e ≠ .binary op lhs rhs)
    (hcall : ∀ name argument, e ≠ .call (.ident name) [argument]) :
    e'.fold .environment [] = .fallback := by
  cases h with
  | bound | kept => exact absurd rfl (hident _)
  | literal l => exact absurd rfl (hliteral l)
  | paren => exact absurd rfl (hparen _)
  | binary => exact absurd rfl (hbinary _ _ _)
  | unary op hoperand =>
    cases op with
    | not => exact absurd rfl (hnot _)
    | _ => rfl
  | @call function arguments arguments' harguments =>
    -- A call keeps its function and the number of its arguments, so it becomes no conversion.
    have hshape : ∀ name argument', function = .ident name → arguments' ≠ [argument'] := by
      rintro name argument' rfl rfl
      obtain ⟨argument, hrest, -, hnil, rfl⟩ := List.forall₂_cons_right_iff.mp harguments
      obtain rfl := List.forall₂_nil_right_iff.mp hnil
      exact hcall name argument rfl
    rw [Expr.fold] <;> grind
  | _ => rfl

theorem fold_matches {e e' : Expr} (h : e.Inlined env e') :
    Matches env.AllExact (e.fold .environment env) (e'.fold .environment []) := by
  induction e using Expr.fold.induct .environment generalizing e' with
  | case1 l =>
    cases h
    exact .refl _
  | case2 name htruth => exact matches_ident h
  | case3 name htruth => exact matches_ident h
  | case4 inner ih =>
    cases h with
    | paren hinner =>
      rw [Expr.fold, Expr.fold]
      exact ih hinner
  | case5 operand ih =>
    cases h with
    | unary _ hoperand => exact (ih hoperand).negate
  | case6 op lhs rhs ihl ihr =>
    cases h with
    | binary _ hlhs hrhs => exact (ihl hlhs).combine op (ihr hrhs)
  | case7 name argument hmode ih =>
    cases h with
    | call _ harguments =>
      obtain ⟨argument', hargument, rfl⟩ := exists_singleton harguments
      rw [Expr.fold, if_pos hmode, Expr.fold, if_pos hmode]
      exact ih hargument
  | case8 name argument hmode =>
    cases h with
    | call _ harguments =>
      obtain ⟨argument', -, rfl⟩ := exists_singleton harguments
      rw [Expr.fold, if_neg hmode, Expr.fold, if_neg hmode]
      exact .refl _
  | case9 e hliteral hident hparen hnot hbinary hcall =>
    have hfold : e.fold .environment env = .fallback := by
      rw [Expr.fold]
      all_goals assumption
    rw [hfold, h.fold_eq_fallback hliteral hident hparen hnot hbinary hcall]
    exact .refl _

end Expr.Inlined

/-- An expression has inlined forms, and without any bindings they fold to its text. The marks agree
when all that can be read is exact. -/
theorem fold_inlined (env : Bindings) (e : Expr) :
    (∃ e', e.Inlined env e') ∧ ∀ e', e.Inlined env e' →
      (e.fold .environment env).text = (e'.fold .environment []).text ∧
      ((∀ name v, env.lookup name = some v → v.exact) →
        (e.fold .environment env).exact = (e'.fold .environment []).exact) := by
  refine ⟨exists_inlined env e, fun e' h => ?_⟩
  have hmatches := h.fold_matches
  exact ⟨hmatches.text, hmatches.exact⟩

/-- The conversion `uint64(amount)` plus a negative number, and a truth value that is negated. -/
theorem fold_inlined_amount_low :
    ((Expr.binary .add (.call (.ident "uint64") [.ident "amount"]) (.ident "low")).fold .environment
        [("amount", .ofText "1000"), ("low", .ofText "-5")]).text = "995" ∧
      ((Expr.unary .not (.ident "open")).fold .environment [("open", .ofText "false")]).exact := by
  constructor
  · have hinlined : (Expr.binary .add (.call (.ident "uint64") [.ident "amount"])
        (.ident "low")).Inlined [("amount", .ofText "1000"), ("low", .ofText "-5")]
        (.binary .add (.call (.ident "uint64") [.literal ⟨.int, "1000"⟩])
          (.literal ⟨.int, "-5"⟩)) :=
      .binary .add
        (.call _ (.cons (.bound (v := .ofText "1000") .int (by decide) (by decide)) .nil))
        (.bound (v := .ofText "-5") .int (by decide) (by decide))
    rw [((fold_inlined _ _).2 _ hinlined).1]
    decide
  · have hinlined : (Expr.unary .not (.ident "open")).Inlined [("open", .ofText "false")]
        (.unary .not (.literal ⟨.string, "false"⟩)) :=
      .unary .not (.bound (v := .ofText "false") .string (by decide) (by decide))
    have hexact : ∀ name v, List.lookup name [("open", Folded.ofText "false")] = some v →
        v.exact := by
      intro name v hv
      obtain ⟨rfl, rfl⟩ : name = "open" ∧ v = .ofText "false" := by
        simpa using mem_of_lookup hv
      rfl
    rw [((fold_inlined _ _).2 _ hinlined).2 hexact]
    decide

end BoundedGo
