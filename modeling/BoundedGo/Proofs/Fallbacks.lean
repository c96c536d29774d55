import BoundedGo.Proofs.EntryAssertion
import BoundedGo.Proofs.Modes
import BoundedGo.Translation

/-!
Which values are guessed. Folding comes from an expression to some of its subexpressions: through
parentheses, to the operand of a negation, to both operands of an operator and, in the environment
mode, to the argument of a conversion. It guesses where it comes to a subexpression that no rule
applies to, or to a name whose value was guessed before; nothing else makes a value inexact, and
nothing makes it exact again. A guessed value is always a truth value, and as no arithmetic rule
takes one, no number is computed from a guess.
Main statement: the notes of a translation name the guessed records, in the order of the records,
and no others (`guesses_reported`).
-/
namespace BoundedGo

namespace BinaryOp

/-- The operators that folding has a rule for. -/
def foldable : List BinaryOp := [.add, .sub, .mul, .div, .eq, .ne, .lt, .le, .gt, .ge]

/-- The result of arithmetic on numbers of any size. Division drops the fraction. -/
def arithmetic? : BinaryOp → Int → Int → Option Int
  | .add, a, b => some (a + b)
  | .sub, a, b => some (a - b)
  | .mul, a, b => some (a * b)
  | .div, a, b => some (a.tdiv b)
  | _, _, _ => none

end BinaryOp

/-- The texts of the truth values. -/
def Folded.IsTruth (v : Folded) : Prop := v.text = "true" ∨ v.text = "false"

namespace Expr

/-- Whether folding an expression comes to a subexpression. -/
inductive Visits (mode : EvalMode) : Expr → Expr → Prop
  | self (e : Expr) : Visits mode e e
  | paren {inner part : Expr} (h : Visits mode inner part) : Visits mode (.paren inner) part
  | negated {operand part : Expr} (h : Visits mode operand part) :
    Visits mode (.unary .not operand) part
  | left {op : BinaryOp} {lhs rhs part : Expr} (h : Visits mode lhs part) :
    Visits mode (.binary op lhs rhs) part
  | right {op : BinaryOp} {lhs rhs part : Expr} (h : Visits mode rhs part) :
    Visits mode (.binary op lhs rhs) part
  | converted {type : String} {argument part : Expr} (hmode : mode = .environment)
    (htype : type ∈ Fold.conversions) (h : Visits mode argument part) :
    Visits mode (.call (.ident type) [argument]) part

/-- A conversion, which the environment mode passes through. -/
def IsConversion (mode : EvalMode) (callee : Expr) (arguments : List Expr) : Prop :=
  mode = .environment ∧ ∃ type ∈ Fold.conversions, ∃ argument,
    callee = .ident type ∧ arguments = [argument]

/-- No rule of folding applies to an expression itself. -/
inductive NoRule (mode : EvalMode) (env : Bindings) : Expr → Prop
  | unresolved {name : String} (hname : name ≠ "true" ∧ name ≠ "false")
    (h : mode = .approximate ∨ env.lookup name = none) : NoRule mode env (.ident name)
  | noTruth {operand : Expr} (h : ¬ (operand.fold mode env).IsTruth) :
    NoRule mode env (.unary .not operand)
  | operatorInFront {op : UnaryOp} {operand : Expr} (h : op ≠ .not) :
    NoRule mode env (.unary op operand)
  | noNumber {op : BinaryOp} {lhs rhs operand : Expr} (hoperand : operand = lhs ∨ operand = rhs)
    (h : (operand.fold mode env).word? = none) : NoRule mode env (.binary op lhs rhs)
  | operatorBetween {op : BinaryOp} {lhs rhs : Expr} (h : op ∉ BinaryOp.foldable) :
    NoRule mode env (.binary op lhs rhs)
  | overflow {op : BinaryOp} {lhs rhs : Expr} {a b n : Int}
    (ha : (lhs.fold mode env).word? = some a) (hb : (rhs.fold mode env).word? = some b)
    (hn : op.arithmetic? a b = some n) (h : ¬ Text.IsWord n) : NoRule mode env (.binary op lhs rhs)
  | zeroDivisor {lhs rhs : Expr} (h : (rhs.fold mode env).word? = some 0) :
    NoRule mode env (.binary .div lhs rhs)
  | call {callee : Expr} {arguments : List Expr} (h : ¬ IsConversion mode callee arguments) :
    NoRule mode env (.call callee arguments)
  | selector (base : Expr) (field : String) : NoRule mode env (.selector base field)
  | index (base place : Expr) : NoRule mode env (.index base place)
  | composite (type : Option TypeExpr) (elements : List Expr) :
    NoRule mode env (.composite type elements)
  | keyValue (key value : Expr) : NoRule mode env (.keyValue key value)
  | functionLiteral (type : FunctionType) (body : List Stmt) :
    NoRule mode env (.functionLiteral type body)
  | type (type : TypeExpr) : NoRule mode env (.type type)

/-- A name whose bound value is a guess. -/
inductive ReadsGuess (mode : EvalMode) (env : Bindings) : Expr → Prop
  | ident {name : String} {v : Folded} (hname : name ≠ "true" ∧ name ≠ "false")
    (hmode : mode = .environment) (hv : env.lookup name = some v) (h : v.exact = false) :
    ReadsGuess mode env (.ident name)

/-- Folding an expression comes to a part that it has to guess the value of. -/
def MeetsGuess (mode : EvalMode) (env : Bindings) (e : Expr) : Prop :=
  ∃ part, e.Visits mode part ∧ (part.NoRule mode env ∨ part.ReadsGuess mode env)

variable {mode : EvalMode} {env : Bindings} {e part : Expr}

end Expr

namespace Folded

theorem bool?_eq_none_iff (v : Folded) : v.bool? = none ↔ ¬ v.IsTruth := by
  unfold bool? IsTruth
  split
  · simp [*]
  · split <;> simp [*]

theorem isTruth_boolText (b p : Bool) : IsTruth ⟨boolText b, p⟩ := by
  cases b
  · exact .inr rfl
  · exact .inl rfl

theorem isTruth_fallback : fallback.IsTruth := .inl rfl

theorem isTruth_negate (v : Folded) : v.negate.IsTruth := by
  unfold negate
  split
  · exact isTruth_boolText _ _
  · exact isTruth_fallback

/-- Truth values are no numbers. -/
theorem IsTruth.word? {v : Folded} (h : v.IsTruth) : v.word? = none := by
  obtain ⟨text, exact⟩ := v
  rcases h with rfl | rfl
  · exact readWord?_boolText true
  · exact readWord?_boolText false

theorem negate_exact (v : Folded) : v.negate.exact = false ↔ v.exact = false ∨ ¬ v.IsTruth := by
  rw [← bool?_eq_none_iff]
  unfold negate
  cases hb : v.bool? with
  | none => simp [fallback]
  | some b => simp

end Folded

namespace Fold

/-- The rules for two numbers are missing for some operators, for results that do not fit a word
and for division by zero. -/
theorem operation?_eq_none_iff (op : BinaryOp) (a b : Int) :
    operation? op a b = none ↔ op ∉ BinaryOp.foldable ∨ (op = .div ∧ b = 0) ∨
      ∃ n, op.arithmetic? a b = some n ∧ ¬ Text.IsWord n := by
  cases op with
  | div =>
    by_cases hb : b = 0
    · simp [operation?, hb]
    · simp [operation?, hb, wordText?, BinaryOp.foldable, BinaryOp.arithmetic?]
  | _ => simp [operation?, wordText?, BinaryOp.foldable, BinaryOp.arithmetic?]

/-- Without two numbers, or without a rule for them, the result is guessed. -/
theorem combine_eq_fallback {op : BinaryOp} {l r : Folded}
    (h : l.word? = none ∨ r.word? = none ∨
      ∃ a b, l.word? = some a ∧ r.word? = some b ∧ operation? op a b = none) :
    combine op l r = .fallback := by
  unfold combine
  rcases h with hl | hr | ⟨a, b, ha, hb, hnone⟩
  · rw [hl]
  · rw [hr]
    cases l.word? <;> rfl
  · simp [ha, hb, hnone]

theorem combine_inexact_iff (op : BinaryOp) (l r : Folded) :
    (combine op l r).exact = false ↔ l.exact = false ∨ r.exact = false ∨
      l.word? = none ∨ r.word? = none ∨
      ∃ a b, l.word? = some a ∧ r.word? = some b ∧ operation? op a b = none := by
  unfold combine
  cases hl : l.word? with
  | none => simp [Folded.fallback]
  | some a =>
    cases hr : r.word? with
    | none => simp [Folded.fallback]
    | some b =>
      cases hop : operation? op a b with
      | none => simp [Folded.fallback, hop]
      | some text => cases l.exact <;> simp [hop]

end Fold

namespace Expr

variable {mode : EvalMode} {env : Bindings} {e part : Expr}

theorem NoRule.inexact (h : e.NoRule mode env) : (e.fold mode env).exact = false := by
  cases h with
  | unresolved hname h =>
    rcases h with rfl | hnone
    · simp [fold, hname, Fold.lookup, Folded.fallback]
    · cases mode <;> simp [fold, hname, Fold.lookup, Folded.fallback, hnone]
  | noTruth h => exact (Folded.negate_exact _).mpr (.inr h)
  | @operatorInFront op _ h =>
    cases op with
    | not => exact absurd rfl h
    | _ => rfl
  | noNumber hoperand h =>
    refine (Fold.combine_inexact_iff _ _ _).mpr (.inr (.inr ?_))
    rcases hoperand with rfl | rfl
    · exact .inl h
    · exact .inr (.inl h)
  | @operatorBetween op lhs rhs h =>
    refine (Fold.combine_inexact_iff _ _ _).mpr (.inr (.inr ?_))
    cases hl : (lhs.fold mode env).word? with
    | none => exact .inl rfl
    | some a =>
      cases hr : (rhs.fold mode env).word? with
      | none => exact .inr (.inl rfl)
      | some b =>
        exact .inr (.inr ⟨a, b, rfl, rfl, (Fold.operation?_eq_none_iff op a b).mpr (.inl h)⟩)
  | @overflow op lhs rhs a b n ha hb hn h =>
    refine (Fold.combine_inexact_iff _ _ _).mpr (.inr (.inr (.inr (.inr ⟨a, b, ha, hb, ?_⟩))))
    exact (Fold.operation?_eq_none_iff op a b).mpr (.inr (.inr ⟨n, hn, h⟩))
  | @zeroDivisor lhs rhs h =>
    refine (Fold.combine_inexact_iff _ _ _).mpr (.inr (.inr ?_))
    cases hl : (lhs.fold mode env).word? with
    | none => exact .inl rfl
    | some a => exact .inr (.inr ⟨a, 0, rfl, h, by simp [Fold.operation?]⟩)
  | @call callee arguments h =>
    by_cases hform : ∃ type argument, callee = .ident type ∧ arguments = [argument]
    · obtain ⟨type, argument, rfl, rfl⟩ := hform
      rw [fold, if_neg fun hboth => h ⟨hboth.1, type, hboth.2, argument, rfl, rfl⟩]
      rfl
    · rw [fold]
      · rfl
      case x_7 =>
        rintro type argument ⟨⟩
        exact hform ⟨type, argument, rfl, rfl⟩
      all_goals
        intros
        contradiction
  | _ => rfl

theorem ReadsGuess.inexact (h : e.ReadsGuess mode env) : (e.fold mode env).exact = false := by
  cases h with
  | ident hname hmode hv h =>
    subst hmode
    simp [fold, hname, Fold.lookup, hv, h]

/-- What is guessed on the way is guessed in the end. -/
theorem Visits.inexact (hvisit : e.Visits mode part) (h : (part.fold mode env).exact = false) :
    (e.fold mode env).exact = false := by
  induction hvisit with
  | self e => exact h
  | paren _ ih => exact ih h
  | negated _ ih => exact (Folded.negate_exact _).mpr (.inl (ih h))
  | left _ ih => exact (Fold.combine_inexact_iff _ _ _).mpr (.inl (ih h))
  | right _ ih => exact (Fold.combine_inexact_iff _ _ _).mpr (.inr (.inl (ih h)))
  | converted hmode htype _ ih =>
    rw [fold, if_pos ⟨hmode, htype⟩]
    exact ih h

/-- What is not exact comes from a part that is guessed. -/
theorem meetsGuess_of_inexact (h : (e.fold mode env).exact = false) : e.MeetsGuess mode env := by
  induction e using Expr.fold.induct mode with
  | case1 l => cases h
  | case2 name hname =>
    rw [fold, if_pos hname] at h
    cases h
  | case3 name hname =>
    rw [not_or] at hname
    refine ⟨_, .self _, ?_⟩
    cases mode with
    | approximate => exact .inl (.unresolved hname (.inl rfl))
    | environment =>
      cases hv : env.lookup name with
      | none => exact .inl (.unresolved hname (.inr hv))
      | some v => exact .inr (.ident hname rfl hv (by simpa [fold, hname, Fold.lookup, hv] using h))
  | case4 inner ih =>
    obtain ⟨part, hvisit, hpart⟩ := ih h
    exact ⟨part, .paren hvisit, hpart⟩
  | case5 operand ih =>
    rcases (Folded.negate_exact _).mp h with h | h
    · obtain ⟨part, hvisit, hpart⟩ := ih h
      exact ⟨part, .negated hvisit, hpart⟩
    · exact ⟨_, .self _, .inl (.noTruth h)⟩
  | case6 op lhs rhs ihl ihr =>
    rcases (Fold.combine_inexact_iff _ _ _).mp h with h | h | h | h | ⟨a, b, ha, hb, h⟩
    · obtain ⟨part, hvisit, hpart⟩ := ihl h
      exact ⟨part, .left hvisit, hpart⟩
    · obtain ⟨part, hvisit, hpart⟩ := ihr h
      exact ⟨part, .right hvisit, hpart⟩
    · exact ⟨_, .self _, .inl (.noNumber (.inl rfl) h)⟩
    · exact ⟨_, .self _, .inl (.noNumber (.inr rfl) h)⟩
    · refine ⟨_, .self _, .inl ?_⟩
      rcases (Fold.operation?_eq_none_iff op a b).mp h with h | ⟨rfl, rfl⟩ | ⟨n, hn, h⟩
      · exact .operatorBetween h
      · exact .zeroDivisor hb
      · exact .overflow ha hb hn h
  | case7 type argument hconversion ih =>
    rw [fold, if_pos hconversion] at h
    obtain ⟨part, hvisit, hpart⟩ := ih h
    exact ⟨part, .converted hconversion.1 hconversion.2 hvisit, hpart⟩
  | case8 type argument hconversion =>
    refine ⟨_, .self _, .inl (.call ?_)⟩
    rintro ⟨hmode, type', htype, argument', hcallee, -⟩
    cases hcallee
    exact hconversion ⟨hmode, htype⟩
  | case9 e hliteral hident hparen hnot hbinary hcall =>
    refine ⟨e, .self e, .inl ?_⟩
    cases e with
    | ident name => exact absurd rfl (hident name)
    | literal l => exact absurd rfl (hliteral l)
    | paren inner => exact absurd rfl (hparen inner)
    | unary op operand =>
      refine .operatorInFront ?_
      rintro rfl
      exact hnot operand rfl
    | binary op lhs rhs => exact absurd rfl (hbinary op lhs rhs)
    | call callee arguments =>
      refine .call ?_
      rintro ⟨-, type, -, argument, rfl, rfl⟩
      exact hcall type argument rfl
    | selector base field => exact .selector base field
    | index base place => exact .index base place
    | composite type elements => exact .composite type elements
    | keyValue key value => exact .keyValue key value
    | functionLiteral type body => exact .functionLiteral type body
    | type type => exact .type type

/-- A value is not exact exactly if some part of it is guessed. -/
theorem fold_inexact_iff : (e.fold mode env).exact = false ↔ e.MeetsGuess mode env := by
  refine ⟨meetsGuess_of_inexact, ?_⟩
  rintro ⟨part, hvisit, hpart | hpart⟩
  · exact hvisit.inexact hpart.inexact
  · exact hvisit.inexact hpart.inexact

end Expr

/-- Every guess that is bound is a truth value. -/
def Bindings.GuessesAreTruths (env : Bindings) : Prop :=
  ∀ p ∈ env, p.2.exact = false → p.2.IsTruth

namespace Bindings.GuessesAreTruths

variable {env : Bindings}

/-- So every guess is. -/
theorem fold (henv : GuessesAreTruths env) (mode : EvalMode) (e : Expr)
    (h : (e.fold mode env).exact = false) : (e.fold mode env).IsTruth := by
  induction e using Expr.fold.induct mode with
  | case1 l => cases h
  | case2 name hname =>
    rw [Expr.fold, if_pos hname] at h
    cases h
  | case3 name hname =>
    rw [Expr.fold, if_neg hname] at h ⊢
    cases mode with
    | approximate => exact Folded.isTruth_fallback
    | environment =>
      unfold Fold.lookup at h ⊢
      cases hv : env.lookup name with
      | none => exact Folded.isTruth_fallback
      | some v =>
        rw [hv] at h
        exact henv (name, v) (mem_of_lookup hv) h
  | case4 inner ih => exact ih h
  | case5 operand ih => exact Folded.isTruth_negate _
  | case6 op lhs rhs ihl ihr =>
    -- A guessed operand is a truth value, so no rule for numbers applies to it.
    have hfallback : Fold.combine op (lhs.fold mode env) (rhs.fold mode env) = .fallback := by
      refine Fold.combine_eq_fallback ?_
      rcases (Fold.combine_inexact_iff _ _ _).mp h with hl | hr | hnone
      · exact .inl (ihl hl).word?
      · exact .inr (.inl (ihr hr).word?)
      · exact hnone
    rw [Expr.fold, hfallback]
    exact Folded.isTruth_fallback
  | case7 type argument hconversion ih =>
    rw [Expr.fold, if_pos hconversion] at h ⊢
    exact ih h
  | case8 type argument hconversion =>
    rw [Expr.fold, if_neg hconversion]
    exact Folded.isTruth_fallback
  | case9 e hliteral hident hparen hnot hbinary hcall =>
    rw [Expr.fold]
    · exact Folded.isTruth_fallback
    all_goals assumption

theorem cons (henv : GuessesAreTruths env) {name : String} {v : Folded}
    (hv : v.exact = false → v.IsTruth) : GuessesAreTruths ((name, v) :: env) :=
  List.forall_mem_cons.mpr ⟨hv, henv⟩

theorem nil : GuessesAreTruths [] := nofun

/-- The guesses among values that are folded in order are truth values. -/
theorem foldAll (henv : GuessesAreTruths env) (mode : EvalMode) (is : List Initializer) :
    ∀ p ∈ foldAll mode env is, p.2.exact = false → p.2.IsTruth := by
  induction is generalizing env with
  | nil => nofun
  | cons i is ih =>
    have hv := henv.fold mode i.value
    exact List.forall_mem_cons.mpr ⟨hv, ih (henv.cons hv)⟩

end Bindings.GuessesAreTruths

/-- The bindings of values that have been folded, the latest first. -/
def Bindings.ofFolded (values : List (Initializer × Folded)) : Bindings :=
  (values.map fun p => (p.1.name, p.2)).reverse

theorem foldAll_append (mode : EvalMode) (env : Bindings) (is js : List Initializer) :
    foldAll mode env (is ++ js)
      = foldAll mode env is ++ foldAll mode (bindAll env (foldAll mode env is)) js := by
  induction is generalizing env with
  | nil => rfl
  | cons i is ih => simp [foldAll, bindAll, ih]

/-- Every value is folded with the values before it bound. -/
theorem foldAll_getElem? {mode : EvalMode} {env : Bindings} {is : List Initializer} {k : Nat}
    {i : Initializer} {v : Folded} (h : (foldAll mode env is)[k]? = some (i, v)) :
    v = i.value.fold mode (.ofFolded ((foldAll mode env is).take k) ++ env) := by
  induction is generalizing env k with
  | nil => simp [foldAll] at h
  | cons j is ih =>
    cases k with
    | zero =>
      obtain ⟨rfl, rfl⟩ : j = i ∧ j.value.fold mode env = v := by simpa [foldAll] using h
      rfl
    | succ k =>
      rw [ih (by simpa [foldAll] using h)]
      simp [foldAll, Bindings.ofFolded]

namespace File

/-- What gets a recorded value, the constants first. -/
def initializers (file : File) (entry : String) : List Initializer :=
  file.constantInitializers ++ file.witnessInitializers entry

theorem folded_eq (file : File) (entry : String) (mode : EvalMode) :
    file.folded entry mode = foldAll mode [] (file.initializers entry) := by
  rw [initializers, foldAll_append]
  rfl

end File

/-- The entry point gives rise to warnings only. -/
theorem Emission.severity_of_mem_chooseAssertion {a : Analysis} {d : Diagnostic}
    (h : d ∈ (Emission.chooseAssertion a).2) : d.severity = .warning := by
  rcases Emission.diagnostics_of_chooseAssertion a with
    ⟨name, -, hnone⟩ | ⟨-, warning, hone, hseverity⟩
  · rw [hnone] at h
    cases h
  · rw [hone] at h
    obtain rfl := List.mem_singleton.mp h
    exact hseverity

theorem translateFile_eq_ok {settings : Settings} {file : File} {t : Translation}
    (h : translateFile settings file = .ok t) :
    ∃ a, analyze settings.entry settings.mode file = .ok a ∧ t.text = (Emission.programLines a).text ∧
      t.diagnostics = a.fallbacks.map .notConstant ++ (Emission.chooseAssertion a).2 := by
  unfold translateFile at h
  split at h
  · cases h
  · split at h
    · cases h
    · split at h
      · cases h
      · rename_i a ha
        obtain rfl := Except.ok.inj h
        exact ⟨a, ha, rfl, rfl⟩

theorem notes_of_translateFile {settings : Settings} {file : File} {t : Translation}
    (h : translateFile settings file = .ok t) :
    t.notes = ((file.folded settings.entry settings.mode).filter (fun p => !p.2.exact)).map
      fun p => .notConstant p.1.name := by
  obtain ⟨a, ha, -, hdiagnostics⟩ := translateFile_eq_ok h
  obtain ⟨-, -, -, hfallbacks⟩ := analyze_eq_ok_iff.mp ha
  have hnotes : (a.fallbacks.map Diagnostic.notConstant).filter (fun d => d.severity = .info)
      = a.fallbacks.map .notConstant := by
    rw [List.filter_eq_self]
    intro d hd
    obtain ⟨name, -, rfl⟩ := List.mem_map.mp hd
    rfl
  have hwarnings : (Emission.chooseAssertion a).2.filter (fun d => d.severity = .info) = [] := by
    rw [List.filter_eq_nil_iff]
    intro d hd
    simp [Emission.severity_of_mem_chooseAssertion hd]
  rw [Translation.notes, hdiagnostics, List.filter_append, hnotes, hwarnings,
    List.append_nil, hfallbacks, Analysis.inexact, List.map_map]
  rfl

/-- A translation tells of the guessed values, by the names of their records and in the order of
the records; it tells of no others. A record is guessed exactly if the folding of its initial
value comes to a part that no rule applies to, or to a name that was bound to a guess when the
records before it had their values. A guess is `true` or `false`, never a number. -/
theorem guesses_reported {settings : Settings} {file : File} {t : Translation}
    (h : translateFile settings file = .ok t) :
    ∃ (a : Analysis) (records : List (Initializer × Folded)),
      analyze settings.entry settings.mode file = .ok a ∧
      records.map Prod.fst = file.initializers settings.entry ∧
      a.values = records.map (fun p => p.2.text) ∧
      t.notes = (records.filter (fun p => !p.2.exact)).map (fun p => .notConstant p.1.name) ∧
      ∀ (k : Nat) (i : Initializer) (v : Folded), records[k]? = some (i, v) →
        (v.exact = false ↔
          i.value.MeetsGuess settings.mode (.ofFolded (records.take k))) ∧
        (v.exact = false → v.text = "true" ∨ v.text = "false") := by
  obtain ⟨a, ha, -, -⟩ := translateFile_eq_ok h
  refine ⟨a, file.folded settings.entry settings.mode, ha, ?_, Analysis.values_eq ha,
    notes_of_translateFile h, ?_⟩
  · rw [File.folded_eq, foldAll_fst]
  · rw [File.folded_eq]
    intro k i v hv
    have hfold := foldAll_getElem? hv
    rw [List.append_nil] at hfold
    refine ⟨?_, Bindings.GuessesAreTruths.nil.foldAll _ _ (i, v) (List.mem_of_getElem? hv)⟩
    rw [hfold]
    exact Expr.fold_inexact_iff

/-- A limit that is a multiple of an unknown rate, its opposite, and a quotient of two numbers. -/
def openLimit : File :=
  ⟨"main", [],
    [.const [⟨["limit"], none, [.binary .mul (.ident "rate") (.literal ⟨.int, "2"⟩)]⟩],
      .function ⟨"main", none, ⟨[], []⟩, some
        [.assign [.ident "isOpen"] .define [.unary .not (.ident "limit")],
          .assign [.ident "size"] .define
            [.binary .div (.literal ⟨.int, "7"⟩) (.literal ⟨.int, "2"⟩)]]⟩]⟩

theorem guesses_reported_openLimit :
    ∃ t, translateFile ⟨.simplicityHL, "main", false, .environment⟩ openLimit = .ok t ∧
      t.notes = [.notConstant "limit", .notConstant "isOpen"] ∧
      ∃ (a : Analysis) (records : List (Initializer × Folded)),
        analyze "main" .environment openLimit = .ok a ∧ a.values = ["true", "false", "3"] ∧
        records.map Prod.fst = openLimit.initializers "main" ∧
        a.values = records.map (fun p => p.2.text) ∧
        t.notes = (records.filter (fun p => !p.2.exact)).map (fun p => .notConstant p.1.name) ∧
        ∀ (k : Nat) (i : Initializer) (v : Folded), records[k]? = some (i, v) →
          (v.exact = false ↔ i.value.MeetsGuess .environment (.ofFolded (records.take k))) ∧
          (v.exact = false → v.text = "true" ∨ v.text = "false") := by
  have hnotes : (translateFile ⟨.simplicityHL, "main", false, .environment⟩ openLimit).toOption.map
      (·.notes) = some [.notConstant "limit", .notConstant "isOpen"] := by
    decide
  have hvalues : (analyze "main" .environment openLimit).toOption.map (·.values)
      = some ["true", "false", "3"] := by
    decide
  cases ht : translateFile ⟨.simplicityHL, "main", false, .environment⟩ openLimit with
  | error e =>
    rw [ht] at hnotes
    cases hnotes
  | ok t =>
    obtain ⟨a, records, ha, hrecords⟩ := guesses_reported ht
    rw [ht] at hnotes
    rw [ha] at hvalues
    exact ⟨t, rfl, Option.some.inj hnotes, a, records, ha, Option.some.inj hvalues, hrecords⟩

end BoundedGo
