import BoundedGo.Proofs.Meaning
import BoundedGo.Proofs.Records

/-!
The two modes of an analysis side by side. In the approximate mode nothing is read from the
bindings, so an exact value is made of literals and truth values only; the environment mode comes
to the same value, whatever is bound. Types and functions do not depend on values at all. So the
environment mode fails where the approximate mode fails, and where both succeed it only replaces
values that were not exact.
Main statement: an analysis in the environment mode refines the one in the approximate mode
(`environment_refines_approximate`).
-/
namespace BoundedGo

/-- Values that the approximate mode finds exactly are found in the environment mode too, whatever
is bound in either of them. -/
theorem Expr.fold_eq_of_exact {e : Expr} {env : Bindings} (env' : Bindings)
    (h : (e.fold .approximate env).exact) :
    e.fold .environment env' = e.fold .approximate env := by
  induction e using Expr.fold.induct .approximate with
  | case1 l => rfl
  | case2 name hname => simp [Expr.fold, hname]
  | case3 name hname =>
    have hfold : (Expr.ident name).fold .approximate env = .fallback := by
      simp [Expr.fold, hname, Fold.lookup]
    rw [hfold] at h
    cases h
  | case4 inner ih => exact ih h
  | case5 operand ih =>
    have hexact : (operand.fold .approximate env).exact := by
      have hnegate : ((operand.fold .approximate env).negate).exact := h
      unfold Folded.negate at hnegate
      split at hnegate
      · exact hnegate
      · cases hnegate
    rw [Expr.fold, Expr.fold, ih hexact]
  | case6 op lhs rhs ihl ihr =>
    have hcombine : (Fold.combine op (lhs.fold .approximate env)
        (rhs.fold .approximate env)).exact := h
    obtain ⟨hl, hr, -⟩ := Fold.combine_exact hcombine
    rw [Expr.fold, Expr.fold, ihl hl, ihr hr]
  | case7 name argument hmode => exact absurd hmode.1 nofun
  | case8 name argument hmode =>
    rw [Expr.fold, if_neg hmode] at h
    cases h
  | case9 e hliteral hident hparen hnot hbinary hcall =>
    have hfold : e.fold .approximate env = .fallback := by
      rw [Expr.fold]
      all_goals assumption
    rw [hfold] at h
    cases h

/-- A value of the environment mode beside the one of the approximate mode: it belongs to the same
name, and what was exact is kept. -/
def Folded.Kept (p q : Initializer × Folded) : Prop :=
  q.1 = p.1 ∧ (p.2.exact → q.2 = p.2)

theorem foldAll_kept (env env' : Bindings) (is : List Initializer) :
    List.Forall₂ Folded.Kept (foldAll .approximate env is) (foldAll .environment env' is) := by
  induction is generalizing env env' with
  | nil => exact .nil
  | cons i is ih => exact .cons ⟨rfl, fun h => Expr.fold_eq_of_exact env' h⟩ (ih _ _)

namespace File

/-- What the records of an analysis are made from, those of the constants first. -/
def folded (file : File) (entry : String) (mode : EvalMode) : List (Initializer × Folded) :=
  file.foldedConstants mode ++ file.foldedWitnesses entry mode

theorem folded_kept (file : File) (entry : String) :
    List.Forall₂ Folded.Kept (file.folded entry .approximate)
      (file.folded entry .environment) :=
  List.rel_append (foldAll_kept _ _ _) (foldAll_kept _ _ _)

end File

namespace Analysis

theorem inexact_sublist {ps qs : List (Initializer × Folded)}
    (h : List.Forall₂ Folded.Kept ps qs) : (inexact qs).Sublist (inexact ps) := by
  induction h with
  | nil => exact .slnil
  | @cons p q ps qs hkept _ ih =>
    obtain ⟨hname, hvalue⟩ := hkept
    by_cases hp : p.2.exact
    · have hq : q.2.exact := by
        rw [hvalue hp]
        exact hp
      simpa [inexact, hp, hq] using ih
    · by_cases hq : q.2.exact
      · have hlonger : (inexact qs).Sublist (p.1.name :: inexact ps) := .cons _ ih
        simpa [inexact, hp, hq] using hlonger
      · have hlonger : (q.1.name :: inexact qs).Sublist (p.1.name :: inexact ps) := by
          rw [hname]
          exact .cons_cons _ ih
        simpa [inexact, hp, hq] using hlonger

/-- The values of all records, those of the constants first. -/
def values (a : Analysis) : List String :=
  a.constants.map (·.value) ++ a.witnesses.map (·.value)

theorem value_of_constant_eq_ok {i : Initializer} {v : Folded} {c : Constant}
    (h : constant i v = .ok c) : c.value = v.text := by
  obtain ⟨type, rfl, -⟩ := constant_eq_ok h
  rfl

/-- The values of the records are the texts that folding gives. -/
theorem values_eq {entry : String} {mode : EvalMode} {file : File} {a : Analysis}
    (h : analyze entry mode file = .ok a) :
    a.values = (file.folded entry mode).map (fun p => p.2.text) := by
  obtain ⟨hconstants, hwitnesses, -, -⟩ := analyze_eq_ok_iff.mp h
  have hc : (file.foldedConstants mode).map (fun p => p.2.text) = a.constants.map (·.value) := by
    rw [← List.forall₂_eq_eq_eq, List.forall₂_map_left_iff, List.forall₂_map_right_iff]
    exact hconstants.imp fun p c hc => (value_of_constant_eq_ok hc).symm
  have hw : (file.foldedWitnesses entry mode).map (fun p => p.2.text)
      = a.witnesses.map (·.value) := by
    rw [← List.forall₂_eq_eq_eq, List.forall₂_map_left_iff, List.forall₂_map_right_iff]
    exact hwitnesses.imp fun p w hw => (eq_of_witness_eq_ok hw).2.symm
  rw [values, File.folded, List.map_append, hc, hw]

end Analysis

/-- The same error, or results that are related. -/
def OutcomesAgree {ε α β : Type} (R : α → β → Prop) : Except ε α → Except ε β → Prop
  | .ok a, .ok b => R a b
  | .error e, .error e' => e = e'
  | _, _ => False

namespace OutcomesAgree

variable {ε α β γ δ : Type} {R : α → β → Prop} {S : γ → δ → Prop}

theorem refl (x : Except ε α) : OutcomesAgree (· = ·) x x := by
  cases x with
  | error e => exact rfl
  | ok a => exact rfl

theorem bind {x : Except ε α} {y : Except ε β} {f : α → Except ε γ} {g : β → Except ε δ}
    (h : OutcomesAgree R x y) (hfg : ∀ a b, R a b → OutcomesAgree S (f a) (g b)) :
    OutcomesAgree S (x >>= f) (y >>= g) := by
  cases x with
  | error e =>
    cases y with
    | error e' => exact h
    | ok b => exact h.elim
  | ok a =>
    cases y with
    | error e' => exact h.elim
    | ok b => exact hfg a b h

/-- Where both succeed, more may be known of the results. -/
theorem imp {T : α → β → Prop} {x : Except ε α} {y : Except ε β} (h : OutcomesAgree R x y)
    (hRT : ∀ a b, x = .ok a → y = .ok b → R a b → T a b) : OutcomesAgree T x y := by
  cases x with
  | error e =>
    cases y with
    | error e' => exact h
    | ok b => exact h.elim
  | ok a =>
    cases y with
    | error e' => exact h.elim
    | ok b => exact hRT a b rfl rfl h

theorem mapM {f : α → Except ε γ} {g : β → Except ε δ} {xs : List α} {ys : List β}
    (h : List.Forall₂ (fun x y => OutcomesAgree S (f x) (g y)) xs ys) :
    OutcomesAgree (List.Forall₂ S) (xs.mapM f) (ys.mapM g) := by
  induction h with
  | nil => exact .nil
  | cons hxy _ ih =>
    rw [List.mapM_cons, List.mapM_cons]
    exact bind hxy fun a b hab => bind ih fun as bs habs => .cons hab habs

end OutcomesAgree

namespace Analysis

/-- The type of a record depends on its declaration only. -/
theorem constant_agree {p q : Initializer × Folded} (h : q.1 = p.1) :
    OutcomesAgree (fun c d => d.name = c.name ∧ d.type = c.type)
      (constant p.1 p.2) (constant q.1 q.2) := by
  rw [h]
  unfold constant
  split
  · refine .bind (.refl _) fun type type' htype => ?_
    obtain rfl := htype
    exact ⟨rfl, rfl⟩
  · exact ⟨rfl, rfl⟩

theorem witness_agree {p q : Initializer × Folded} (h : q.1 = p.1) :
    OutcomesAgree (fun w u => u.name = w.name ∧ u.type = w.type)
      (witness p.1 p.2) (witness q.1 q.2) := by
  rw [h]
  unfold witness
  split
  · refine .bind (.refl _) fun type type' htype => ?_
    obtain rfl := htype
    exact ⟨rfl, rfl⟩
  · exact ⟨rfl, rfl⟩

/-- The analysis `b` of a file in the environment mode beside its analysis `a` in the approximate
mode. -/
structure Refines (file : File) (entry : String) (a b : Analysis) : Prop where
  helpers : b.helpers = a.helpers
  constants : List.Forall₂ (fun c d => d.name = c.name ∧ d.type = c.type) a.constants b.constants
  witnesses : List.Forall₂ (fun w u => u.name = w.name ∧ u.type = w.type) a.witnesses b.witnesses
  /-- The fallbacks are the names of the values that are not exact. -/
  reported : a.fallbacks = inexact (file.folded entry .approximate) ∧
    b.fallbacks = inexact (file.folded entry .environment)
  fallbacks : b.fallbacks.Sublist a.fallbacks
  /-- The value of an exact record is the same and still exact. -/
  exact_values : ∀ (k : Nat) i v, (file.folded entry .approximate)[k]? = some (i, v) → v.exact →
    a.values[k]? = some v.text ∧ b.values[k]? = some v.text ∧
      (file.folded entry .environment)[k]? = some (i, v)

end Analysis

open Analysis in
/-- Whether an analysis succeeds, and with which names, types and functions, does not depend on
the mode. -/
theorem analyze_agree (entry : String) (file : File) :
    OutcomesAgree (fun a b => b.helpers = a.helpers ∧
        List.Forall₂ (fun c d => d.name = c.name ∧ d.type = c.type) a.constants b.constants ∧
        List.Forall₂ (fun w u => u.name = w.name ∧ u.type = w.type) a.witnesses b.witnesses)
      (analyze entry .approximate file) (analyze entry .environment file) := by
  have hconstants := foldAll_kept [] [] file.constantInitializers
  have hwitnesses := foldAll_kept (file.entryBindings .approximate)
    (file.entryBindings .environment) (file.witnessInitializers entry)
  refine .bind (.mapM (hconstants.imp fun p q hpq => constant_agree hpq.1)) fun cs ds hcs => ?_
  refine .bind (.mapM (hwitnesses.imp fun p q hpq => witness_agree hpq.1)) fun ws us hws => ?_
  refine .bind (.refl _) fun hs hs' hhs => ?_
  obtain rfl := hhs
  exact ⟨rfl, hcs, hws⟩

open Analysis in
/-- In the environment mode an analysis fails with the error of the approximate mode, or it
succeeds with it and refines it. -/
theorem environment_refines_approximate (entry : String) (file : File) :
    OutcomesAgree (Refines file entry) (analyze entry .approximate file)
      (analyze entry .environment file) := by
  refine (analyze_agree entry file).imp fun a b ha hb hagree => ?_
  obtain ⟨hhelpers, hconstants, hwitnesses⟩ := hagree
  obtain ⟨-, -, -, hbefore⟩ := analyze_eq_ok_iff.mp ha
  obtain ⟨-, -, -, hafter⟩ := analyze_eq_ok_iff.mp hb
  have hkept := file.folded_kept entry
  refine ⟨hhelpers, hconstants, hwitnesses, ⟨hbefore, hafter⟩, ?_, ?_⟩
  · rw [hbefore, hafter]
    exact inexact_sublist hkept
  · intro k i v hv hexact
    obtain ⟨q, hq, hname, hvalue⟩ := exists_getElem?_of_forall₂ hkept hv
    obtain rfl : q = (i, v) := Prod.ext hname (hvalue hexact)
    refine ⟨?_, ?_, hq⟩
    · rw [values_eq ha, List.getElem?_map, hv]
      rfl
    · rw [values_eq hb, List.getElem?_map, hq]
      rfl

end BoundedGo
