import BoundedGo.Proofs.Meaning
import BoundedGo.Proofs.Records

/-!
The values that the environment mode gives to the variables of a straight-line body, beside those
that the variables have when the body runs. The body declares variables and assigns to them; the
run follows both, and the environment only follows the declarations. So an exact witness holds
the value of a second run, which skips the assignments and in which no variable hides a truth
value.
Main statement: an exact witness is right exactly where the two runs agree, which they do as long
as no name is read after it was assigned to (`environment_values`).
-/
namespace BoundedGo

/-- What a statement of a straight-line body does. -/
inductive Effect
  | declare (name : String) (value : Expr)
  | assign (name : String) (value : Expr)

namespace Effect

def value : Effect → Expr
  | .declare _ value => value
  | .assign _ value => value

/-- The name and the value of a declaration. -/
def declared? : Effect → Option (String × Expr)
  | .declare name value => some (name, value)
  | .assign _ _ => none

end Effect

/-- The effect of a statement that declares one variable, or assigns to one. -/
def Stmt.effect? : Stmt → Option Effect
  | .declare (.var [⟨[name], none, [value]⟩]) => some (.declare name value)
  | .assign [.ident name] .define [value] => some (.declare name value)
  | .assign [.ident name] .assign [value] => some (.assign name value)
  | _ => none

namespace Expr

/-- Expressions of canonical decimal literals, names, parentheses and binary operators. -/
inductive IsPlain : Expr → Prop
  | literal {n : Nat} (h : n < 2 ^ 63) : IsPlain (.literal (.ofNat n))
  | ident (name : String) : IsPlain (.ident name)
  | paren {e : Expr} (h : IsPlain e) : IsPlain (.paren e)
  | binary (op : BinaryOp) {l r : Expr} (hl : IsPlain l) (hr : IsPlain r) :
    IsPlain (.binary op l r)

/-- The names that a plain expression reads. -/
def reads : Expr → List String
  | .ident name => [name]
  | .paren inner => inner.reads
  | .binary _ lhs rhs => lhs.reads ++ rhs.reads
  | _ => []

theorem value?_congr {κ : Literal → Option Nat} {σ τ : Store} {e : Expr} (he : e.IsPlain)
    (h : ∀ name ∈ e.reads, σ name = τ name) : e.value? κ σ = e.value? κ τ := by
  induction he with
  | literal _ => rfl
  | ident name => exact h name (by simp [reads])
  | paren _ ih => exact ih h
  | binary op _ _ ihl ihr =>
    simp only [value?, ihl fun name hname => h name (List.mem_append_left _ hname),
      ihr fun name hname => h name (List.mem_append_right _ hname)]

end Expr

namespace Store

/-- Gives a variable a value. The blank name takes any value and has none. -/
def bind (σ : Store) (name : String) (v : Option Value) : Store := fun other =>
  if other = name ∧ name ≠ "_" then v else σ other

theorem bind_same (σ : Store) {name : String} (h : name ≠ "_") (v : Option Value) :
    σ.bind name v name = v := if_pos ⟨rfl, h⟩

theorem bind_other (σ : Store) {name other : String} (v : Option Value) (h : other ≠ name) :
    σ.bind name v other = σ other := if_neg fun hboth => h hboth.1

theorem bind_blank (σ : Store) (v : Option Value) : σ.bind "_" v = σ :=
  funext fun _ => if_neg fun hboth => hboth.2 rfl

/-- What folding sees: no variable hides a truth value. -/
def unhidden (ρ : Store) : Store := fun name => predeclared name <|> ρ name

end Store

namespace Effect

/-- The values that the declared variables get when the effects happen in order. Only variables
that are declared can be assigned to. -/
def run : Store → List Effect → Option (List Value)
  | _, [] => some []
  | σ, .declare name value :: es => do
    let v ← value.value? Literal.value? σ.visible
    let vs ← run (σ.bind name v) es
    return v :: vs
  | σ, .assign name value :: es => do
    let v ← value.value? Literal.value? σ.visible
    if name = "_" ∨ (σ name).isSome then run (σ.bind name v) es else none

/-- The values of the second run, which skips the assignments. -/
def recorded : Store → List Effect → List (Option Value)
  | _, [] => []
  | ρ, .declare name value :: es =>
    let v := value.value? Literal.value? ρ.unhidden
    v :: recorded (ρ.bind name v) es
  | ρ, .assign _ _ :: es => recorded ρ es

/-- What is stale behind the declaration of a name: the name no longer is, unless it is that of a
truth value or the blank name. -/
def staleAfter (stale : List String) (name : String) : List String :=
  if name ∈ ["true", "false", "_"] then name :: stale else stale.filter (· ≠ name)

/-- Whether no declaration reads a name that was assigned to since it was declared, or a variable
with the name of a truth value. The names of either kind so far are given. -/
def ReadsFresh : List String → List Effect → Prop
  | _, [] => True
  | stale, .declare name value :: es =>
    (∀ read ∈ value.reads, read ∉ stale) ∧ ReadsFresh (staleAfter stale name) es
  | stale, .assign name _ :: es => ReadsFresh (name :: stale) es

end Effect

/-- The exact bindings of the variables have the texts of the values of the second run. No
variable has the blank name. -/
structure Tracks (σ ρ : Store) (env : Bindings) : Prop where
  blank : σ "_" = none
  exact_binding : ∀ name f, (σ name).isSome → env.lookup name = some f → f.exact →
    ∃ w, ρ name = some w ∧ w.IsWord ∧ f.text = w.text

/-- What folding says to be exact is the value of the second run. -/
theorem Expr.IsPlain.fold_exact {e : Expr} (he : e.IsPlain) {σ ρ : Store} {env : Bindings}
    (htracks : Tracks σ ρ env) {v : Value} (hval : e.value? Literal.value? σ.visible = some v)
    (hexact : (e.fold .environment env).exact) :
    ∃ w, e.value? Literal.value? ρ.unhidden = some w ∧ w.IsWord ∧
      (e.fold .environment env).text = w.text := by
  induction he generalizing v with
  | @literal n hn =>
    refine ⟨.number n, ?_, ?_, (Text.signedDecimal_natCast n).symm⟩
    · simp [Expr.value?, Literal.value?_ofNat (show n < Literal.wordBound by
        unfold Literal.wordBound; omega)]
    · constructor <;> omega
  | ident name =>
    by_cases htrue : name = "true"
    · subst htrue
      exact ⟨.truth true, rfl, trivial, rfl⟩
    by_cases hfalse : name = "false"
    · subst hfalse
      exact ⟨.truth false, rfl, trivial, rfl⟩
    have hpre : Store.predeclared name = none := by simp [Store.predeclared, htrue, hfalse]
    have hsome : (σ name).isSome := by
      simp only [Expr.value?, Store.visible, hpre] at hval
      cases hσ : σ name with
      | none => simp [hσ] at hval
      | some _ => rfl
    have hfold : (Expr.ident name).fold .environment env = (env.lookup name).getD .fallback := by
      simp [Expr.fold, htrue, hfalse, Fold.lookup]
    rw [hfold] at hexact ⊢
    cases hlookup : env.lookup name with
    | none => simp [hlookup, Folded.fallback] at hexact
    | some f =>
      rw [hlookup] at hexact
      obtain ⟨w, hw, hword, htext⟩ := htracks.exact_binding name f hsome hlookup hexact
      exact ⟨w, by simp [Expr.value?, Store.unhidden, hpre, hw], hword, htext⟩
  | paren _ ih => exact ih hval hexact
  | @binary op l r _ _ ihl ihr =>
    simp only [Expr.value?] at hval
    cases hlval : l.value? Literal.value? σ.visible with
    | none => simp [hlval] at hval
    | some a =>
      cases hrval : r.value? Literal.value? σ.visible with
      | none => simp [hlval, hrval] at hval
      | some b =>
        obtain ⟨hl, hr, n, m, w, hn, hm, hw, htext⟩ := Fold.combine_exact hexact
        obtain ⟨x, hx, hxword, hxtext⟩ := ihl hlval hl
        obtain ⟨y, hy, hyword, hytext⟩ := ihr hrval hr
        rw [Folded.word?, hxtext] at hn
        rw [Folded.word?, hytext] at hm
        obtain rfl := Value.eq_number_of_readWord? hxword hn
        obtain rfl := Value.eq_number_of_readWord? hyword hm
        refine ⟨w, ?_, Value.isWord_of_onNumbers? hw, htext⟩
        simp only [Expr.value?, hx, hy]
        exact hw

theorem Store.bind_at_blank {σ : Store} (h : σ "_" = none) (name : String) (v : Option Value) :
    σ.bind name v "_" = none := by
  by_cases hname : name = "_"
  · rw [hname, bind_blank, h]
  · rw [bind_other _ _ (Ne.symm hname), h]

namespace Tracks

/-- Before the first declaration nothing is said of the bindings that are there. -/
theorem init (ρ : Store) (env : Bindings) : Tracks (fun _ => none) ρ env :=
  ⟨rfl, fun _ _ h => nomatch h⟩

/-- Assignments change no binding, and what is declared stays declared. -/
theorem assign {σ ρ : Store} {env : Bindings} (h : Tracks σ ρ env) {name : String}
    (hname : name = "_" ∨ (σ name).isSome) (v : Value) : Tracks (σ.bind name v) ρ env := by
  refine ⟨Store.bind_at_blank h.blank name v, fun other f hsome => ?_⟩
  refine h.exact_binding other f ?_
  by_cases hblank : name = "_"
  · rwa [hblank, Store.bind_blank] at hsome
  · by_cases hother : other = name
    · subst hother
      exact hname.resolve_left hblank
    · rwa [Store.bind_other _ _ hother] at hsome

theorem declare {σ ρ : Store} {env : Bindings} (h : Tracks σ ρ env) {name : String} (v : Value)
    {r : Option Value} {f : Folded}
    (hf : f.exact → ∃ w, r = some w ∧ w.IsWord ∧ f.text = w.text) :
    Tracks (σ.bind name v) (ρ.bind name r) ((name, f) :: env) := by
  have hblank := Store.bind_at_blank h.blank name v
  refine ⟨hblank, fun other g hsome hlookup hexact => ?_⟩
  by_cases hother : other = name
  · subst hother
    obtain rfl : f = g := by simpa using hlookup
    have hne : other ≠ "_" := by
      rintro rfl
      rw [hblank] at hsome
      cases hsome
    rw [Store.bind_same _ hne]
    exact hf hexact
  · have hne : (other == name) = false := by simpa using hother
    rw [Store.bind_other _ _ hother] at hsome ⊢
    exact h.exact_binding other g hsome (by simpa [List.lookup_cons, hne] using hlookup) hexact

end Tracks

namespace Effect

/-- The initial values of a straight-line body are those of its declarations. -/
theorem initializers_eq {body : List Stmt} {es : List Effect}
    (h : body.mapM Stmt.effect? = some es) :
    (body.flatMap Initializer.ofStmt).map (fun i => (i.name, i.value))
      = es.filterMap declared? := by
  induction body generalizing es with
  | nil =>
    obtain rfl : [] = es := by simpa using h
    rfl
  | cons s body ih =>
    simp only [List.mapM_cons, Option.bind_eq_bind, Option.bind_eq_some_iff, Option.pure_def,
      Option.some.injEq] at h
    obtain ⟨e, he, rest, hrest, rfl⟩ := h
    have hfirst : (Initializer.ofStmt s).map (fun i => (i.name, i.value))
        = (declared? e).toList := by
      unfold Stmt.effect? at he
      split at he <;> cases he <;> rfl
    rw [List.flatMap_cons, List.map_append, hfirst, ih hrest]
    cases hd : declared? e <;> simp [hd]

/-- Every exact value is that of the second run. -/
theorem foldAll_follows {es : List Effect} (hplain : ∀ e ∈ es, e.value.IsPlain) {σ ρ : Store}
    {env : Bindings} (h : Tracks σ ρ env) {vs : List Value} (hrun : run σ es = some vs)
    {is : List Initializer} (his : is.map (fun i => (i.name, i.value)) = es.filterMap declared?) :
    List.Forall₂ (fun p r => p.2.exact → ∃ w, r = some w ∧ p.2.text = w.text)
      (foldAll .environment env is) (recorded ρ es) := by
  induction es generalizing σ ρ env vs is with
  | nil =>
    obtain rfl : is = [] := by simpa using his
    exact .nil
  | cons e es ih =>
    have hrest : ∀ e ∈ es, e.value.IsPlain := fun e he => hplain e (List.mem_cons_of_mem _ he)
    cases e with
    | assign name value =>
      simp only [run, Option.bind_eq_bind, Option.bind_eq_some_iff] at hrun
      obtain ⟨v, -, hrun⟩ := hrun
      split at hrun
      · rename_i hname
        exact ih hrest (h.assign hname v) hrun his
      · cases hrun
    | declare name value =>
      simp only [run, Option.bind_eq_bind, Option.bind_eq_some_iff] at hrun
      obtain ⟨v, hv, rest, hrun, -⟩ := hrun
      simp only [List.filterMap_cons, declared?, List.map_eq_cons_iff] at his
      obtain ⟨i, is, rfl, hi, his⟩ := his
      obtain ⟨rfl, rfl⟩ := Prod.mk.inj hi
      have hvalue : Expr.IsPlain i.value := hplain (.declare i.name i.value) List.mem_cons_self
      have hfold := fun hexact => hvalue.fold_exact h hv hexact
      refine .cons ?_ (ih hrest (h.declare v hfold) hrun his)
      intro hexact
      obtain ⟨w, hw, -, htext⟩ := hfold hexact
      exact ⟨w, hw, htext⟩

theorem length_of_run {σ : Store} {es : List Effect} {vs : List Value} (h : run σ es = some vs) :
    vs.length = (es.filterMap declared?).length := by
  induction es generalizing σ vs with
  | nil =>
    obtain rfl := Option.some.inj h
    rfl
  | cons e es ih =>
    cases e with
    | assign name value =>
      simp only [run, Option.bind_eq_bind, Option.bind_eq_some_iff] at h
      obtain ⟨v, -, h⟩ := h
      split at h
      · simpa [declared?, List.filterMap_cons] using ih h
      · cases h
    | declare name value =>
      simp only [run, Option.bind_eq_bind, Option.bind_eq_some_iff, Option.pure_def,
        Option.some.injEq] at h
      obtain ⟨v, -, rest, hrest, rfl⟩ := h
      simpa [declared?, List.filterMap_cons] using ih hrest

/-- Whether both runs see the same values, but for the stale names. -/
def Agree (stale : List String) (σ ρ : Store) : Prop :=
  ∀ name, name ∉ stale → ρ.unhidden name = σ.visible name

theorem Agree.assign {stale : List String} {σ ρ : Store} (h : Agree stale σ ρ) (name : String)
    (v : Value) : Agree (name :: stale) (σ.bind name v) ρ := by
  intro other hother
  rw [List.mem_cons, not_or] at hother
  obtain ⟨hne, hstale⟩ := hother
  rw [h other hstale, Store.visible, Store.visible, Store.bind_other _ _ hne]

theorem Agree.declare {stale : List String} {σ ρ : Store} (h : Agree stale σ ρ) (name : String)
    (v : Value) : Agree (staleAfter stale name) (σ.bind name v) (ρ.bind name v) := by
  intro other hother
  unfold staleAfter at hother
  have hkeep : other ≠ name → other ∉ stale →
      (ρ.bind name v).unhidden other = (σ.bind name v).visible other := by
    intro hne hstale
    rw [Store.unhidden, Store.visible, Store.bind_other _ _ hne, Store.bind_other _ _ hne]
    exact h other hstale
  split at hother
  · rw [List.mem_cons, not_or] at hother
    obtain ⟨hne, hstale⟩ := hother
    exact hkeep hne hstale
  · rename_i hname
    by_cases hne : other = name
    · subst hne
      simp only [List.mem_cons, List.not_mem_nil, or_false, not_or] at hname
      obtain ⟨htrue, hfalse, hblank⟩ := hname
      simp [Store.unhidden, Store.visible, Store.bind_same _ hblank, Store.predeclared, htrue,
        hfalse]
    · exact hkeep hne fun hmem => hother (List.mem_filter.mpr ⟨hmem, by simpa using hne⟩)

/-- Where nothing stale is read, the second run is the first one. -/
theorem recorded_eq_of_readsFresh {stale : List String} {es : List Effect}
    (hplain : ∀ e ∈ es, e.value.IsPlain) (hfresh : ReadsFresh stale es) {σ ρ : Store}
    (hagree : Agree stale σ ρ) {vs : List Value} (hrun : run σ es = some vs) :
    recorded ρ es = vs.map some := by
  induction es generalizing stale σ ρ vs with
  | nil =>
    obtain rfl := Option.some.inj hrun
    rfl
  | cons e es ih =>
    have hrest : ∀ e ∈ es, e.value.IsPlain := fun e he => hplain e (List.mem_cons_of_mem _ he)
    cases e with
    | assign name value =>
      simp only [run, Option.bind_eq_bind, Option.bind_eq_some_iff] at hrun
      obtain ⟨v, -, hrun⟩ := hrun
      split at hrun
      · exact ih hrest hfresh (hagree.assign name v) hrun
      · cases hrun
    | declare name value =>
      simp only [run, Option.bind_eq_bind, Option.bind_eq_some_iff, Option.pure_def,
        Option.some.injEq] at hrun
      obtain ⟨v, hv, rest, hrun, rfl⟩ := hrun
      obtain ⟨hreads, hfresh⟩ := hfresh
      have hvalue : Expr.IsPlain value := hplain (.declare name value) List.mem_cons_self
      have hsame : value.value? Literal.value? ρ.unhidden = some v := by
        rw [← hv]
        exact Expr.value?_congr hvalue fun read hread => hagree read (hreads read hread)
      rw [recorded, hsame, List.map_cons, ih hrest hfresh (hagree.declare name v) hrun]

end Effect

/-- An exact witness of a straight-line body has the value of the run exactly where the second
run has it too; and where no declaration reads a stale name, all exact witnesses have it. -/
theorem environment_values {entry : String} {file : File} {a : Analysis}
    (ha : analyze entry .environment file = .ok a) {es : List Effect}
    (hbody : (file.entryBody entry).mapM Stmt.effect? = some es)
    (hplain : ∀ e ∈ es, e.value.IsPlain) {vs : List Value}
    (hrun : Effect.run (fun _ => none) es = some vs) :
    a.witnesses.length = vs.length ∧
    ∀ (k : Nat) name value, (es.filterMap Effect.declared?)[k]? = some (name, value) →
      ∃ (w : Witness) (v : Value), a.witnesses[k]? = some w ∧ vs[k]? = some v ∧
        w.name = Text.snakeCase name ∧
        (name ∉ a.fallbacks →
          (w.value = v.text ↔ (Effect.recorded (fun _ => none) es)[k]? = some (some v)) ∧
          (Effect.ReadsFresh [] es → w.value = v.text)) := by
  obtain ⟨-, hwitnesses, -, hfallbacks⟩ := analyze_eq_ok_iff.mp ha
  have hinits := Effect.initializers_eq hbody
  have hfollows := Effect.foldAll_follows hplain (.init (fun _ => none) (file.entryBindings
    .environment)) hrun hinits
  have hlength := Effect.length_of_run hrun
  have hfst : (file.foldedWitnesses entry .environment).map Prod.fst
      = file.witnessInitializers entry := foldAll_fst _ _ _
  have hdeclared :
      (file.foldedWitnesses entry .environment).map (fun p => (p.1.name, p.1.value))
        = es.filterMap Effect.declared? := by
    rw [← hinits, ← File.witnessInitializers, ← hfst, List.map_map]
    rfl
  refine ⟨?_, fun k name value hk => ?_⟩
  · rw [hlength, ← hdeclared, List.length_map, hwitnesses.length_eq]
  · have hlt : k < vs.length := by
      rw [hlength]
      exact (List.getElem?_eq_some_iff.mp hk).1
    rw [← hdeclared, List.getElem?_map, Option.map_eq_some_iff] at hk
    obtain ⟨p, hp, hpname⟩ := hk
    obtain ⟨rfl, rfl⟩ := Prod.mk.inj hpname
    obtain ⟨w, hw, hwitness⟩ := exists_getElem?_of_forall₂ hwitnesses hp
    obtain ⟨r, hr, hexact⟩ := exists_getElem?_of_forall₂ hfollows hp
    obtain ⟨hwname, hwvalue⟩ := Analysis.eq_of_witness_eq_ok hwitness
    refine ⟨w, vs[k], hw, List.getElem?_eq_getElem hlt, hwname, fun hname => ?_⟩
    obtain ⟨u, rfl, htext⟩ := hexact (Analysis.exact_of_not_mem_inexact
      (List.mem_append_right _ (List.mem_of_getElem? hp)) (hfallbacks ▸ hname))
    have hiff : w.value = vs[k].text ↔
        (Effect.recorded (fun _ => none) es)[k]? = some (some vs[k]) := by
      rw [hwvalue, htext, hr, Option.some.injEq, Option.some.injEq]
      exact Value.text_injective.eq_iff
    refine ⟨hiff, fun hfresh => hiff.mpr ?_⟩
    have hagree : Effect.Agree [] (fun _ => none) (fun _ => none) := fun _ _ => by
      simp [Store.unhidden, Store.visible]
    rw [Effect.recorded_eq_of_readsFresh hplain hfresh hagree hrun, List.getElem?_map,
      List.getElem?_eq_getElem hlt]
    rfl

/-- A number as an expression. -/
def Expr.ofNat (n : Nat) : Expr := .literal (.ofNat n)

/-- An assignment to a name that is not read behind it does no harm. -/
theorem environment_values_of_fresh :
    ∃ a w, analyze "main" .environment (.ofMain
        [.assign [.ident "x"] .define [.ofNat 1],
          .declare (.var [⟨["y"], none, [.binary .mul (.ident "x") (.ofNat 3)]⟩]),
          .assign [.ident "x"] .assign [.ofNat 7],
          .assign [.ident "z"] .define [.binary .add (.ident "y") (.ofNat 1)]]) = .ok a ∧
      a.witnesses[2]? = some w ∧ w.value = (Value.number 4).text := by
  have hplain : ∀ e ∈ [Effect.declare "x" (.ofNat 1),
      .declare "y" (.binary .mul (.ident "x") (.ofNat 3)), .assign "x" (.ofNat 7),
      .declare "z" (.binary .add (.ident "y") (.ofNat 1))], e.value.IsPlain := by
    intro e he
    simp only [List.mem_cons, List.not_mem_nil, or_false] at he
    rcases he with rfl | rfl | rfl | rfl
    · exact .literal (by decide)
    · exact .binary .mul (.ident "x") (.literal (by decide))
    · exact .literal (by decide)
    · exact .binary .add (.ident "y") (.literal (by decide))
  have hrun : Effect.run (fun _ => none) [.declare "x" (.ofNat 1),
      .declare "y" (.binary .mul (.ident "x") (.ofNat 3)), .assign "x" (.ofNat 7),
      .declare "z" (.binary .add (.ident "y") (.ofNat 1))]
      = some [.number 1, .number 3, .number 4] := by decide
  have ha : analyze "main" .environment (.ofMain
      [.assign [.ident "x"] .define [.ofNat 1],
        .declare (.var [⟨["y"], none, [.binary .mul (.ident "x") (.ofNat 3)]⟩]),
        .assign [.ident "x"] .assign [.ofNat 7],
        .assign [.ident "z"] .define [.binary .add (.ident "y") (.ofNat 1)]])
      = .ok ⟨[⟨"x", .deferred, "1"⟩, ⟨"y", .known "u64", "3"⟩, ⟨"z", .deferred, "4"⟩],
        [], [], []⟩ := rfl
  obtain ⟨-, hvalues⟩ := environment_values ha rfl hplain hrun
  obtain ⟨w, v, hw, hv, -, hexact⟩ := hvalues 2 "z" _ rfl
  obtain rfl : Value.number 4 = v := Option.some.inj hv
  have hfresh := (hexact List.not_mem_nil).2
  refine ⟨_, w, ha, hw, hfresh ?_⟩
  simp [Effect.ReadsFresh, Effect.staleAfter, Expr.reads, Expr.ofNat]

/-- A name that is read behind an assignment has its old value, and it is said to be exact. -/
theorem environment_value_stale :
    analyze "main" .environment (.ofMain
        [.assign [.ident "x"] .define [.ofNat 1], .assign [.ident "x"] .assign [.ofNat 2],
          .assign [.ident "y"] .define [.ident "x"]])
      = .ok ⟨[⟨"x", .deferred, "1"⟩, ⟨"y", .deferred, "1"⟩], [], [], []⟩ ∧
    Effect.run (fun _ => none)
        [.declare "x" (.ofNat 1), .assign "x" (.ofNat 2), .declare "y" (.ident "x")]
      = some [.number 1, .number 2] := by
  refine ⟨?_, ?_⟩
  · rfl
  · decide

end BoundedGo
