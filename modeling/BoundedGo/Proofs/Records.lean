import BoundedGo.Analysis
import Mathlib.Data.List.Forall2

/-!
What an analysis consists of. An analysis that succeeds has one record for every initial value
and for every function but the entry, in the order of the source; it fails as soon as one of them
has no record.
Main statement: an analysis succeeds exactly with these records, and its inexact names are those
of the constants followed by those of the witnesses (`analyze_eq_ok_iff`).
-/
namespace BoundedGo

namespace File

/-- The constants with their folded values. -/
def foldedConstants (file : File) (mode : EvalMode) : List (Initializer × Folded) :=
  foldAll mode [] file.constantInitializers

/-- What is bound when the body of the entry function starts. -/
def entryBindings (file : File) (mode : EvalMode) : Bindings :=
  bindAll [] (file.foldedConstants mode)

/-- The variables of the entry function with their folded values. -/
def foldedWitnesses (file : File) (entry : String) (mode : EvalMode) :
    List (Initializer × Folded) :=
  foldAll mode (file.entryBindings mode) (file.witnessInitializers entry)

/-- The functions that are translated. -/
def helperDecls (file : File) (entry : String) : List FunctionDecl :=
  file.functions.filter (fun f => f.name ≠ entry)

/-- The program of one function. -/
def ofFunction (f : FunctionDecl) : File := ⟨"main", [], [.function f]⟩

/-- The program of the entry function alone. -/
def ofMain (body : List Stmt) : File :=
  ofFunction ⟨"main", none, ⟨[], []⟩, some body⟩

end File

theorem bind_eq_ok_iff {ε α β : Type} {x : Except ε α} {f : α → Except ε β} {b : β} :
    (x >>= f) = .ok b ↔ ∃ a, x = .ok a ∧ f a = .ok b := by
  cases x with
  | error e =>
    refine ⟨fun h => ?_, ?_⟩
    · cases h
    · rintro ⟨_, h, -⟩
      cases h
  | ok a =>
    refine ⟨fun h => ⟨a, rfl, h⟩, ?_⟩
    rintro ⟨_, h, hf⟩
    obtain rfl := Except.ok.inj h
    exact hf

/-- A list is mapped without error when each of its members is. -/
theorem mapM_eq_ok_iff {ε α β : Type} {f : α → Except ε β} {xs : List α} {ys : List β} :
    xs.mapM f = .ok ys ↔ List.Forall₂ (fun x y => f x = .ok y) xs ys := by
  induction xs generalizing ys with
  | nil =>
    rw [List.mapM_nil, List.forall₂_nil_left_iff]
    exact ⟨fun h => (Except.ok.inj h).symm, fun h => congrArg Except.ok h.symm⟩
  | cons x xs ih =>
    simp only [List.mapM_cons, bind_eq_ok_iff, List.forall₂_cons_left_iff]
    constructor
    · rintro ⟨y, hy, rest, hrest, h⟩
      exact ⟨y, rest, hy, ih.mp hrest, (Except.ok.inj h).symm⟩
    · rintro ⟨y, rest, hy, hrest, rfl⟩
      exact ⟨y, hy, rest, ih.mpr hrest, rfl⟩

theorem exists_getElem?_of_forall₂ {α β : Type} {R : α → β → Prop} {xs : List α} {ys : List β}
    (h : List.Forall₂ R xs ys) {k : Nat} {x : α} (hx : xs[k]? = some x) :
    ∃ y, ys[k]? = some y ∧ R x y := by
  induction h generalizing k with
  | nil => simp at hx
  | @cons x' y' xs ys hxy _ ih =>
    cases k with
    | zero =>
      obtain rfl : x' = x := by simpa using hx
      exact ⟨y', rfl, hxy⟩
    | succ k => exact ih hx

theorem exists_mem_of_forall₂ {α β : Type} {R : α → β → Prop} {xs : List α} {ys : List β}
    (h : List.Forall₂ R xs ys) {y : β} (hy : y ∈ ys) : ∃ x ∈ xs, R x y := by
  induction h with
  | nil => cases hy
  | cons hxy _ ih =>
    rcases List.mem_cons.mp hy with rfl | hy
    · exact ⟨_, List.mem_cons_self, hxy⟩
    · obtain ⟨x, hx, hxy⟩ := ih hy
      exact ⟨x, List.mem_cons_of_mem _ hx, hxy⟩

theorem mem_of_lookup {α β : Type} [BEq α] [LawfulBEq α] {entries : List (α × β)} {key : α}
    {value : β} (h : entries.lookup key = some value) : (key, value) ∈ entries := by
  obtain ⟨front, back, rfl, -⟩ := List.lookup_eq_some_iff.mp h
  simp

theorem foldAll_fst (mode : EvalMode) (env : Bindings) (is : List Initializer) :
    (foldAll mode env is).map Prod.fst = is := by
  induction is generalizing env with
  | nil => rfl
  | cons i is ih => simp [foldAll, ih]

namespace Analysis

/-- A constant has the type that is written for it, or `u64`. -/
theorem constant_eq_ok {i : Initializer} {v : Folded} {c : Constant} (h : constant i v = .ok c) :
    ∃ type, c = ⟨Text.uppercase (Text.snakeCase i.name), type, v.text⟩ ∧
      (type = "u64" ∨ ∃ t, i.typing = .declared (some t) ∧ typeText t = .ok type) := by
  unfold constant at h
  split at h
  · rename_i written htyping
    obtain ⟨type, htype, h⟩ := bind_eq_ok_iff.mp h
    refine ⟨type, (Except.ok.inj h).symm, ?_⟩
    cases written with
    | none => exact .inl (Except.ok.inj htype).symm
    | some t => exact .inr ⟨t, htyping, htype⟩
  · exact ⟨"u64", (Except.ok.inj h).symm, .inl rfl⟩

/-- A witness of a short declaration has its type from its value, another one has the type that is
written for it, or `u64`. -/
theorem witness_eq_ok {i : Initializer} {v : Folded} {w : Witness} (h : witness i v = .ok w) :
    ∃ type, w = ⟨Text.snakeCase i.name, type, v.text⟩ ∧
      (type = .deferred ∨ type = .known "u64" ∨
        ∃ t text, i.typing = .declared (some t) ∧ typeText t = .ok text ∧ type = .known text) := by
  unfold witness at h
  split at h
  · rename_i written htyping
    cases htype : declaredType written with
    | error e =>
      rw [htype] at h
      cases h
    | ok text =>
      rw [htype] at h
      refine ⟨.known text, (Except.ok.inj h).symm, .inr ?_⟩
      cases written with
      | none => exact .inl (congrArg _ (Except.ok.inj htype).symm)
      | some t => exact .inr ⟨t, text, htyping, htype, rfl⟩
  · exact ⟨.deferred, (Except.ok.inj h).symm, .inl rfl⟩

theorem eq_of_witness_eq_ok {i : Initializer} {v : Folded} {w : Witness}
    (h : witness i v = .ok w) : w.name = Text.snakeCase i.name ∧ w.value = v.text := by
  obtain ⟨type, rfl, -⟩ := witness_eq_ok h
  exact ⟨rfl, rfl⟩

/-- The name of a value that is not exact is listed. -/
theorem exact_of_not_mem_inexact {values : List (Initializer × Folded)}
    {p : Initializer × Folded} (hp : p ∈ values) (h : p.1.name ∉ inexact values) : p.2.exact := by
  by_contra hexact
  refine h (List.mem_map.mpr ⟨p, List.mem_filter.mpr ⟨hp, ?_⟩, rfl⟩)
  simpa using hexact

theorem paramsOfField_eq_ok_iff {f : Field} {ps : List Parameter} :
    paramsOfField f = .ok ps ↔
      ∃ type, typeText f.type = .ok type ∧ ps = f.names.map fun name =>
        ⟨Text.snakeCase name, type⟩ := by
  simp only [paramsOfField, bind_eq_ok_iff]
  refine exists_congr fun type => and_congr_right fun _ => ?_
  exact ⟨fun h => (Except.ok.inj h).symm, fun h => congrArg Except.ok h.symm⟩

/-- A function is translated when its parameters and its first result have target types. -/
theorem helper_eq_ok_iff {f : FunctionDecl} {h : Helper} :
    helper f = .ok h ↔
      ∃ params result,
        List.Forall₂ (fun p ps => paramsOfField p = .ok ps) f.type.params params ∧
        resultOf f.type.results = .ok result ∧
        h = ⟨Text.snakeCase f.name, params.flatten, result,
          match f.body with
          | some body => bodyOf body
          | none => .placeholder⟩ := by
  simp only [helper, bind_eq_ok_iff, mapM_eq_ok_iff]
  constructor
  · rintro ⟨params, hparams, result, hresult, h⟩
    exact ⟨params, result, hparams, hresult, (Except.ok.inj h).symm⟩
  · rintro ⟨params, result, hparams, hresult, rfl⟩
    exact ⟨params, hparams, result, hresult, rfl⟩

end Analysis

open Analysis in
theorem analyze_eq_ok_iff {entry : String} {mode : EvalMode} {file : File} {a : Analysis} :
    analyze entry mode file = .ok a ↔
      List.Forall₂ (fun p c => constant p.1 p.2 = .ok c) (file.foldedConstants mode) a.constants ∧
      List.Forall₂ (fun p w => witness p.1 p.2 = .ok w)
        (file.foldedWitnesses entry mode) a.witnesses ∧
      List.Forall₂ (fun f h => helper f = .ok h) (file.helperDecls entry) a.helpers ∧
      a.fallbacks = inexact (file.foldedConstants mode ++ file.foldedWitnesses entry mode) := by
  simp only [analyze, bind_eq_ok_iff, mapM_eq_ok_iff]
  constructor
  · rintro ⟨constants, hconstants, witnesses, hwitnesses, helpers, hhelpers, h⟩
    obtain rfl := Except.ok.inj h
    exact ⟨hconstants, hwitnesses, hhelpers, rfl⟩
  · rintro ⟨hconstants, hwitnesses, hhelpers, hfallbacks⟩
    refine ⟨_, hconstants, _, hwitnesses, _, hhelpers, ?_⟩
    obtain ⟨witnesses, constants, helpers, fallbacks⟩ := a
    obtain rfl := hfallbacks
    rfl

end BoundedGo
