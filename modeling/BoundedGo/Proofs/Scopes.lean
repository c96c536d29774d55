import BoundedGo.Proofs.HelperBodies
import BoundedGo.Proofs.Occurrence

/-!
Which names the bodies of the translated functions use. A function of the source can use its own
parameters, the constants of the file and the truth values. A kept body uses one name, that of the
expression which is returned or of the left side of a comparison, in the style of the target
language; only the parameters of the record and the truth values have such names there. Constants
are written into a module of their own, in capitals.
Main statement: a name of a kept body means something unless it stands for a constant that no
parameter hides, and such a constant does only where its name coincides with another one
(`bodies_closed_iff`).
-/
namespace BoundedGo

open Text

/-- The constants that a declaration names, with or without a value. -/
def Decl.constants : Decl → List String
  | .const specs => specs.flatMap (·.names)
  | _ => []

/-- The name that the body of a function is kept for. -/
def Stmt.keptName? : List Stmt → Option String
  | [.return_ [value]] => value.keptName?
  | _ => none

namespace FunctionDecl

variable (f : FunctionDecl)

def paramNames : List String := f.type.params.flatMap (·.names)

/-- Whether a name stands as an expression somewhere in the body. -/
def Mentions (name : String) : Prop :=
  ∃ body s, f.body = some body ∧ s ∈ body ∧ Node.Within (.expr (.ident name)) (.stmt s)

def keptName? : Option String := f.body.bind Stmt.keptName?

/-- Whether a name has the emitted form of a parameter or of a truth value. -/
def Captures (name : String) : Prop :=
  ∃ bound ∈ f.paramNames ++ ["true", "false"], snakeCase bound = snakeCase name

end FunctionDecl

namespace File

/-- The constants of a file, with or without a value. -/
def constants (file : File) : List String := file.decls.flatMap Decl.constants

/-- The names that mean something in a function. -/
inductive InScope (file : File) (f : FunctionDecl) (name : String) : Prop
  | param (h : name ∈ f.paramNames)
  | constant (h : name ∈ file.constants)
  | truth (h : name ∈ ["true", "false"])

/-- Whether a function uses no other names. -/
def KeepsScope (file : File) (f : FunctionDecl) : Prop :=
  ∀ name, f.Mentions name → file.InScope f name

end File

/-- The name that occurs in a body. -/
def HelperBody.usedName? : HelperBody → Option String
  | .positive scrutinee => some scrutinee
  | .name used => some used
  | .placeholder => none

namespace Helper

/-- Whether a name means something in the body of a translated function. -/
def Binds (h : Helper) (name : String) : Prop :=
  name ∈ h.params.map Parameter.name ∨ name ∈ ["true", "false"]

/-- Whether the name in the body means something. -/
def IsClosed (h : Helper) : Prop :=
  ∀ name, h.body.usedName? = some name → h.Binds name

end Helper

/-- A kept name stands in the expression. -/
theorem Expr.within_of_keptName? {e : Expr} {name : String} (h : e.keptName? = some name) :
    Node.Within (.expr (.ident name)) (.expr e) := by
  unfold keptName? at h
  split at h
  · obtain rfl := Option.some.inj h
    exact .self _
  · obtain rfl := Option.some.inj h
    exact .child List.mem_cons_self (.self _)
  · cases h

/-- The name in a body is the emitted form of the name that it is kept for. -/
theorem Analysis.usedName?_bodyOf (body : List Stmt) :
    (bodyOf body).usedName? = (Stmt.keptName? body).map snakeCase := by
  by_cases hreturn : ∃ value, body = [.return_ [value]]
  · obtain ⟨value, rfl⟩ := hreturn
    cases value with
    | ident name => rfl
    | binary op lhs rhs =>
      cases op with
      | gt =>
        cases lhs with
        | ident name => rfl
        | _ => rfl
      | _ => rfl
    | _ => rfl
  · have hkept : Stmt.keptName? body = none := by
      unfold Stmt.keptName?
      split
      · exact absurd ⟨_, rfl⟩ hreturn
      · rfl
    have hbody : bodyOf body = .placeholder := by
      unfold bodyOf
      split
      · exact absurd ⟨_, rfl⟩ hreturn
      · exact absurd ⟨_, rfl⟩ hreturn
      · rfl
    rw [hkept, hbody]
    rfl

theorem Analysis.names_of_fields {fields : List Field} {params : List (List Parameter)}
    (h : List.Forall₂ (fun p ps => paramsOfField p = .ok ps) fields params) :
    params.flatten.map Parameter.name = (fields.flatMap (·.names)).map snakeCase := by
  induction h with
  | nil => rfl
  | @cons field ps fields params hfield _ ih =>
    obtain ⟨type, -, rfl⟩ := paramsOfField_eq_ok_iff.mp hfield
    rw [List.flatten_cons, List.map_append, ih, List.flatMap_cons, List.map_append, List.map_map]
    rfl

namespace FunctionDecl

variable {f : FunctionDecl} {h : Helper} {name : String}

theorem mentions_of_keptName? (hkept : f.keptName? = some name) : f.Mentions name := by
  obtain ⟨body, hbody, hkept⟩ := Option.bind_eq_some_iff.mp hkept
  unfold Stmt.keptName? at hkept
  split at hkept
  · refine ⟨_, _, hbody, List.mem_cons_self, .child ?_ (Expr.within_of_keptName? hkept)⟩
    exact List.mem_cons_self
  · cases hkept

theorem usedName?_of_helper (hok : Analysis.helper f = .ok h) :
    h.body.usedName? = f.keptName?.map snakeCase := by
  obtain ⟨params, result, -, -, rfl⟩ := Analysis.helper_eq_ok_iff.mp hok
  unfold keptName?
  cases f.body with
  | none => rfl
  | some body => exact Analysis.usedName?_bodyOf body

/-- The parameters of the record have the emitted names of those of the function. -/
theorem paramNames_of_helper (hok : Analysis.helper f = .ok h) :
    h.params.map Parameter.name = f.paramNames.map snakeCase := by
  obtain ⟨params, result, hparams, -, rfl⟩ := Analysis.helper_eq_ok_iff.mp hok
  exact Analysis.names_of_fields hparams

/-- What a record binds are the emitted forms of what the function captures. -/
theorem binds_iff (hok : Analysis.helper f = .ok h) :
    h.Binds (snakeCase name) ↔ f.Captures name := by
  have htruths : ["true", "false"].map snakeCase = ["true", "false"] := by decide
  have hbound : f.Captures name ↔
      snakeCase name ∈ (f.paramNames ++ ["true", "false"]).map snakeCase := List.mem_map.symm
  rw [hbound, List.map_append, htruths, ← paramNames_of_helper hok, List.mem_append]
  rfl

theorem isClosed_iff (hok : Analysis.helper f = .ok h) :
    h.IsClosed ↔ ∀ name, f.keptName? = some name → f.Captures name := by
  have hused := usedName?_of_helper hok
  constructor
  · intro hclosed name hkept
    rw [hkept] at hused
    exact (binds_iff hok).mp (hclosed (snakeCase name) hused)
  · intro hcaptures used hname
    rw [hused] at hname
    obtain ⟨name, hkept, rfl⟩ := Option.map_eq_some_iff.mp hname
    exact (binds_iff hok).mpr (hcaptures name hkept)

/-- What a function with a single return mentions stands in the expression that is returned. -/
theorem mem_preorder_of_mentions {value : Expr} (hbody : f.body = some [.return_ [value]])
    (hname : f.Mentions name) :
    .expr (.ident name) ∈ ((Node.expr value).preorder []).map Prod.snd := by
  obtain ⟨body, s, hsome, hs, hwithin⟩ := hname
  obtain rfl := Option.some.inj (hbody.symm.trans hsome)
  obtain rfl := List.mem_singleton.mp hs
  rw [Node.mem_preorder_iff]
  cases hwithin with
  | child hc hwithin =>
    obtain rfl := List.mem_singleton.mp hc
    exact hwithin

/-- A function captures its parameters and the truth values. -/
theorem captures_or_constant {file : File} (hscope : file.InScope f name) :
    f.Captures name ∨ name ∈ file.constants ∧ name ∉ f.paramNames := by
  by_cases hname : name ∈ f.paramNames ++ ["true", "false"]
  · exact .inl ⟨name, hname, rfl⟩
  · rw [List.mem_append, not_or] at hname
    obtain ⟨hparam, htruth⟩ := hname
    cases hscope with
    | param h => exact absurd h hparam
    | constant h => exact .inr ⟨h, hparam⟩
    | truth h => exact absurd h htruth

end FunctionDecl

/-- Where the functions use parameters, constants and truth values only, the name in a body is the
emitted form of a name that the function mentions, and it means something in the record unless
that is a constant which no parameter hides. So all bodies are closed exactly if every constant
that a body is kept for has the emitted form of a parameter or of a truth value. -/
theorem bodies_closed_iff {entry : String} {mode : EvalMode} {file : File} {a : Analysis}
    (ha : analyze entry mode file = .ok a)
    (hscope : ∀ f ∈ file.helperDecls entry, file.KeepsScope f) :
    List.Forall₂ (fun f h => ∀ used, h.body.usedName? = some used →
        ∃ name, f.Mentions name ∧ used = snakeCase name ∧
          (h.Binds used ∨ name ∈ file.constants ∧ name ∉ f.paramNames))
      (file.helperDecls entry) a.helpers ∧
    ((∀ h ∈ a.helpers, h.IsClosed) ↔
      ∀ f ∈ file.helperDecls entry, ∀ name, f.keptName? = some name →
        name ∈ file.constants → name ∉ f.paramNames → f.Captures name) := by
  obtain ⟨-, -, hhelpers, -⟩ := analyze_eq_ok_iff.mp ha
  have hkept : ∀ f ∈ file.helperDecls entry, ∀ name, f.keptName? = some name →
      f.Captures name ∨ name ∈ file.constants ∧ name ∉ f.paramNames := fun f hf name hname =>
    FunctionDecl.captures_or_constant
      (hscope f hf name (FunctionDecl.mentions_of_keptName? hname))
  constructor
  · refine ((List.forall₂_and_left _ _).mpr ⟨hkept, hhelpers⟩).imp ?_
    intro f h ⟨hkept, hok⟩ used hused
    rw [FunctionDecl.usedName?_of_helper hok] at hused
    obtain ⟨name, hname, rfl⟩ := Option.map_eq_some_iff.mp hused
    refine ⟨name, FunctionDecl.mentions_of_keptName? hname, rfl, ?_⟩
    rw [FunctionDecl.binds_iff hok]
    exact hkept name hname
  · constructor
    · intro hclosed f hf name hname _ _
      obtain ⟨h, hh, hok⟩ := exists_mem_of_forall₂ hhelpers.flip hf
      exact (FunctionDecl.isClosed_iff hok).mp (hclosed h hh) name hname
    · intro hcaptures h hh
      obtain ⟨f, hf, hok⟩ := exists_mem_of_forall₂ hhelpers hh
      refine (FunctionDecl.isClosed_iff hok).mpr fun name hname => ?_
      rcases hkept f hf name hname with hcaptured | ⟨hconstant, hparam⟩
      · exact hcaptured
      · exact hcaptures f hf name hname hconstant hparam

/-- A bound as a constant, a check of it and a function that gives it. -/
def bounded : File :=
  ⟨"main", [],
    [.const [⟨["limit"], none, [.literal ⟨.int, "3"⟩]⟩],
      .function ⟨"Above", none, ⟨[⟨["amount"], .named "uint64"⟩], [⟨[], .named "bool"⟩]⟩,
        some [.return_ [.binary .gt (.ident "amount") (.ident "limit")]]⟩]⟩

theorem bodies_closed_bounded :
    ∃ a, analyze "main" .approximate bounded = .ok a ∧
      (∀ f ∈ bounded.helperDecls "main", bounded.KeepsScope f) ∧
      a.helpers.map Helper.body = [.positive "amount"] ∧ ∀ h ∈ a.helpers, h.IsClosed := by
  have ha : analyze "main" .approximate bounded
      = .ok ⟨[], [⟨"LIMIT", "u64", "3"⟩],
          [⟨"above", [⟨"amount", "u64"⟩], some "bool", .positive "amount"⟩], []⟩ := rfl
  have hscope : ∀ f ∈ bounded.helperDecls "main", bounded.KeepsScope f := by
    intro f hf name hname
    obtain rfl := List.mem_singleton.mp hf
    have hmem := FunctionDecl.mem_preorder_of_mentions rfl hname
    simp [Node.preorder_eq, Node.children, Expr.children] at hmem
    rcases hmem with rfl | rfl
    · exact .param List.mem_cons_self
    · exact .constant List.mem_cons_self
  refine ⟨_, ha, hscope, rfl, (bodies_closed_iff ha hscope).2.mpr ?_⟩
  intro f hf name hkept _ hparam
  obtain rfl := List.mem_singleton.mp hf
  obtain rfl := Option.some.inj hkept
  exact absurd List.mem_cons_self hparam

/-- A function that returns a constant has a body with a name that is bound nowhere. -/
theorem returned_constant_unbound :
    ∃ (file : File) (h : Helper),
      (∀ f ∈ file.helperDecls "main", file.KeepsScope f) ∧
      analyze "main" .approximate file = .ok ⟨[], [⟨"LIMIT", "u64", "3"⟩], [h], []⟩ ∧
      h.body.usedName? = some "limit" ∧ ¬ h.Binds "limit" := by
  refine ⟨⟨"main", [], [.const [⟨["limit"], none, [.literal ⟨.int, "3"⟩]⟩],
      .function ⟨"Cap", none, ⟨[], [⟨[], .named "uint64"⟩]⟩, some [.return_ [.ident "limit"]]⟩]⟩,
    ⟨"cap", [], some "u64", .name "limit"⟩, ?_, ?_, ?_, ?_⟩
  · intro f hf name hname
    obtain rfl := List.mem_singleton.mp hf
    have hmem := FunctionDecl.mem_preorder_of_mentions rfl hname
    simp [Node.preorder_eq, Node.children, Expr.children] at hmem
    obtain rfl := hmem
    exact .constant List.mem_cons_self
  · rfl
  · rfl
  · unfold Helper.Binds
    decide

end BoundedGo
