import BoundedGo.Proofs.Acceptance
import BoundedGo.Proofs.FaultPaths

/-!
What an analysis can still reject behind the check for forbidden constructs. An analysis fails with
the fault of a type that it examines, and the root of that fault lies in a type of its own that the
examined type reaches. All types that are reached are nodes of the file, so the check has seen
them; what is left to reject are lengths, names of packages, functions and pointers.
Main statement: the root of a rejection behind the check is no slice, map, channel or interface
(`root_of_rejection`).
-/
namespace BoundedGo

/-- The fault at the end of the path. -/
def TypeError.root : TypeError → TypeError
  | .element inner => inner.root
  | .field inner => inner.root
  | e => e

theorem TypeError.root_behind (fault : TypeError) (path : List TypeStep) :
    (fault.behind path).root = fault.root := by
  induction path with
  | nil => rfl
  | cons step path ih => cases step <;> exact ih

theorem TypeExpr.OwnFault.root_eq {t : TypeExpr} {fault : TypeError} (h : t.OwnFault fault) :
    fault.root = fault := by
  cases h <;> rfl

theorem Node.Within.trans {k m n : Node} (hkm : Within k m) (hmn : Within m n) : Within k n := by
  induction hmn with
  | self n => exact hkm
  | child hc _ ih => exact .child hc (ih hkm)

namespace TypeExpr

/-- What a type reaches lies within it. -/
theorem Reaches.within {t part : TypeExpr} (h : t.Reaches part) :
    Node.Within (.type part) (.type t) := by
  induction h with
  | self t => exact .self _
  | element _ ih => exact .child (by simp [Node.children, children]) ih
  | field hf _ ih => exact .child (List.mem_map.mpr ⟨_, hf, rfl⟩) ih

end TypeExpr

/-- A type is rejected for the fault of a type that it reaches. -/
theorem typeText_eq_error {t : TypeExpr} {e : TypeError} (h : typeText t = .error e) :
    ∃ part, t.Reaches part ∧ part.OwnFault e.root := by
  obtain ⟨path, part, fault, hfirst, rfl⟩ := firstFault_of_typeText h
  rw [TypeError.root_behind, hfirst.ownFault.root_eq]
  exact ⟨part, hfirst.hasPart.reaches, hfirst.ownFault⟩

theorem bind_eq_error_iff {ε α β : Type} (x : Except ε α) (f : α → Except ε β) (e : ε) :
    (x >>= f) = .error e ↔ x = .error e ∨ ∃ a, x = .ok a ∧ f a = .error e := by
  cases x with
  | error e' => simp [bind, Except.bind]
  | ok a => simp [bind, Except.bind]

/-- A list is mapped to the error of one of its members. -/
theorem mapM_eq_error {ε α β : Type} {f : α → Except ε β} {xs : List α} {e : ε}
    (h : xs.mapM f = .error e) : ∃ x ∈ xs, f x = .error e := by
  induction xs with
  | nil => cases h
  | cons x xs ih =>
    rw [List.mapM_cons] at h
    rcases (bind_eq_error_iff _ _ _).mp h with hx | ⟨y, -, h⟩
    · exact ⟨x, List.mem_cons_self, hx⟩
    · rcases (bind_eq_error_iff _ _ _).mp h with hxs | ⟨ys, -, h⟩
      · obtain ⟨x', hx', he⟩ := ih hxs
        exact ⟨x', List.mem_cons_of_mem x hx', he⟩
      · cases h

namespace Analysis

variable {i : Initializer} {v : Folded} {e : TypeError}

theorem declaredType_eq_error {written : Option TypeExpr} (h : declaredType written = .error e) :
    ∃ t, written = some t ∧ typeText t = .error e := by
  cases written with
  | none => cases h
  | some t => exact ⟨t, rfl, h⟩

/-- A record is rejected for its written type. -/
theorem constant_eq_error (h : constant i v = .error e) :
    ∃ t, i.typing = .declared (some t) ∧ typeText t = .error e := by
  unfold constant at h
  split at h
  · rename_i written htyping
    rcases (bind_eq_error_iff _ _ _).mp h with h | ⟨type, -, h⟩
    · obtain ⟨t, rfl, ht⟩ := declaredType_eq_error h
      exact ⟨t, htyping, ht⟩
    · cases h
  · cases h

theorem witness_eq_error (h : witness i v = .error e) :
    ∃ t, i.typing = .declared (some t) ∧ typeText t = .error e := by
  unfold witness at h
  split at h
  · rename_i written htyping
    cases htype : declaredType written with
    | ok text =>
      rw [htype] at h
      cases h
    | error fault =>
      rw [htype] at h
      obtain rfl := Except.error.inj h
      obtain ⟨t, rfl, ht⟩ := declaredType_eq_error htype
      exact ⟨t, htyping, ht⟩
  · cases h

theorem helper_eq_error {f : FunctionDecl} (h : helper f = .error e) :
    (∃ p ∈ f.type.params, typeText p.type = .error e) ∨
      ∃ r, f.type.results.head? = some r ∧ typeText r.type = .error e := by
  unfold helper at h
  rcases (bind_eq_error_iff _ _ _).mp h with h | ⟨params, -, h⟩
  · obtain ⟨p, hp, h⟩ := mapM_eq_error h
    rcases (bind_eq_error_iff _ _ _).mp h with h | ⟨type, -, h⟩
    · exact .inl ⟨p, hp, h⟩
    · cases h
  · rcases (bind_eq_error_iff _ _ _).mp h with h | ⟨result, -, h⟩
    · cases hresults : f.type.results with
      | nil =>
        rw [hresults] at h
        cases h
      | cons r rs =>
        refine .inr ⟨r, rfl, ?_⟩
        rw [hresults] at h
        cases htype : typeText r.type with
        | ok text => simp [resultOf, htype, Functor.map, Except.map] at h
        | error fault => simpa [resultOf, htype, Functor.map, Except.map] using h
    · cases h

end Analysis

theorem Initializer.of_mem_ofSpec {i : Initializer} {s : ValueSpec} (hi : i ∈ ofSpec s) :
    s.Initializes ∧ i.typing = .declared s.type := by
  obtain ⟨names, type, values⟩ := s
  obtain ⟨pair, hpair, rfl⟩ := List.mem_map.mp hi
  refine ⟨⟨?_, ?_⟩, rfl⟩
  · rintro rfl
    simp at hpair
  · rintro rfl
    simp at hpair

theorem ValueSpec.type_mem_nodes (s : ValueSpec) {t : TypeExpr} (ht : s.type = some t) :
    .type t ∈ s.nodes := by
  simp [nodes, ht]

namespace File

variable {file : File} {entry : String} {mode : EvalMode} {i : Initializer} {t : TypeExpr}

theorem examined_of_mem_constantInitializers (hi : i ∈ file.constantInitializers)
    (ht : i.typing = .declared (some t)) : file.Examined entry t := by
  obtain ⟨d, hd, hi⟩ := List.mem_flatMap.mp hi
  cases d with
  | const specs =>
    obtain ⟨s, hs, hi⟩ := List.mem_flatMap.mp hi
    obtain ⟨hinit, htyping⟩ := Initializer.of_mem_ofSpec hi
    exact .const hd hs hinit (Typing.declared.inj (htyping.symm.trans ht))
  | _ => cases hi

theorem examined_of_mem_witnessInitializers (hi : i ∈ file.witnessInitializers entry)
    (ht : i.typing = .declared (some t)) : file.Examined entry t := by
  obtain ⟨stmt, hstmt, hi⟩ := List.mem_flatMap.mp hi
  obtain ⟨f, body, hf, hfbody, hmem⟩ := (mem_entryBody _ _ _).mp hstmt
  unfold Initializer.ofStmt at hi
  split at hi
  · obtain ⟨s, hs, hi⟩ := List.mem_flatMap.mp hi
    obtain ⟨hinit, htyping⟩ := Initializer.of_mem_ofSpec hi
    exact .var hf hfbody hmem hs hinit (Typing.declared.inj (htyping.symm.trans ht))
  · -- a short declaration has no written type
    obtain rfl := List.mem_singleton.mp hi
    cases ht
  · cases hi

theorem mem_foldAll_fst {env : Bindings} {is : List Initializer} {p : Initializer × Folded}
    (hp : p ∈ foldAll mode env is) : p.1 ∈ is := by
  have hmem : p.1 ∈ (foldAll mode env is).map Prod.fst := List.mem_map_of_mem hp
  rwa [foldAll_fst] at hmem

theorem function_mem_of_function? {f : FunctionDecl} (h : file.function? entry = some f) :
    .function f ∈ file.decls := by
  obtain ⟨d, hd, hf⟩ := List.mem_filterMap.mp (List.mem_of_find?_eq_some h)
  cases d with
  | function g =>
    obtain rfl := Option.some.inj hf
    exact hd
  | _ => cases hf

/-- What is examined stands in the file. -/
theorem Examined.holds (h : file.Examined entry t) : file.Holds (.type t) := by
  cases h with
  | @const specs s t hd hs _ ht =>
    exact ⟨_, hd, .child (List.mem_flatMap.mpr ⟨s, hs, s.type_mem_nodes ht⟩) (.self _)⟩
  | @var f body specs s t hf hbody hd hs _ ht =>
    have hspec : Node.Within (.type t) (.decl (.var specs)) :=
      .child (List.mem_flatMap.mpr ⟨s, hs, s.type_mem_nodes ht⟩) (.self _)
    have hstmt : Node.stmt (.declare (.var specs)) ∈ (Node.decl (.function f)).children := by
      simp [Node.children, Decl.children, FunctionDecl.nodes, hbody, hd]
    exact ⟨_, function_mem_of_function? hf, .child hstmt (.child (List.mem_singleton.mpr rfl) hspec)⟩
  | @param f p hf _ hp =>
    refine ⟨_, hf, .child ?_ (.self _)⟩
    have hparams : Node.type p.type ∈ Field.nodes f.type.params := List.mem_map_of_mem hp
    simp [Node.children, Decl.children, FunctionDecl.nodes, FunctionType.nodes, hparams]
  | @result f r hf _ hr =>
    refine ⟨_, hf, .child ?_ (.self _)⟩
    have hresults : Node.type r.type ∈ Field.nodes f.type.results :=
      List.mem_map_of_mem (List.mem_of_head? hr)
    simp [Node.children, Decl.children, FunctionDecl.nodes, FunctionType.nodes, hresults]

end File

/-- An analysis fails with the error of a type that it examines. -/
theorem analyze_eq_error {entry : String} {mode : EvalMode} {file : File} {e : TypeError}
    (h : analyze entry mode file = .error e) :
    ∃ t, file.Examined entry t ∧ typeText t = .error e := by
  unfold analyze at h
  rcases (bind_eq_error_iff _ _ _).mp h with h | ⟨constants, -, h⟩
  · obtain ⟨p, hp, h⟩ := mapM_eq_error h
    obtain ⟨t, htyping, ht⟩ := Analysis.constant_eq_error h
    exact ⟨t, File.examined_of_mem_constantInitializers (File.mem_foldAll_fst hp) htyping, ht⟩
  · rcases (bind_eq_error_iff _ _ _).mp h with h | ⟨witnesses, -, h⟩
    · obtain ⟨p, hp, h⟩ := mapM_eq_error h
      obtain ⟨t, htyping, ht⟩ := Analysis.witness_eq_error h
      exact ⟨t, File.examined_of_mem_witnessInitializers (File.mem_foldAll_fst hp) htyping, ht⟩
    · rcases (bind_eq_error_iff _ _ _).mp h with h | ⟨helpers, -, h⟩
      · obtain ⟨f, hf, h⟩ := mapM_eq_error h
        obtain ⟨hdecl, hname⟩ := File.mem_helperDecls.mp hf
        rcases Analysis.helper_eq_error h with ⟨p, hp, ht⟩ | ⟨r, hr, ht⟩
        · exact ⟨_, .param hdecl hname hp, ht⟩
        · exact ⟨_, .result hdecl hname hr, ht⟩
      · cases h

/-- Behind a successful check an analysis can only fail for the length of an array, for a name of a
package, for a function type or for a pointer type, whatever arrays and structs stand around it. -/
theorem root_of_rejection {entry : String} {mode : EvalMode} {file : File} {e : TypeError}
    (hvalid : file.validate = .ok ()) (h : analyze entry mode file = .error e) :
    (∃ name, e.root = .symbolicLength name) ∨ e.root = .lengthExpr ∨
      (∃ name, e.root = .bitcoin name) ∨ (∃ package name, e.root = .qualified package name) ∨
      e.root = .unsupported "function type" ∨ e.root = .unsupported "pointer type" := by
  obtain ⟨t, hexamined, ht⟩ := analyze_eq_error h
  obtain ⟨part, hpart, hfault⟩ := typeText_eq_error ht
  obtain ⟨d, hd, hwithin⟩ := hexamined.holds
  have hallowed : (Node.type part).feature? = none :=
    (file.violations_eq_nil_iff.mp (file.validate_eq_ok_iff.mp hvalid)) _
      ⟨d, hd, hpart.within.trans hwithin⟩
  generalize e.root = root at hfault
  cases hfault with
  | symbolicLength name => exact .inl ⟨name, rfl⟩
  | lengthExpr => exact .inr (.inl rfl)
  | @bitcoin name => exact .inr (.inr (.inl ⟨name, rfl⟩))
  | @qualified package name => exact .inr (.inr (.inr (.inl ⟨package, name, rfl⟩)))
  | function => exact .inr (.inr (.inr (.inr (.inl rfl))))
  | pointer => exact .inr (.inr (.inr (.inr (.inr rfl))))
  | slice | map | channel | interface => cases hallowed

/-- A function whose parameter is a struct with an array of pointers. -/
def pointerTable : File :=
  .ofFunction ⟨"check", none,
    ⟨[⟨["table"], .struct [⟨["owners"], .array (.literal ⟨.int, "2"⟩) (.pointer (.named "uint64"))⟩]⟩],
      []⟩, some []⟩

theorem root_of_rejection_pointerTable :
    pointerTable.validate = .ok () ∧
      analyze "main" .approximate pointerTable
        = .error (.field (.element (.unsupported "pointer type"))) ∧
      ((∃ name, TypeError.unsupported "pointer type" = .symbolicLength name) ∨
        TypeError.unsupported "pointer type" = .lengthExpr ∨
        (∃ name, TypeError.unsupported "pointer type" = .bitcoin name) ∨
        (∃ package name, TypeError.unsupported "pointer type" = .qualified package name) ∨
        TypeError.unsupported "pointer type" = .unsupported "function type" ∨
        TypeError.unsupported "pointer type" = .unsupported "pointer type") := by
  have hvalid : pointerTable.validate = .ok () := by decide
  have hanalysis : analyze "main" .approximate pointerTable
      = .error (.field (.element (.unsupported "pointer type"))) := by
    decide
  exact ⟨hvalid, hanalysis, root_of_rejection hvalid hanalysis⟩

end BoundedGo
