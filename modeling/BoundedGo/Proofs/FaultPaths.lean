import BoundedGo.Proofs.Mappable

/-!
Where a type is at fault. The parts that count for a target type lie at the ends of paths through
the elements of arrays and the fields of structs. They are looked at in one order: what lies in a
type before the type itself, so that the element of an array comes before its length, and the
fields of a struct from left to right. Where there is no target type, the error spells the path to
the first part that has a fault of its own and ends with that fault.
Main statement: `typeText_fault`.
-/
namespace BoundedGo

/-- A step from a type into a part that counts for its target type. -/
inductive TypeStep
  | element
  | field (index : Nat)

/-- The error of a type for a fault at the end of a path into it. -/
def TypeError.behind (fault : TypeError) : List TypeStep → TypeError
  | [] => fault
  | .element :: path => .element (fault.behind path)
  | .field _ :: path => .field (fault.behind path)

/-- The order in which parts are looked at, by the paths that lead to them. -/
inductive Earlier : List TypeStep → List TypeStep → Prop
  | inside (step : TypeStep) (path : List TypeStep) : Earlier (step :: path) []
  | left {i j : Nat} (h : i < j) (path other : List TypeStep) :
    Earlier (.field i :: path) (.field j :: other)
  | under (step : TypeStep) {path other : List TypeStep} (h : Earlier path other) :
    Earlier (step :: path) (step :: other)

namespace TypeExpr

/-- The fault of a type that does not come from what the type reaches. -/
inductive OwnFault : TypeExpr → TypeError → Prop
  | symbolicLength (name : String) (element : TypeExpr) :
    OwnFault (.array (.ident name) element) (.symbolicLength name)
  | lengthExpr {length : Expr} {element : TypeExpr}
    (h : ¬ (array length element).IsAdmissible) (hname : length.name? = none) :
    OwnFault (.array length element) .lengthExpr
  | bitcoin {name : String} (h : name ∉ bitcoinNames) :
    OwnFault (.qualified "bitcoin" name) (.bitcoin name)
  | qualified {package : String} (name : String) (h : package ≠ "bitcoin") :
    OwnFault (.qualified package name) (.qualified package name)
  | slice (element : TypeExpr) : OwnFault (.slice element) .slice
  | map (key value : TypeExpr) : OwnFault (.map key value) (.unsupported "map type")
  | channel (direction : ChannelDirection) (element : TypeExpr) :
    OwnFault (.channel direction element) (.unsupported "channel type")
  | interface (elements : List Field) :
    OwnFault (.interface elements) (.unsupported "interface type")
  | function (type : FunctionType) : OwnFault (.function type) (.unsupported "function type")
  | pointer (target : TypeExpr) : OwnFault (.pointer target) (.unsupported "pointer type")

/-- The parts of a type at the ends of paths. -/
inductive HasPart : TypeExpr → List TypeStep → TypeExpr → Prop
  | self (t : TypeExpr) : HasPart t [] t
  | element {length : Expr} {element part : TypeExpr} {path : List TypeStep}
    (h : HasPart element path part) : HasPart (.array length element) (.element :: path) part
  | field {fields : List Field} {i : Nat} {f : Field} {part : TypeExpr} {path : List TypeStep}
    (hf : fields[i]? = some f) (h : HasPart f.type path part) :
    HasPart (.struct fields) (.field i :: path) part

/-- The first part of a type with a fault of its own. -/
structure FirstFault (t : TypeExpr) (path : List TypeStep) (part : TypeExpr) (fault : TypeError) :
    Prop where
  hasPart : t.HasPart path part
  ownFault : part.OwnFault fault
  admissible : ∀ other earlier, t.HasPart earlier other → Earlier earlier path →
    other.IsAdmissible

variable {t part other : TypeExpr} {path path' : List TypeStep} {fault fault' : TypeError}

theorem HasPart.reaches (h : t.HasPart path part) : t.Reaches part := by
  induction h with
  | self t => exact .self t
  | element _ ih => exact .element ih
  | field hf _ ih => exact .field (List.mem_of_getElem? hf) ih

/-- Different paths of a type lead to parts that are looked at one after the other. -/
theorem HasPart.same_or_earlier (h : t.HasPart path part) (h' : t.HasPart path' other) :
    path = path' ∧ part = other ∨ Earlier path path' ∨ Earlier path' path := by
  induction h generalizing path' with
  | self t =>
    cases h' with
    | self => exact .inl ⟨rfl, rfl⟩
    | element => exact .inr (.inr (.inside _ _))
    | field => exact .inr (.inr (.inside _ _))
  | element _ ih =>
    cases h' with
    | self => exact .inr (.inl (.inside _ _))
    | element h' =>
      rcases ih h' with ⟨rfl, rfl⟩ | h | h
      · exact .inl ⟨rfl, rfl⟩
      · exact .inr (.inl (.under _ h))
      · exact .inr (.inr (.under _ h))
  | @field fields i f part path hf _ ih =>
    cases h' with
    | self => exact .inr (.inl (.inside _ _))
    | @field _ j g _ _ hg h' =>
      rcases Nat.lt_trichotomy i j with hij | rfl | hij
      · exact .inr (.inl (.left hij _ _))
      · obtain rfl := Option.some.inj (hf.symm.trans hg)
        rcases ih h' with ⟨rfl, rfl⟩ | h | h
        · exact .inl ⟨rfl, rfl⟩
        · exact .inr (.inl (.under _ h))
        · exact .inr (.inr (.under _ h))
      · exact .inr (.inr (.left hij _ _))

theorem OwnFault.not_isAdmissible (h : t.OwnFault fault) : ¬ t.IsAdmissible := by
  cases h with
  | symbolicLength name =>
    rintro ⟨raw, n, hname, -⟩
    cases hname
  | lengthExpr hlength => exact hlength
  | bitcoin hname => exact fun hadmissible => hname hadmissible.2
  | qualified name hpackage => exact fun hadmissible => hpackage hadmissible.1
  | slice | map | channel | interface | function | pointer => exact id

/-- A type has one fault of its own at most. -/
theorem OwnFault.unique (h : t.OwnFault fault) (h' : t.OwnFault fault') : fault = fault' := by
  cases h with
  | lengthExpr _ hname =>
    cases h' with
    | symbolicLength => cases hname
    | lengthExpr => rfl
  | symbolicLength =>
    cases h' with
    | symbolicLength => rfl
    | lengthExpr _ hname => cases hname
  | bitcoin =>
    cases h' with
    | bitcoin => rfl
    | qualified _ hpackage => exact absurd rfl hpackage
  | qualified _ hpackage =>
    cases h' with
    | bitcoin => exact absurd rfl hpackage
    | qualified => rfl
  | slice | map | channel | interface | function | pointer =>
    cases h'
    rfl

/-- What is no length of an array and no name is at fault for its shape. -/
theorem OwnFault.eq_shape {shape : String} (h : t.OwnFault (.unsupported shape)) :
    shape = t.shape := by
  cases h <;> rfl

namespace FirstFault

/-- Only an array can be at fault and have parts that count. -/
theorem alone (h : t.OwnFault fault) (harray : ∀ length element, t ≠ .array length element) :
    t.FirstFault [] t fault := by
  refine ⟨.self t, h, fun other earlier hother hearlier => ?_⟩
  cases hother with
  | self => cases hearlier
  | element => exact absurd rfl (harray _ _)
  | field => cases h

theorem element {length : Expr} {element : TypeExpr} (h : element.FirstFault path part fault) :
    (array length element).FirstFault (.element :: path) part fault := by
  refine ⟨.element h.hasPart, h.ownFault, fun other earlier hother hearlier => ?_⟩
  cases hearlier with
  | under _ hearlier =>
    cases hother with
    | element hother => exact h.admissible _ _ hother hearlier

/-- The length of an array is looked at when nothing in its element is at fault. -/
theorem length {length : Expr} {element : TypeExpr} (h : (array length element).OwnFault fault)
    (helement : element.Mappable) :
    (array length element).FirstFault [] (array length element) fault := by
  refine ⟨.self _, h, fun other earlier hother hearlier => ?_⟩
  cases hother with
  | self => cases hearlier
  | element hother => exact helement other hother.reaches

/-- A field is looked at when nothing in the fields before it is at fault. -/
theorem field {fields : List Field} {i : Nat} {f : Field} (hf : fields[i]? = some f)
    (hbefore : ∀ j < i, ∀ g, fields[j]? = some g → g.type.Mappable)
    (h : f.type.FirstFault path part fault) :
    (struct fields).FirstFault (.field i :: path) part fault := by
  refine ⟨.field hf h.hasPart, h.ownFault, fun other earlier hother hearlier => ?_⟩
  cases hearlier with
  | left hji =>
    cases hother with
    | field hg hother => exact hbefore _ hji _ hg other hother.reaches
  | under _ hearlier =>
    cases hother with
    | field hg hother =>
      obtain rfl := Option.some.inj (hf.symm.trans hg)
      exact h.admissible _ _ hother hearlier

theorem unique (h : t.FirstFault path part fault) (h' : t.FirstFault path' other fault') :
    path = path' ∧ part = other ∧ fault = fault' := by
  rcases h.hasPart.same_or_earlier h'.hasPart with ⟨rfl, rfl⟩ | hearlier | hearlier
  · exact ⟨rfl, rfl, h.ownFault.unique h'.ownFault⟩
  · exact absurd (h'.admissible _ _ h.hasPart hearlier) h.ownFault.not_isAdmissible
  · exact absurd (h.admissible _ _ h'.hasPart hearlier) h'.ownFault.not_isAdmissible

theorem not_mappable (h : t.FirstFault path part fault) : ¬ t.Mappable :=
  fun hmappable => h.ownFault.not_isAdmissible (hmappable part h.hasPart.reaches)

end FirstFault

end TypeExpr

namespace TargetType

open TypeExpr

theorem lengthOf_eq_error {length : Expr} {e : TypeError} (h : lengthOf length = .error e)
    (element : TypeExpr) : (TypeExpr.array length element).OwnFault e := by
  have hbad : ¬ (TypeExpr.array length element).IsAdmissible := by
    rw [← lengthOf_ok_iff, h]
    simp
  unfold lengthOf at h
  split at h
  · split at h
    · cases h
    · obtain rfl := Except.error.inj h
      exact .lengthExpr hbad rfl
  · obtain rfl := Except.error.inj h
    exact .symbolicLength _ _
  · rename_i hname
    obtain rfl := Except.error.inj h
    refine .lengthExpr hbad ?_
    cases length with
    | ident name => exact absurd rfl (hname name)
    | _ => rfl

theorem ofQualified_eq_error {package name : String} {e : TypeError}
    (h : ofQualified package name = .error e) : (TypeExpr.qualified package name).OwnFault e := by
  have hbad : ¬ (TypeExpr.qualified package name).IsAdmissible := by
    rw [← ofQualified_ok_iff, h]
    simp
  unfold ofQualified at h
  split at h
  · rename_i hpackage
    subst hpackage
    split at h
    · cases h
    · obtain rfl := Except.error.inj h
      exact .bitcoin fun hname => hbad ⟨rfl, hname⟩
  · rename_i hpackage
    obtain rfl := Except.error.inj h
    exact .qualified name hpackage

mutual

/-- The error of a type is that of its first part at fault. -/
theorem firstFault_of_ofType {e : TypeError} : ∀ {t : TypeExpr}, ofType t = .error e →
    ∃ path part fault, t.FirstFault path part fault ∧ e = fault.behind path
  | .named name, h => by simp [ofType] at h
  | .qualified package name, h =>
    ⟨[], _, e, .alone (ofQualified_eq_error h) nofun, rfl⟩
  | .array length element, h => by
    rw [ofType] at h
    split at h
    · rename_i inner hinner
      obtain rfl := Except.error.inj h
      obtain ⟨path, part, fault, hfirst, rfl⟩ := firstFault_of_ofType hinner
      exact ⟨_, part, fault, hfirst.element, rfl⟩
    · rename_i target helement
      split at h
      · -- The element has a target, so nothing before the length is at fault.
        rename_i hlength
        obtain rfl := Except.error.inj h
        exact ⟨[], _, _, .length (lengthOf_eq_error hlength element)
          (mappable_of_ofType_eq_ok helement), rfl⟩
      · cases h
  | .struct fields, h => by
    rw [ofType] at h
    split at h
    · rename_i hslots
      obtain rfl := Except.error.inj h
      obtain ⟨i, f, path, part, fault, hf, hbefore, hfirst, rfl⟩ := firstFault_of_slotsOf hslots
      exact ⟨_, part, fault, hfirst.field hf hbefore, rfl⟩
    · cases h
  | .slice element, h => by
    obtain rfl := Except.error.inj h
    exact ⟨[], _, _, .alone (.slice element) nofun, rfl⟩
  | .map key value, h => by
    obtain rfl := Except.error.inj h
    exact ⟨[], _, _, .alone (.map key value) nofun, rfl⟩
  | .channel direction element, h => by
    obtain rfl := Except.error.inj h
    exact ⟨[], _, _, .alone (.channel direction element) nofun, rfl⟩
  | .interface elements, h => by
    obtain rfl := Except.error.inj h
    exact ⟨[], _, _, .alone (.interface elements) nofun, rfl⟩
  | .function type, h => by
    obtain rfl := Except.error.inj h
    exact ⟨[], _, _, .alone (.function type) nofun, rfl⟩
  | .pointer target, h => by
    obtain rfl := Except.error.inj h
    exact ⟨[], _, _, .alone (.pointer target) nofun, rfl⟩

theorem firstFault_of_slotsOf {e : TypeError} : ∀ {fields : List Field}, slotsOf fields = .error e →
    ∃ (i : Nat) (f : Field) (path : List TypeStep) (part : TypeExpr) (fault : TypeError),
      fields[i]? = some f ∧ (∀ j < i, ∀ g, fields[j]? = some g → g.type.Mappable) ∧
        f.type.FirstFault path part fault ∧ e = fault.behind (.field i :: path)
  | [], h => by simp [slotsOf] at h
  | ⟨names, type⟩ :: fields, h => by
    rw [slotsOf] at h
    split at h
    · rename_i inner hinner
      obtain rfl := Except.error.inj h
      obtain ⟨path, part, fault, hfirst, rfl⟩ := firstFault_of_ofType hinner
      exact ⟨0, _, path, part, fault, rfl, nofun, hfirst, rfl⟩
    · rename_i target htype
      split at h
      · rename_i hslots
        obtain rfl := Except.error.inj h
        obtain ⟨i, f, path, part, fault, hf, hbefore, hfirst, rfl⟩ := firstFault_of_slotsOf hslots
        refine ⟨i + 1, f, path, part, fault, hf, fun j hj g hg => ?_, hfirst, rfl⟩
        cases j with
        | zero =>
          obtain rfl := Option.some.inj hg
          exact mappable_of_ofType_eq_ok htype
        | succ j => exact hbefore j (Nat.lt_of_succ_lt_succ hj) g hg
      · cases h

end

end TargetType

theorem firstFault_of_typeText {t : TypeExpr} {e : TypeError} (h : typeText t = .error e) :
    ∃ path part fault, t.FirstFault path part fault ∧ e = fault.behind path := by
  unfold typeText at h
  split at h
  · rename_i hfault
    obtain rfl := Except.error.inj h
    exact TargetType.firstFault_of_ofType hfault
  · cases h

/-- A type has a target type exactly if everything that it reaches can have one. Its error is
otherwise the own fault of the first part that has one, behind the path to that part. -/
theorem typeText_fault (t : TypeExpr) :
    ((∃ text, typeText t = .ok text) ↔ t.Mappable) ∧
      ∀ e, typeText t = .error e ↔
        ∃ path part fault, t.FirstFault path part fault ∧ e = fault.behind path ∧
          ∀ shape, fault = .unsupported shape → shape = part.shape := by
  refine ⟨typeText_ok_iff t, fun e => ⟨fun h => ?_, ?_⟩⟩
  · obtain ⟨path, part, fault, hfault, rfl⟩ := firstFault_of_typeText h
    refine ⟨path, part, fault, hfault, rfl, ?_⟩
    rintro shape rfl
    exact hfault.ownFault.eq_shape
  · rintro ⟨path, part, fault, hfault, rfl, -⟩
    cases htext : typeText t with
    | ok text => exact absurd ((typeText_ok_iff t).mp ⟨text, htext⟩) hfault.not_mappable
    | error e =>
      obtain ⟨path', part', fault', hfault', rfl⟩ := firstFault_of_typeText htext
      obtain ⟨rfl, rfl, rfl⟩ := hfault.unique hfault'
      rfl

/-- Of two fields at fault the first one is reported. -/
example : typeText (.struct [⟨["rows"], .array (.ident "N") (.struct [])⟩,
    ⟨["next"], .slice (.named "T")⟩]) = .error (.field (.symbolicLength "N")) :=
  rfl

end BoundedGo
