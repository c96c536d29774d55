import BoundedGo.Target.Type

/-!
The Go types that have a target type. Only the elements of arrays and the fields of structs count
for the type around them; they are reached, and so are their own elements and fields. A type has a
target type when everything that it reaches is a name, a type of the package `bitcoin`, a struct
or an array of a literal length.
Main statement: the text of a target type is found exactly for these types (`typeText_ok_iff`).
-/
namespace BoundedGo

namespace TypeExpr

/-- A type, the elements of the arrays in it and the types of the fields of the structs in it. -/
inductive Reaches : TypeExpr → TypeExpr → Prop
  | self (t : TypeExpr) : Reaches t t
  | element {length : Expr} {element part : TypeExpr} (h : Reaches element part) :
    Reaches (.array length element) part
  | field {fields : List Field} {f : Field} {part : TypeExpr} (hf : f ∈ fields)
    (h : Reaches f.type part) : Reaches (.struct fields) part

/-- The types of the package `bitcoin` that have a target type. -/
def bitcoinNames : List String := ["Hash", "Address", "Pubkey", "Signature", "Amount"]

/-- Whether a type can have a target type, whatever it reaches. -/
def IsAdmissible : TypeExpr → Prop
  | .named _ => True
  | .qualified package name => package = "bitcoin" ∧ name ∈ bitcoinNames
  | .array length _ => ∃ raw n, length = .literal ⟨.int, raw⟩ ∧ Literal.value? ⟨.int, raw⟩ = some n
  | .struct _ => True
  | .slice _ | .map .. | .channel .. | .interface _ | .function _ | .pointer _ => False

def Mappable (t : TypeExpr) : Prop :=
  ∀ part, t.Reaches part → part.IsAdmissible

theorem mappable_array_iff (length : Expr) (element : TypeExpr) :
    (array length element).Mappable ↔
      (array length element).IsAdmissible ∧ element.Mappable := by
  constructor
  · intro h
    exact ⟨h _ (.self _), fun part hpart => h part (.element hpart)⟩
  · rintro ⟨hself, helement⟩ part (_ | hpart)
    · exact hself
    · exact helement part hpart

theorem mappable_struct_iff (fields : List Field) :
    (struct fields).Mappable ↔ ∀ f ∈ fields, f.type.Mappable := by
  constructor
  · intro h f hf part hpart
    exact h part (.field hf hpart)
  · rintro h part (_ | _ | ⟨hf, hpart⟩)
    · trivial
    · exact h _ hf part hpart

/-- What is neither an array nor a struct reaches only itself. -/
theorem mappable_iff_of_alone {t : TypeExpr} (h : ∀ part, t.Reaches part → part = t) :
    t.Mappable ↔ t.IsAdmissible := by
  constructor
  · intro hmap
    exact hmap t (.self t)
  · intro hself part hpart
    rw [h part hpart]
    exact hself

end TypeExpr

namespace TargetType

open TypeExpr

theorem lengthOf_ok_iff (length : Expr) (element : TypeExpr) :
    (∃ n, lengthOf length = .ok n) ↔ (TypeExpr.array length element).IsAdmissible := by
  constructor
  · rintro ⟨n, h⟩
    unfold lengthOf at h
    split at h
    · rename_i l
      split at h
      · rename_i m hvalue
        obtain ⟨kind, raw⟩ := l
        have hkind : kind = .int := by
          cases kind <;> first | rfl | cases hvalue
        subst hkind
        exact ⟨raw, m, rfl, hvalue⟩
      · cases h
    · cases h
    · cases h
  · rintro ⟨raw, n, rfl, hvalue⟩
    exact ⟨n, by simp [lengthOf, hvalue]⟩

theorem ofQualified_ok_iff (package name : String) :
    (∃ t, ofQualified package name = .ok t) ↔ (qualified package name).IsAdmissible := by
  have hnames : (∃ t, bitcoinTypes.lookup name = some t) ↔ name ∈ bitcoinNames := by
    rw [← Option.isSome_iff_exists, List.lookup_isSome_iff]
    simp [bitcoinTypes, bitcoinNames]
  simp only [IsAdmissible, ← hnames, ofQualified]
  by_cases hpackage : package = "bitcoin"
  · cases hlookup : bitcoinTypes.lookup name <;> simp [hpackage]
  · simp [hpackage]

mutual

theorem ofType_ok_iff : ∀ t : TypeExpr, (∃ target, ofType t = .ok target) ↔ t.Mappable
  | .named name => by
    rw [mappable_iff_of_alone (by rintro _ (_ | _); rfl)]
    exact ⟨fun _ => trivial, fun _ => ⟨ofName name, rfl⟩⟩
  | .qualified package name => by
    rw [mappable_iff_of_alone (by rintro _ (_ | _); rfl)]
    exact ofQualified_ok_iff package name
  | .array length element => by
    rw [mappable_array_iff, ← lengthOf_ok_iff, ← ofType_ok_iff element, ofType]
    cases ofType element with
    | error e => simp
    | ok t => cases lengthOf length <;> simp
  | .struct fields => by
    rw [mappable_struct_iff, ← slotsOf_ok_iff fields, ofType]
    cases slotsOf fields <;> simp
  | .slice _ | .map .. | .channel .. | .interface _ | .function _ | .pointer _ => by
    rw [mappable_iff_of_alone (by rintro _ (_ | _); rfl)]
    simp [ofType, IsAdmissible]

theorem slotsOf_ok_iff : ∀ fields : List Field,
    (∃ slots, slotsOf fields = .ok slots) ↔ ∀ f ∈ fields, f.type.Mappable
  | [] => by simp [slotsOf]
  | ⟨names, type⟩ :: fields => by
    rw [List.forall_mem_cons, ← slotsOf_ok_iff fields, ← ofType_ok_iff type, slotsOf]
    cases ofType type with
    | error e => simp
    | ok t => cases slotsOf fields <;> simp

end

theorem mappable_of_ofType_eq_ok {t : TypeExpr} {target : TargetType} (h : ofType t = .ok target) :
    t.Mappable :=
  (ofType_ok_iff t).mp ⟨target, h⟩

end TargetType

/-- A type has a target type exactly if everything that it reaches can have one. -/
theorem typeText_ok_iff (t : TypeExpr) : (∃ text, typeText t = .ok text) ↔ t.Mappable := by
  rw [← TargetType.ofType_ok_iff t, typeText]
  cases TargetType.ofType t <;> simp

end BoundedGo
