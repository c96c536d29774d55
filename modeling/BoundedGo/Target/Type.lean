import BoundedGo.Tree

/-!
The types of the target language and the Go types that have one: names, packages' types, arrays
of a literal length and structs, which become tuples.
-/
namespace BoundedGo

inductive TargetType
  | named (text : String)
  | array (element : TargetType) (length : Nat)
  | tuple (slots : List TargetType)

namespace TargetType

mutual

/-- The text of a type. A tuple of one slot keeps a comma behind it. -/
def text : TargetType → String
  | .named text => text
  | .array element length => "[" ++ element.text ++ "; " ++ Text.decimal length ++ "]"
  | .tuple slots =>
    match slots with
    | [] => "()"
    | slot :: [] => "(" ++ slot.text ++ ",)"
    | slot :: slots => "(" ++ slot.text ++ textAfter slots ++ ")"

/-- The text of the slots behind the first one. -/
def textAfter : List TargetType → String
  | [] => ""
  | slot :: slots => ", " ++ slot.text ++ textAfter slots

end

def signature : TargetType := .array (.named "u8") 64

end TargetType

/-- Why a Go type has no target type. The path to the part at fault is kept. -/
inductive TypeError
  | slice
  | symbolicLength (name : String)
  | lengthExpr
  | element (inner : TypeError)
  | field (inner : TypeError)
  | bitcoin (name : String)
  | qualified (package name : String)
  | unsupported (shape : String)
  deriving DecidableEq, Repr

def TypeError.message : TypeError → String
  | .slice => "slices are not supported, use fixed-size arrays"
  | .symbolicLength name =>
    "failed to evaluate array length: array length must be a literal integer (found `"
      ++ name ++ "`)"
  | .lengthExpr => "failed to evaluate array length: unsupported array length expression"
  | .element inner => "failed to map array element type: " ++ inner.message
  | .field inner => "failed to map struct field type: " ++ inner.message
  | .bitcoin name => "unsupported bitcoin type: " ++ name
  | .qualified package name => "unsupported qualified type: " ++ package ++ "." ++ name
  | .unsupported shape => "unsupported Go type: " ++ shape

namespace TargetType

/-- The names with a meaning of their own, in increasing order. -/
def builtins : List (String × TargetType) :=
  [("Address", .named "u256"), ("Hash", .named "u256"), ("Pubkey", .named "u256"),
   ("Signature", signature), ("bool", .named "bool"), ("byte", .named "u8"),
   ("uint16", .named "u16"), ("uint32", .named "u32"), ("uint64", .named "u64"),
   ("uint8", .named "u8")]

/-- The types of the package `bitcoin`. -/
def bitcoinTypes : List (String × TargetType) :=
  [("Hash", .named "u256"), ("Address", .named "u256"), ("Pubkey", .named "u256"),
   ("Signature", signature), ("Amount", .named "u64")]

/-- Other names stand for themselves: they are declared elsewhere. -/
def ofName (name : String) : TargetType :=
  match builtins.lookup name with
  | some t => t
  | none => .named name

def ofQualified (package name : String) : Except TypeError TargetType :=
  if package = "bitcoin" then
    match bitcoinTypes.lookup name with
    | some t => .ok t
    | none => .error (.bitcoin name)
  else .error (.qualified package name)

/-- The length of an array has to be an integer literal. -/
def lengthOf : Expr → Except TypeError Nat
  | .literal l =>
    match l.value? with
    | some n => .ok n
    | none => .error .lengthExpr
  | .ident name => .error (.symbolicLength name)
  | _ => .error .lengthExpr

mutual

/-- The target type of a Go type. The element of an array is looked at before its length. -/
def ofType : TypeExpr → Except TypeError TargetType
  | .named name => .ok (ofName name)
  | .qualified package name => ofQualified package name
  | .array length element =>
    match ofType element with
    | .error e => .error (.element e)
    | .ok t =>
      match lengthOf length with
      | .error e => .error e
      | .ok n => .ok (.array t n)
  | .slice _ => .error .slice
  | .struct fields =>
    match slotsOf fields with
    | .error e => .error e
    | .ok slots => .ok (.tuple slots)
  | .map _ _ => .error (.unsupported "map type")
  | .channel _ _ => .error (.unsupported "channel type")
  | .interface _ => .error (.unsupported "interface type")
  | .function _ => .error (.unsupported "function type")
  | .pointer _ => .error (.unsupported "pointer type")

/-- The slots of a struct: one for every name, and one for an embedded field. -/
def slotsOf : List Field → Except TypeError (List TargetType)
  | [] => .ok []
  | ⟨names, type⟩ :: fields =>
    match ofType type with
    | .error e => .error (.field e)
    | .ok t =>
      match slotsOf fields with
      | .error e => .error e
      | .ok slots => .ok (List.replicate (max 1 names.length) t ++ slots)

end

end TargetType

/-- The text of the target type of a Go type. -/
def typeText (type : TypeExpr) : Except TypeError String :=
  match TargetType.ofType type with
  | .error e => .error e
  | .ok t => .ok t.text

/-- The names with a target type of their own. -/
def supportedNames : List String := TargetType.builtins.map Prod.fst

end BoundedGo
