import BoundedGo.Parse.Grammar

/-!
Types and signatures.
-/
namespace BoundedGo

/-- An entry of a parameter list as it is read. Whether a lone name is a type or the name of a
parameter shows only when the whole list is known. -/
inductive Param
  | anonymous (type : TypeExpr)
  | named (name : String) (type : TypeExpr)

namespace Param

def isNamed : Param → Bool
  | .anonymous _ => false
  | .named .. => true

def type : Param → TypeExpr
  | .anonymous type => type
  | .named _ type => type

/-- Gives the names that wait for a type the type of the next named entry. -/
def group : List String → List Param → Option (List Field)
  | [], [] => some []
  | _ :: _, [] => none
  | waiting, .anonymous (.named name) :: ps => group (waiting ++ [name]) ps
  | _, .anonymous _ :: _ => none
  | waiting, .named name type :: ps =>
    match group [] ps with
    | some fields => some (⟨waiting ++ [name], type⟩ :: fields)
    | none => none

/-- The fields of a parameter list: either no entry has a name, or every parameter has one. -/
def fields? (ps : List Param) : Option (List Field) :=
  if ps.any isNamed then group [] ps else some (ps.map (fun p => ⟨[], p.type⟩))

end Param

namespace Parse

open Grammar

/-- A parameter that takes any number of arguments is a slice. -/
def variadic (dots : Bool) (type : TypeExpr) : TypeExpr :=
  if dots then .slice type else type

def param (g : Grammar) : Parse Param := do
  if ← accept Symbol.ellipsis then
    return .anonymous (.slice (← g.type))
  else do
    let first ← g.type
    match ← kind with
    | .symbol .comma | .symbol .parenClose => return .anonymous first
    | _ =>
      match first with
      | .named name => do
        let dots ← accept Symbol.ellipsis
        return .named name (variadic dots (← g.type))
      | _ => fail .paramName

def params (g : Grammar) : Parse (List Field) := do
  expectSymbol .parenOpen
  let entries ← commaClosed .parenClose (param g)
  match Param.fields? entries with
  | some fields => return fields
  | none => fail .mixedParams

/-- The tokens that the type of a single result can begin with. -/
def startsType : TokenKind → Bool
  | .ident => true
  | .keyword w => w = .map || w = .chan || w = .struct || w = .interface || w = .func
  | .symbol s => s = .bracketOpen || s = .star || s = .arrow
  | _ => false

def results (g : Grammar) : Parse (List Field) := do
  let k ← kind
  if k = .symbol .parenOpen then params g
  else if startsType k then return [⟨[], ← g.type⟩]
  else return []

def signature (g : Grammar) : Parse FunctionType := do
  let params ← params g
  return ⟨params, ← results g⟩

/-- An array or a slice, behind its opening bracket. -/
def bracketType (g : Grammar) : Parse TypeExpr := do
  if ← accept Symbol.bracketClose then return .slice (← g.type)
  else if ← isAt Symbol.ellipsis then fail .inferredLength
  else do
    let length ← withLiterals true (g.binary 1)
    expectSymbol .bracketClose
    return .array length (← g.type)

def mapType (g : Grammar) : Parse TypeExpr := do
  expectSymbol .bracketOpen
  let key ← g.type
  expectSymbol .bracketClose
  return .map key (← g.type)

/-- A channel type behind `chan`. -/
def channelType (g : Grammar) : Parse TypeExpr := do
  let send ← accept Symbol.arrow
  return .channel (if send then .send else .both) (← g.type)

/-- A channel type behind the arrow of a channel that can only be received from. -/
def receiveType (g : Grammar) : Parse TypeExpr := do
  expectKeyword .chan
  return .channel .receive (← g.type)

/-- Whether a name in a struct is the type of an embedded field, by the token behind it. -/
def endsEmbedded : TokenKind → Bool
  | .symbol s => s = .dot || s = .semicolon || s = .braceClose
  | .literal .string => true
  | _ => false

def embeddedField (g : Grammar) : Parse Field := do
  return ⟨[], ← g.type⟩

def namedField (g : Grammar) : Parse Field := do
  let names ← commaSeparated identifier
  return ⟨names, ← g.type⟩

/-- A field of a struct, without the tag that may follow it. -/
def untaggedField (g : Grammar) : Parse Field := do
  match ← kind with
  | .symbol .star => embeddedField g
  | .ident => if endsEmbedded (← kindAt 1) then embeddedField g else namedField g
  | _ => refuse .structField

def structField (g : Grammar) : Parse Field := do
  let field ← untaggedField g
  let _ ← accept (.literal .string)
  return field

/-- A struct type behind `struct`. -/
def structType (g : Grammar) : Parse TypeExpr := do
  expectSymbol .braceOpen
  return .struct (← statementsClosed .braceClose (structField g))

/-- An embedded interface. Of a union only the first member is kept. -/
def embeddedInterface (g : Grammar) : Parse Field := do
  let _ ← accept Symbol.tilde
  let first ← g.type
  let _ ← collect do
    if ← accept Symbol.bar then
      let _ ← accept Symbol.tilde
      return some (← g.type)
    else return none
  return ⟨[], first⟩

def method (g : Grammar) : Parse Field := do
  let name ← identifier
  return ⟨[name], .function (← signature g)⟩

def interfaceElement (g : Grammar) : Parse Field := do
  if (← kind) = .ident && (← kindAt 1) = .symbol .parenOpen then method g
  else embeddedInterface g

/-- An interface type behind `interface`. -/
def interfaceType (g : Grammar) : Parse TypeExpr := do
  expectSymbol .braceOpen
  return .interface (← statementsClosed .braceClose (interfaceElement g))

/-- A type name, which may be qualified by a package. -/
def typeName (name : String) : Parse TypeExpr := do
  if ← accept Symbol.dot then return .qualified name (← identifier) else return .named name

def parenType (g : Grammar) : Parse TypeExpr := do
  let type ← g.type
  expectSymbol .parenClose
  return type

def typeExpr (g : Grammar) : Parse TypeExpr := do
  let t ← current
  match t.kind with
  | .ident => do skip; typeName t.lexeme
  | .symbol .bracketOpen => do skip; bracketType g
  | .keyword .map => do skip; mapType g
  | .keyword .chan => do skip; channelType g
  | .symbol .arrow => do skip; receiveType g
  | .keyword .struct => do skip; structType g
  | .keyword .interface => do skip; interfaceType g
  | .keyword .func => do skip; return .function (← signature g)
  | .symbol .star => do skip; return .pointer (← g.type)
  | .symbol .parenOpen => do skip; parenType g
  | _ => refuse .type

end Parse

end BoundedGo
