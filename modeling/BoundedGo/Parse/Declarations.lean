import BoundedGo.Parse.Expressions

/-!
Declarations of constants, variables and types.
-/
namespace BoundedGo

namespace Parse

open Grammar

/-- The tokens behind the names of a declaration where no type stands. -/
def endsNames : TokenKind → Bool
  | .symbol s => s = .assign || s = .semicolon || s = .parenClose || s = .braceClose
  | .eof => true
  | _ => false

def valueSpec (g : Grammar) : Parse ValueSpec := do
  let names ← commaSeparated identifier
  let type ← if endsNames (← kind) then pure none else some <$> g.type
  let values ← if ← accept Symbol.assign then exprs g else pure []
  return ⟨names, type, values⟩

/-- A bracket and a name behind the name of a type look like type parameters, unless the bracket
closes behind the name as it does around the length of an array. -/
def looksGeneric : Parse Bool := do
  return (← isAt Symbol.bracketOpen) && (← kindAt 1) = .ident
    && (← kindAt 2) ≠ .symbol .bracketClose

def typeSpec (g : Grammar) : Parse TypeSpec := do
  let name ← identifier
  if ← looksGeneric then fail .genericType
  else do
    let isAlias ← accept Symbol.assign
    return ⟨name, isAlias, ← g.type⟩

/-- One specification, or any number of them in parentheses. -/
def specs {α : Type} (spec : Parse α) : Parse (List α) := do
  if ← accept Symbol.parenOpen then statementsClosed .parenClose spec else return [← spec]

/-- The declarations that can also stand among statements. -/
def isLocalDecl : TokenKind → Bool
  | .keyword w => w = .const || w = .var || w = .type
  | _ => false

def localDecl (g : Grammar) : Parse Decl := do
  match ← kind with
  | .keyword .const => do skip; return .const (← specs (valueSpec g))
  | .keyword .var => do skip; return .var (← specs (valueSpec g))
  | .keyword .type => do skip; return .type (← specs (typeSpec g))
  | _ => refuse .declaration

end Parse

end BoundedGo
