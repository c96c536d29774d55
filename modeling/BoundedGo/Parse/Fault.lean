import BoundedGo.Token
import BoundedGo.Token.Fault

/-!
Why a sequence of tokens is no program, and how that is reported. A fault names the token in
front of which reading stopped.
-/
namespace BoundedGo

/-- What could have stood in the place of a token. -/
inductive Expectation
  | symbol (s : Symbol)
  | keyword (w : Keyword)
  | identifier
  | statementEnd
  | importPath
  | declaration
  | type
  | structField
  | assignment
  | elseBody
  | commClause
  | selector
  | expression
  | expressionEnd
  deriving DecidableEq, Repr

def Expectation.words : Expectation → String
  | .symbol s => "`" ++ s.spelling ++ "`"
  | .keyword w => "`" ++ w.spelling ++ "`"
  | .identifier => "identifiant"
  | .statementEnd => "`;` ou fin de ligne"
  | .importPath => "chemin d’import"
  | .declaration => "déclaration (`func`, `const`, `var`, `type`)"
  | .type => "type"
  | .structField => "champ de struct"
  | .assignment => "`=` ou `:=`"
  | .elseBody => "`if` ou `\x7b` après `else`"
  | .commClause => "`case`, `default` ou `\x7d`"
  | .selector => "sélecteur"
  | .expression => "expression"
  | .expressionEnd => "fin d’expression"

/-- A token as a reader meets it: an inserted semicolon is the end of a line. -/
def Token.words (t : Token) : String :=
  if t.kind = .eof then "fin de fichier"
  else if t.kind = .symbol .semicolon ∧ t.lexeme = "\n" then "fin de ligne"
  else "`" ++ t.lexeme ++ "`"

inductive SyntaxFault
  | expected (wanted : Expectation) (found : Token)
  | receiverCount
  | genericFunction
  | genericType
  | paramName
  | mixedParams
  | inferredLength
  | statement (lexeme : String)
  | incDecOperands
  | sendOperands
  | label
  | rangeVariables
  | condition
  | typeAssertion
  | slicing
  /-- The bound on nested productions was reached; it is chosen so that none reaches it. -/
  | exhausted
  deriving DecidableEq, Repr

def SyntaxFault.message : SyntaxFault → String
  | .expected wanted found => wanted.words ++ " attendu, trouvé " ++ found.words
  | .receiverCount => "un seul récepteur attendu"
  | .genericFunction => "fonctions génériques non supportées"
  | .genericType => "types génériques non supportés"
  | .paramName => "nom de paramètre attendu"
  | .mixedParams => "paramètres nommés et anonymes mélangés"
  | .inferredLength => "tableaux `[...]T` non supportés"
  | .statement lexeme => "instruction `" ++ lexeme ++ "` non supportée"
  | .incDecOperands => "`++`/`--` sur une seule expression"
  | .sendOperands => "envoi `<-` sur une seule expression"
  | .label => "labels non supportés"
  | .rangeVariables => "`range` produit au plus deux valeurs"
  | .condition => "condition attendue"
  | .typeAssertion => "assertions de type non supportées"
  | .slicing => "slicing `a[i:j]` non supporté"
  | .exhausted => "imbrication trop profonde"

structure SyntaxError where
  fault : SyntaxFault
  span : Span
  deriving DecidableEq, Repr

def SyntaxError.message (e : SyntaxError) : String :=
  e.span.start.locate e.fault.message

/-- Why a source text is no program. -/
inductive SourceError
  | lexical (e : LexError)
  | syntactic (e : SyntaxError)
  deriving DecidableEq, Repr

def SourceError.message : SourceError → String
  | .lexical e => e.message
  | .syntactic e => e.message

end BoundedGo
