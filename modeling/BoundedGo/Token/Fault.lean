import BoundedGo.Position
import BoundedGo.Text.Quoted

/-!
Why a stretch of source text is no token, and how that is reported.
-/
namespace BoundedGo

/-- The bases that an integer literal can announce. -/
inductive Base
  | hex | binary | octal
  deriving DecidableEq, Repr

namespace Base

def label : Base → String
  | .hex => "hex"
  | .binary => "binaire"
  | .octal => "octal"

/-- The digits of the base, letters in either case. -/
def hasDigit : Base → Char → Bool
  | .hex, c => c.isDigit || ('a' ≤ c && c ≤ 'f') || ('A' ≤ c && c ≤ 'F')
  | .binary, c => c = '0' || c = '1'
  | .octal, c => '0' ≤ c && c ≤ '7'

end Base

inductive LexFault
  | digitExpected (base : Base)
  | exponentDigitExpected
  | octalDigit
  | cutEscape
  | openString
  | openRawString
  | openRune
  | emptyRune
  | openComment
  | unexpected (c : Char)
  deriving DecidableEq, Repr

def LexFault.message : LexFault → String
  | .digitExpected base => base.label ++ ": chiffre attendu"
  | .exponentDigitExpected => "exposant: chiffre attendu"
  | .octalDigit => "entier octal invalide"
  | .cutEscape => "échappe incomplète"
  | .openString => "chaîne non terminée"
  | .openRawString => "chaîne brute non terminée"
  | .openRune => "rune non terminée"
  | .emptyRune => "rune vide"
  | .openComment => "commentaire /* ... */ non terminé"
  | .unexpected c => "caractère inattendu: " ++ Text.quotedChar c

/-- A fault with the text it was found in: from the start of the token or comment to the place
where reading stopped. -/
structure LexError where
  fault : LexFault
  span : Span
  deriving DecidableEq, Repr

/-- A message with the place that it speaks of. -/
def Position.locate (p : Position) (message : String) : String :=
  s!"{message} (line {p.line}, col {p.column})"

def LexError.message (e : LexError) : String :=
  e.span.start.locate e.fault.message

end BoundedGo
