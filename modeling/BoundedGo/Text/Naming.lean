/-!
Names in the style of the target language. A capital of the ASCII alphabet becomes a small letter
with an underscore in front, except that the first character gets no underscore.
-/
namespace BoundedGo.Text

def snakeChar (c : Char) : List Char :=
  if c.isUpper then ['_', c.toLower] else [c]

def snakeChars : List Char → List Char
  | [] => []
  | c :: cs => c.toLower :: cs.flatMap snakeChar

def snakeCase (name : String) : String :=
  String.ofList (snakeChars name.toList)

/-- Whether a text occurs in another one. -/
def occursIn (needle : List Char) : List Char → Bool
  | [] => needle.isEmpty
  | c :: cs => needle.isPrefixOf (c :: cs) || occursIn needle cs

end BoundedGo.Text
