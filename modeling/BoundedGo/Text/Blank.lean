import BoundedGo.Text.Ranges

/-!
White space, and the text that is left when it is cut off at both ends.
-/
namespace BoundedGo.Text

/-- The code points with the property White_Space. -/
def blank : Ranges := [
  (0x9, 0xD), (0x20, 0x20), (0x85, 0x85), (0xA0, 0xA0), (0x1680, 0x1680), (0x2000, 0x200A),
  (0x2028, 0x2029), (0x202F, 0x202F), (0x205F, 0x205F), (0x3000, 0x3000)]

def isBlank (c : Char) : Bool :=
  blank.covers c.toNat

/-- Drops the white space at both ends. -/
def trimBlank (cs : List Char) : List Char :=
  ((cs.dropWhile isBlank).reverse.dropWhile isBlank).reverse

/-- Drops the white space at both ends of a string. -/
def trimmed (s : String) : String :=
  String.ofList (trimBlank s.toList)

end BoundedGo.Text
