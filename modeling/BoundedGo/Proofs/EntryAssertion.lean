import BoundedGo.Emission
import Mathlib.Data.List.Infix

/-!
What the entry point of a program asserts. The first witness whose name speaks of a result is
asserted itself. Otherwise the last function is called with the first truth values among the
witnesses, if they are as many as its parameters, and in all other cases `true` is asserted. A name
speaks of a result if the word occurs in it once its letters are made small, and the letters of
other scripts have no part in that.
Main statement: what is asserted, the warning that goes with it and where it stands in the text
(`assertion_of_program`).
-/
namespace BoundedGo

namespace Text

theorem occursIn_iff {needle cs : List Char} : occursIn needle cs ↔ needle <:+: cs := by
  induction cs with
  | nil => simp [occursIn]
  | cons c cs ih =>
    rw [occursIn, Bool.or_eq_true, List.isPrefixOf_iff_prefix, ih, List.infix_cons_iff]

/-- The letters of a text made small. Outside ASCII it is left open which letters one letter
becomes, but they are none of the word `result`. -/
inductive Lowers : List Char → List Char → Prop
  | nil : Lowers [] []
  | ascii {c : Char} {cs small : List Char} (hc : c.toNat < 128) (hcs : Lowers cs small) :
    Lowers (c :: cs) (c.toLower :: small)
  | other {c : Char} {cs letters small : List Char} (hc : 128 ≤ c.toNat) (hsome : letters ≠ [])
    (hletters : ∀ d ∈ letters, d ∉ "result".toList) (hcs : Lowers cs small) :
    Lowers (c :: cs) (letters ++ small)

/-- A letter outside ASCII is no capital of it. -/
theorem toLower_of_le {c : Char} (hc : 128 ≤ c.toNat) : c.toLower = c := by
  have hnot : ¬ (c.val ≥ 'A'.val ∧ c.val ≤ 'Z'.val) := by
    intro ⟨_, hle⟩
    have hsmall : c.toNat ≤ 90 := UInt32.le_iff_toNat_le.mp hle
    omega
  exact dif_neg hnot

theorem not_mem_result_of_le {c : Char} (hc : 128 ≤ c.toNat) : c ∉ "result".toList := by
  intro hmem
  have hall : "result".toList.all fun d => d.toNat < 128 := by decide
  have hlt : c.toNat < 128 := by simpa using List.all_eq_true.mp hall c hmem
  omega

/-- A word that does not begin with a letter begins behind it. -/
theorem infix_cons_iff_of_ne {c d : Char} {word cs : List Char} (h : d ≠ c) :
    d :: word <:+: c :: cs ↔ d :: word <:+: cs := by
  rw [List.infix_cons_iff, List.cons_prefix_cons]
  simp [h]

theorem infix_append_iff_of_ne {d : Char} {word letters cs : List Char}
    (h : ∀ c ∈ letters, d ≠ c) : d :: word <:+: letters ++ cs ↔ d :: word <:+: cs := by
  induction letters with
  | nil => rfl
  | cons c letters ih =>
    obtain ⟨hc, hletters⟩ := List.forall_mem_cons.mp h
    rw [List.cons_append, infix_cons_iff_of_ne hc, ih hletters]

namespace Lowers

variable {cs small : List Char}

theorem exists_of_text (cs : List Char) : ∃ small, Lowers cs small := by
  induction cs with
  | nil => exact ⟨[], .nil⟩
  | cons c cs ih =>
    obtain ⟨small, hsmall⟩ := ih
    by_cases hc : c.toNat < 128
    · exact ⟨_, .ascii hc hsmall⟩
    · have hletters : ∀ d ∈ [c], d ∉ "result".toList :=
        List.forall_mem_singleton.mpr (not_mem_result_of_le (by omega))
      exact ⟨_, .other (by omega) (List.cons_ne_nil c []) hletters hsmall⟩

/-- Letters that the word does not have cannot begin it. -/
theorem isPrefix_iff (h : Lowers cs small) {word : List Char}
    (hword : ∀ c ∈ word, c ∈ "result".toList) :
    word <+: small ↔ word <+: cs.map Char.toLower := by
  induction h generalizing word with
  | nil => rfl
  | @ascii c cs small hc hcs ih =>
    cases word with
    | nil => simp
    | cons d word =>
      rw [List.map_cons, List.cons_prefix_cons, List.cons_prefix_cons,
        ih (List.forall_mem_cons.mp hword).2]
  | @other c cs letters small hc hsome hletters hcs ih =>
    cases word with
    | nil => simp
    | cons d word =>
      have hd := (List.forall_mem_cons.mp hword).1
      obtain ⟨e, letters, rfl⟩ := List.exists_cons_of_ne_nil hsome
      have hletter : d ≠ e := fun heq => hletters e List.mem_cons_self (heq ▸ hd)
      have hother : d ≠ c := fun heq => not_mem_result_of_le hc (heq ▸ hd)
      rw [List.map_cons, toLower_of_le hc, List.cons_append, List.cons_prefix_cons,
        List.cons_prefix_cons]
      simp [hletter, hother]

/-- However the letters outside ASCII are made small, the word occurs or does not. -/
theorem isInfix_iff (h : Lowers cs small) :
    "result".toList <:+: small ↔ "result".toList <:+: cs.map Char.toLower := by
  induction h with
  | nil => rfl
  | @ascii c cs small hc hcs ih =>
    have hhere : "result".toList <+: c.toLower :: small ↔
        "result".toList <+: (c :: cs).map Char.toLower :=
      (Lowers.ascii hc hcs).isPrefix_iff fun c hc => hc
    rw [List.map_cons, List.infix_cons_iff, List.infix_cons_iff, ih, hhere, List.map_cons]
  | @other c cs letters small hc hsome hletters hcs ih =>
    have hinitial : 'r' ∈ "result".toList := by decide
    have hbehind : "result".toList <:+: letters ++ small ↔ "result".toList <:+: small :=
      infix_append_iff_of_ne fun d hd heq => hletters d hd (heq ▸ hinitial)
    have hhere : "result".toList <:+: c :: cs.map Char.toLower ↔
        "result".toList <:+: cs.map Char.toLower :=
      infix_cons_iff_of_ne fun heq => not_mem_result_of_le hc (heq ▸ hinitial)
    rw [List.map_cons, toLower_of_le hc, hbehind, hhere, ih]

end Lowers

end Text

theorem Lines.text_append (front back : Lines) :
    (front ++ back).text = front.text ++ back.text := by
  induction front with
  | nil => rw [List.nil_append, text, String.empty_append]
  | cons line front ih =>
    rw [List.cons_append, text, text, ih]
    simp only [String.append_assoc]

/-- A name that has the word `result` in it, in letters of either case. -/
def SpeaksOfResult (name : String) : Prop :=
  ∃ small, Text.Lowers name.toList small ∧ "result".toList <:+: small

namespace Emission

theorem namesResult_iff {w : Witness} : namesResult w ↔ SpeaksOfResult w.name := by
  rw [namesResult, Text.occursIn_iff]
  constructor
  · intro hmem
    obtain ⟨small, hsmall⟩ := Text.Lowers.exists_of_text w.name.toList
    exact ⟨small, hsmall, hsmall.isInfix_iff.mpr hmem⟩
  · intro ⟨small, hsmall, hmem⟩
    exact hsmall.isInfix_iff.mp hmem

theorem find?_namesResult_eq_none {a : Analysis} :
    a.witnesses.find? namesResult = none ↔ ∀ w ∈ a.witnesses, ¬ SpeaksOfResult w.name := by
  simp only [List.find?_eq_none, namesResult_iff]

/-- What the entry point is to assert. -/
inductive Asserts (a : Analysis) : Assertion → Prop
  /-- The first witness whose name speaks of a result. -/
  | witness {front : List Witness} {w : Witness} {back : List Witness}
    (hwitnesses : a.witnesses = front ++ w :: back) (hw : SpeaksOfResult w.name)
    (hfront : ∀ u ∈ front, ¬ SpeaksOfResult u.name) : Asserts a (.witness (witnessName w))
  /-- The last function on as many truth values as it has parameters. -/
  | call {hs : List Helper} {f : Helper} {used others : List Witness}
    (hnone : ∀ w ∈ a.witnesses, ¬ SpeaksOfResult w.name) (hlast : a.helpers = hs ++ [f])
    (hbools : a.witnesses.filter Witness.isBool = used ++ others)
    (hused : used.length = f.params.length) : Asserts a (.call f.name (used.map witnessName))
  | lacksArguments {hs : List Helper} {f : Helper}
    (hnone : ∀ w ∈ a.witnesses, ¬ SpeaksOfResult w.name) (hlast : a.helpers = hs ++ [f])
    (hfew : a.witnesses.countP Witness.isBool < f.params.length) : Asserts a .trivial
  | nothingToCall (hnone : ∀ w ∈ a.witnesses, ¬ SpeaksOfResult w.name)
    (hhelpers : a.helpers = []) : Asserts a .trivial

theorem asserts_chooseAssertion (a : Analysis) : Asserts a (chooseAssertion a).1 := by
  unfold chooseAssertion
  split
  · rename_i w hfound
    obtain ⟨hw, front, back, hwitnesses, hfront⟩ := List.find?_eq_some_iff_append.mp hfound
    refine .witness hwitnesses (namesResult_iff.mp hw) fun u hu => ?_
    have hnot := hfront u hu
    rw [← namesResult_iff]
    simpa using hnot
  · rename_i hnotFound
    have hnone := find?_namesResult_eq_none.mp hnotFound
    split
    · rename_i hhelpers
      exact .nothingToCall hnone (List.getLast?_eq_none_iff.mp hhelpers)
    · rename_i f hlast
      obtain ⟨hs, hhelpers⟩ := List.getLast?_eq_some_iff.mp hlast
      have hbools := (List.take_append_drop f.params.length
        (a.witnesses.filter Witness.isBool)).symm
      dsimp only
      split
      · rename_i hlength
        rw [List.length_map] at hlength
        exact .call hnone hhelpers hbools hlength
      · rename_i hlength
        rw [List.length_map, List.length_take] at hlength
        refine .lacksArguments hnone hhelpers ?_
        rw [List.countP_eq_length_filter]
        omega

/-- No two assertions are right for the same program. -/
theorem Asserts.eq_chooseAssertion {a : Analysis} {assertion : Assertion} (h : Asserts a assertion) :
    (chooseAssertion a).1 = assertion := by
  unfold chooseAssertion
  cases h with
  | @witness front w back hwitnesses hw hfront =>
    have hfound : a.witnesses.find? namesResult = some w := by
      refine List.find?_eq_some_iff_append.mpr
        ⟨namesResult_iff.mpr hw, front, back, hwitnesses, ?_⟩
      intro u hu
      have hnot := hfront u hu
      rw [← namesResult_iff] at hnot
      simpa using hnot
    rw [hfound]
  | @call hs f used others hnone hlast hbools hused =>
    have htake : (a.witnesses.filter Witness.isBool).take f.params.length = used := by
      rw [hbools, ← hused, List.take_left]
    simp [find?_namesResult_eq_none.mpr hnone, hlast, htake, hused]
  | @lacksArguments hs f hnone hlast hfew =>
    have hlength : min f.params.length (a.witnesses.filter Witness.isBool).length
        ≠ f.params.length := by
      rw [← List.countP_eq_length_filter]
      omega
    simp [find?_namesResult_eq_none.mpr hnone, hlast, hlength]
  | nothingToCall hnone hhelpers =>
    simp [find?_namesResult_eq_none.mpr hnone, hhelpers]

theorem chooseAssertion_eq_iff {a : Analysis} {assertion : Assertion} :
    (chooseAssertion a).1 = assertion ↔ Asserts a assertion := by
  constructor
  · intro h
    rw [← h]
    exact asserts_chooseAssertion a
  · exact Asserts.eq_chooseAssertion

theorem mem_of_filter_eq_append {ws used others : List Witness}
    (h : ws.filter Witness.isBool = used ++ others) {w : Witness} (hw : w ∈ used) :
    w ∈ ws ∧ w.isBool := by
  rw [← List.mem_filter, h]
  exact List.mem_append_left _ hw

/-- A guess is reported, and nothing else is. -/
theorem diagnostics_of_chooseAssertion (a : Analysis) :
    (∃ name, (chooseAssertion a).1 = .witness name ∧ (chooseAssertion a).2 = []) ∨
      (∀ name, (chooseAssertion a).1 ≠ .witness name) ∧
        ∃ d, (chooseAssertion a).2 = [d] ∧ d.severity = .warning := by
  unfold chooseAssertion
  split
  · exact .inl ⟨_, rfl, rfl⟩
  · right
    split
    · exact ⟨nofun, _, rfl, rfl⟩
    · dsimp only
      split
      · exact ⟨nofun, _, rfl, rfl⟩
      · exact ⟨nofun, _, rfl, rfl⟩

/-- The assertion stands in the last function of the text. -/
theorem exists_text_eq (a : Analysis) : ∃ front, (generate a).1 = front ++
    "fn main() \x7b\n    assert!(" ++ assertionText (chooseAssertion a).1 ++ ");\n\x7d\n" := by
  have hentry : ∀ assertion : Assertion, (entryLines assertion).text =
      "fn main() \x7b\n    assert!(" ++ assertionText assertion ++ ");\n\x7d\n" := by
    intro assertion
    have hfront : "fn main() \x7b\n    assert!(" =
        "fn main()" ++ openBrace ++ "\n" ++ Lines.indented 1 "assert!(" := by decide
    have hback : ");\n\x7d\n" = ");" ++ "\n" ++ (closeBrace ++ "\n" ++ "") := by decide
    rw [hfront, hback]
    simp only [entryLines, Lines.text, Lines.indented, String.append_assoc]
  refine ⟨(witnessBlock a.witnesses ++ constantBlock a.constants ++ [""]
    ++ a.helpers.flatMap helperLines : Lines).text, ?_⟩
  rw [generate, programLines, Lines.text_append, hentry]
  simp only [String.append_assoc]

end Emission

end BoundedGo
