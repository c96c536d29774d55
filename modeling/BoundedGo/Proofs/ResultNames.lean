import BoundedGo.Proofs.DefinedNames
import BoundedGo.Proofs.EntryAssertion
import BoundedGo.Proofs.ProgramTexts
import BoundedGo.Proofs.Renaming

/-!
Which names of a source speak of a result. The word is looked for in the name that a variable gets
in the small-letter style, and in that style a later capital has an underscore in front of it. So a
word of small letters is found where the source writes it in small letters or with a capital in
front, and it is missed where a later letter of it is a capital.
Main statement: a witness is asserted exactly if a name of the source shows the word in one of these
two ways, and it is the first such name (`result_asserted_iff`).
-/
namespace BoundedGo

namespace Text

/-- Letters that stand for themselves in the small-letter style. -/
def AreSmall (word : List Char) : Prop := ∀ d ∈ word, d ≠ '_' ∧ d.isUpper = false

/-- A capital is told by its small letter. -/
theorem toLower_eq_toLower_iff {c d : Char} (hd : d.isUpper) :
    c.toLower = d.toLower ↔ c = d.toLower ∨ c = d := by
  constructor
  · intro h
    by_cases hc : c.isUpper
    · right
      rw [← (toLower_facts hc).2.2, h, (toLower_facts hd).2.2]
    · left
      rwa [toLower_of_not_isUpper hc] at h
  · rintro (rfl | rfl)
    · rw [toLower_of_not_isUpper (by rw [isUpper_toLower]; exact Bool.false_ne_true)]
    · rfl

/-- Small letters are written where they are read. -/
theorem prefix_flatMap_snakeChar_iff {word cs : List Char} (hword : AreSmall word) :
    word <+: cs.flatMap snakeChar ↔ word <+: cs := by
  induction word generalizing cs with
  | nil => simp
  | cons d word ih =>
    obtain ⟨⟨hunderscore, hsmall⟩, hword⟩ := List.forall_mem_cons.mp hword
    cases cs with
    | nil => rfl
    | cons c cs =>
      by_cases hc : c.isUpper
      · have hne : d ≠ c := by
          rintro rfl
          rw [hsmall] at hc
          cases hc
        rw [List.flatMap_cons, snakeChar_of_isUpper hc]
        simp [List.cons_prefix_cons, hunderscore, hne]
      · rw [List.flatMap_cons, snakeChar_of_not_isUpper hc, List.singleton_append,
          List.cons_prefix_cons, List.cons_prefix_cons, ih hword]

variable {c : Char} {word : List Char}

/-- A word of small letters, or the same word with a capital in front. -/
def Shows (c : Char) (word cs : List Char) : Prop :=
  c.toLower :: word <:+: cs ∨ c :: word <:+: cs

theorem shows_cons_iff {d : Char} {cs : List Char} (hc : c.isUpper) :
    Shows c word (d :: cs) ↔ (d.toLower = c.toLower ∧ word <+: cs) ∨ Shows c word cs := by
  rw [toLower_eq_toLower_iff hc]
  simp only [Shows, List.infix_cons_iff, List.cons_prefix_cons]
  grind

/-- The word is read behind the first letter of a name where it is shown there. -/
theorem infix_flatMap_snakeChar_iff (hc : c.isUpper) (hword : AreSmall word) {cs : List Char} :
    c.toLower :: word <:+: cs.flatMap snakeChar ↔ Shows c word cs := by
  induction cs with
  | nil => simp [Shows]
  | cons d cs ih =>
    obtain ⟨-, hunderscore, -⟩ := toLower_facts hc
    rw [shows_cons_iff hc, ← ih, List.flatMap_cons]
    by_cases hd : d.isUpper
    -- No word begins with the underscore in front of a capital.
    · rw [snakeChar_of_isUpper hd, List.cons_append, infix_cons_iff_of_ne hunderscore,
        List.singleton_append, List.infix_cons_iff, List.cons_prefix_cons,
        prefix_flatMap_snakeChar_iff hword, eq_comm]
    · rw [snakeChar_of_not_isUpper hd, List.singleton_append, List.infix_cons_iff,
        List.cons_prefix_cons, prefix_flatMap_snakeChar_iff hword, toLower_of_not_isUpper hd,
        eq_comm]

/-- The small-letter style of a name has the word exactly if the name shows it. -/
theorem infix_snakeChars_iff (hc : c.isUpper) (hword : AreSmall word) {cs : List Char} :
    c.toLower :: word <:+: snakeChars cs ↔ Shows c word cs := by
  cases cs with
  | nil => simp [Shows, snakeChars]
  | cons d cs =>
    rw [snakeChars, shows_cons_iff hc, List.infix_cons_iff, List.cons_prefix_cons,
      prefix_flatMap_snakeChar_iff hword, infix_flatMap_snakeChar_iff hc hword, eq_comm]

/-- Nothing is left to be made small. -/
theorem map_toLower_snakeChars (cs : List Char) :
    (snakeChars cs).map Char.toLower = snakeChars cs := by
  refine (List.map_congr_left fun c hc => ?_).trans (List.map_id _)
  exact toLower_of_not_isUpper (by simp [not_isUpper_of_mem_snakeChars hc])

end Text

/-- Whether a name has the word in it once its capitals are made small. -/
def saysResult (name : String) : Bool :=
  Text.occursIn "result".toList (name.toList.map Char.toLower)

/-- Whether a name has the word in it in small letters or with a capital in front. -/
def showsResult (name : String) : Bool :=
  Text.occursIn "result".toList name.toList || Text.occursIn "Result".toList name.toList

theorem showsResult_iff {name : String} :
    showsResult name ↔ Text.Shows 'R' "esult".toList name.toList := by
  rw [showsResult, Bool.or_eq_true, Text.occursIn_iff, Text.occursIn_iff]
  rfl

/-- What the small-letter style of a name says is what the name shows. -/
theorem saysResult_snakeCase (name : String) :
    saysResult (Text.snakeCase name) = showsResult name := by
  have hword : Text.AreSmall "esult".toList := by
    have hall : "esult".toList.all fun d => d ≠ '_' && !d.isUpper := by decide
    intro d hd
    simpa using List.all_eq_true.mp hall d hd
  have htext : (Text.snakeCase name).toList = Text.snakeChars name.toList := String.toList_ofList
  rw [Bool.eq_iff_iff, showsResult_iff, ← Text.infix_snakeChars_iff (by decide) hword, saysResult,
    Text.occursIn_iff, htext, Text.map_toLower_snakeChars]
  rfl

theorem saysResult_of_showsResult {name : String} (h : showsResult name) : saysResult name := by
  rw [saysResult, Text.occursIn_iff]
  rcases showsResult_iff.mp h with hshown | hshown
  · exact hshown.map Char.toLower
  · exact hshown.map Char.toLower

/-- The first name that says the word is the first that shows it, if it does. -/
theorem find?_showsResult {names : List String} {x : String}
    (h : names.find? saysResult = some x) (hx : showsResult x) :
    names.find? showsResult = some x := by
  obtain ⟨-, front, back, rfl, hfront⟩ := List.find?_eq_some_iff_append.mp h
  refine List.find?_eq_some_iff_append.mpr ⟨hx, front, back, rfl, fun y hy => ?_⟩
  have hnot := hfront y hy
  contrapose! hnot
  simpa using saysResult_of_showsResult (by simpa using hnot)

namespace Emission

/-- The text of a call or of `true` is no path to a witness. -/
theorem assertionText_eq_witnessPath_iff {a : Analysis} (ha : a.Legible) {n : String} :
    assertionText (chooseAssertion a).1 = witnessPath n ↔ (chooseAssertion a).1 = .witness n := by
  constructor
  · intro h
    have hchosen := asserts_chooseAssertion a
    generalize (chooseAssertion a).1 = assertion at h hchosen
    cases hchosen with
    | @witness front w back =>
      have hsame := congrArg String.toList h
      simp only [assertionText, witnessPath, String.toList_append, List.append_right_inj] at hsame
      rw [String.toList_inj.mp hsame]
    | @call hs f used others hnone hlast =>
      have hname : IsUnmarked f.name := (ha.helpers f (by simp [hlast])).name
      have hwitness : IsUnmarked "witness" := by
        have hall : "witness".toList.all fun c => c ∉ marks := by decide
        intro c hc
        simpa using List.all_eq_true.mp hall c hc
      have hsame : f.name.toList ++ '(' :: (", ".intercalate
          ((used.map witnessName).map witnessPath) ++ ")").toList
            = "witness".toList ++ ':' :: ':' :: n.toList := by
        simpa [assertionText, witnessPath] using congrArg String.toList h
      have hopen : '(' ∈ marks := by decide
      have hcolon : ':' ∈ marks := by decide
      obtain ⟨-, hbehind⟩ := append_inj_of_head (p := (· ∉ marks))
        (fun c hc => decide_eq_true (hname c hc)) (fun c hc => decide_eq_true (hwitness c hc))
        (by simp [hopen]) (by simp [hcolon]) hsame
      cases hbehind
    | lacksArguments | nothingToCall =>
      have hsame := congrArg (fun text => text.toList.head?) h
      simp [assertionText, witnessPath] at hsame
  · intro h
    rw [h]
    rfl

theorem chooseAssertion_eq_witness_iff {a : Analysis} {n : String} :
    (chooseAssertion a).1 = .witness n ↔
      (a.witnesses.find? namesResult).map witnessName = some n := by
  unfold chooseAssertion
  cases a.witnesses.find? namesResult with
  | some w => simp
  | none =>
    dsimp only
    repeat' split
    all_goals simp

/-- The first record that speaks of a result belongs to the first name that shows the word. -/
theorem find?_namesResult {entry : String} {mode : EvalMode} {file : File} {a : Analysis}
    (ha : analyze entry mode file = .ok a) :
    (a.witnesses.find? namesResult).map witnessName
      = ((file.witnessNames entry).find? showsResult).map Text.constantName := by
  have hrecords : (a.witnesses.find? namesResult).map (·.name)
      = (a.witnesses.map (·.name)).find? saysResult := by
    rw [List.find?_map]
    rfl
  have hnames : saysResult ∘ Text.snakeCase = showsResult := funext saysResult_snakeCase
  rw [Analysis.map_recordName_witnesses ha, List.find?_map, hnames] at hrecords
  have hupper := congrArg (Option.map Text.uppercase) hrecords
  rw [Option.map_map, Option.map_map] at hupper
  exact hupper

end Emission

/-- What is asserted for the names of the variables of a source. -/
structure AssertsResult (names : List String) (assertion : String) : Prop where
  /-- A witness is asserted exactly if it is the first whose name shows the word. -/
  path_iff : ∀ n, assertion = Emission.witnessPath n ↔
    ∃ x, names.find? showsResult = some x ∧ n = Text.constantName x
  /-- So the first whose name says the word is asserted if its name shows it. -/
  shown : ∀ x, names.find? saysResult = some x → showsResult x →
    assertion = Emission.witnessPath (Text.constantName x)
  /-- Otherwise it is not asserted, unless its name is written like that of another one. -/
  missed : ∀ x, names.find? saysResult = some x → ¬ showsResult x →
    (∀ name ∈ names, Text.IsAscii name) →
      assertion ≠ Emission.witnessPath (Text.constantName x)

theorem assertsResult_of_path_iff {names : List String} {assertion : String}
    (h : ∀ n, assertion = Emission.witnessPath n ↔
      ∃ x, names.find? showsResult = some x ∧ n = Text.constantName x) :
    AssertsResult names assertion where
  path_iff := h
  shown x hx hshown := (h _).mpr ⟨x, find?_showsResult hx hshown, rfl⟩
  missed x hx hmissed hascii hpath := by
    obtain ⟨y, hy, hsame⟩ := (h _).mp hpath
    have halike := (Text.constantName_eq_iff (hascii x (List.mem_of_find?_eq_some hx))
      (hascii y (List.mem_of_find?_eq_some hy))).mp hsame
    rw [← saysResult_snakeCase, Text.snakeCase_eq_iff.mpr halike, saysResult_snakeCase] at hmissed
    exact hmissed (List.find?_some hy)

open Emission in
/-- Which names of a source that is translated lead to the assertion at the end of the program. -/
theorem result_asserted_iff {settings : Settings} {name source : String} {t : Translation}
    (h : translate settings name source = .ok t) :
    ∃ file a, parseFile source = .ok file ∧ analyze settings.entry settings.mode file = .ok a ∧
      (∃ front, t.text = front ++
        "fn main() \x7b\n    assert!(" ++ assertionText (chooseAssertion a).1 ++ ");\n\x7d\n") ∧
      AssertsResult (file.witnessNames settings.entry) (assertionText (chooseAssertion a).1) := by
  obtain ⟨file, a, hparse, ha, htext, hlegible⟩ := exists_legible_of_translate h
  refine ⟨file, a, hparse, ha, ?_, assertsResult_of_path_iff fun n => ?_⟩
  · rw [htext]
    exact exists_text_eq a
  · rw [assertionText_eq_witnessPath_iff hlegible, chooseAssertion_eq_witness_iff,
      find?_namesResult ha, Option.map_eq_some_iff]
    simp only [eq_comm]

/-- A number, and two results of which the first has a capital inside of its name. -/
def twoResults : String :=
  "package main\n\nfunc main() \x7b\n\ttotal := 1\n\tmyResult := true\n\tresult := false\n\x7d\n"

open Emission in
theorem result_asserted_iff_twoResults :
    ∃ t front, translate ⟨.simplicityHL, "main", false, .approximate⟩ "results.go" twoResults
        = .ok t ∧
      t.text = front ++ "fn main() \x7b\n    assert!(witness::MY_RESULT);\n\x7d\n" := by
  have hrun : gives "main" .approximate twoResults fun file _ =>
      file.witnessNames "main" = ["total", "myResult", "result"] := by
    decide +kernel
  obtain ⟨file, a, t, hparse, -, hgiven, ht, -, -⟩ := exists_of_gives hrun "results.go"
  have hnames := of_decide_eq_true hgiven
  obtain ⟨file', a', hparse', -, ⟨front, htext⟩, hresult⟩ := result_asserted_iff ht
  obtain rfl : file = file' := Except.ok.inj (hparse.symm.trans hparse')
  rw [hnames] at hresult
  have hassertion := hresult.shown "myResult" (by decide) (by decide)
  refine ⟨t, front, ht, ?_⟩
  rw [htext, hassertion, String.append_assoc, String.append_assoc]
  congr 1

/-- A result that is written in capitals. -/
def loudResult : String :=
  "package main\n\nfunc main() \x7b\n\tRESULT := true\n\x7d\n"

/-- Its name says the word and does not show it, so the program asserts nothing about it. -/
theorem loud_result_missed :
    ∃ file a t, parseFile loudResult = .ok file ∧
      translate ⟨.simplicityHL, "main", false, .approximate⟩ "results.go" loudResult = .ok t ∧
      analyze "main" .approximate file = .ok a ∧
      file.witnessNames "main" = ["RESULT"] ∧ saysResult "RESULT" ∧
      a.witnesses.map Emission.witnessName = ["R_E_S_U_L_T"] ∧
      t.text = "mod witness \x7b\n    const R_E_S_U_L_T: bool = true;\n\x7d\n" ++
        "mod param \x7b\n\x7d\n\nfn main() \x7b\n    assert!(true);\n\x7d\n" := by
  have hrun : gives "main" .approximate loudResult fun file a =>
      decide (file.witnessNames "main" = ["RESULT"] ∧
        a.witnesses.map Emission.witnessName = ["R_E_S_U_L_T"] ∧
        (Emission.programLines a).text =
          "mod witness \x7b\n    const R_E_S_U_L_T: bool = true;\n\x7d\n" ++
            "mod param \x7b\n\x7d\n\nfn main() \x7b\n    assert!(true);\n\x7d\n") := by
    decide +kernel
  obtain ⟨file, a, t, hparse, ha, hgiven, ht, htext, -⟩ := exists_of_gives hrun "results.go"
  obtain ⟨hnames, hrecords, hlines⟩ := of_decide_eq_true hgiven
  exact ⟨file, a, t, hparse, ht, ha, hnames, by decide, hrecords, htext.trans hlines⟩

end BoundedGo
