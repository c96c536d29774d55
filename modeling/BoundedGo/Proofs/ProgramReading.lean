import BoundedGo.Emission
import BoundedGo.Proofs.EntryAssertion
import BoundedGo.Proofs.Modes

/-!
Reading a program back. A program is read by its lines: a line that begins like a function gives the
name of a function, and a line that begins like a constant, between the head of a module and the
next brace, gives the name of a constant of that module. A value may have several lines, since raw
strings have; what is read from the lines behind its first one is kept apart.
Main statements: the functions of a program are its helpers and the entry point
(`functionNames_programLines`), and the constants of its modules are the witnesses and the constants
of the analysis (`constantNames_programLines`).
-/
namespace BoundedGo

/-- The lines of a text, with the empty one behind the last line feed. -/
def linesOf (text : String) : List (List Char) := text.toList.splitOn '\n'

/-- The text of a line between a beginning and the next place of a character. -/
def between? (front : String) (stop : Char) (line : List Char) : Option String :=
  if front.toList.isPrefixOf line then
    some (String.ofList ((line.drop front.toList.length).takeWhile (· ≠ stop)))
  else none

/-- The names of the functions of a program. -/
def functionNames (text : String) : List String :=
  (linesOf text).filterMap (between? "fn " '(')

/-- The names of the constants of a module of a program. -/
def constantNames (module : String) (text : String) : List String :=
  ((((linesOf text).dropWhile (· ≠ ("mod " ++ module ++ " \x7b").toList)).drop 1).takeWhile
    (· ≠ ['\x7d'])).filterMap (between? "    const " ':')

/-- What reads as a function in the lines of a value behind the first one. -/
def functionsBehind (value : String) : List String :=
  (linesOf (value ++ ";")).tail.filterMap (between? "fn " '(')

/-- Text without a line feed. -/
def IsInline (text : String) : Prop := '\n' ∉ text.toList

instance (text : String) : Decidable (IsInline text) :=
  inferInstanceAs (Decidable ('\n' ∉ text.toList))

/-- The characters that a name ends in front of. -/
def marks : List Char := "\n (),:;=[]\x7b\x7d".toList

/-- Text without such characters. -/
def IsUnmarked (text : String) : Prop := ∀ c ∈ text.toList, c ∉ marks

theorem IsUnmarked.isInline {text : String} (h : IsUnmarked text) : IsInline text :=
  fun hmem => h _ hmem (by decide)

theorem IsUnmarked.not_mem {text : String} (h : IsUnmarked text) {c : Char} (hc : c ∈ marks) :
    c ∉ text.toList :=
  fun hmem => h c hmem hc

@[simp] theorem isInline_append_iff {a b : String} :
    IsInline (a ++ b) ↔ IsInline a ∧ IsInline b := by
  simp [IsInline]

theorem isInline_intercalate {texts : List String} (h : ∀ text ∈ texts, IsInline text) :
    IsInline (", ".intercalate texts) := by
  induction texts with
  | nil => decide
  | cons text texts ih =>
    obtain ⟨htext, htexts⟩ := List.forall_mem_cons.mp h
    cases texts with
    | nil => rwa [String.intercalate_singleton]
    | cons next texts =>
      rw [String.intercalate_cons_cons, isInline_append_iff, isInline_append_iff]
      exact ⟨⟨htext, by decide⟩, ih htexts⟩

namespace Lines

theorem linesOf_text_cons (line : String) (lines : Lines) :
    linesOf (text (line :: lines)) = linesOf line ++ linesOf (text lines) := by
  have htext : (text (line :: lines)).toList = line.toList ++ '\n' :: (text lines).toList := by
    simp [text]
  rw [linesOf, htext]
  exact List.splitOnP_append_cons _ _ (beq_self_eq_true _)

theorem linesOf_of_isInline {line : String} (h : IsInline line) : linesOf line = [line.toList] := by
  refine List.splitOnP_eq_singleton fun c hc => ?_
  rw [beq_eq_false_iff_ne]
  rintro rfl
  exact h hc

/-- What has no line feed goes on in the first line of what is behind it. -/
theorem linesOf_append {front : String} (h : IsInline front) (rest : String) :
    linesOf (front ++ rest) = (linesOf rest).modifyHead (front.toList ++ ·) := by
  rw [IsInline] at h
  rw [linesOf, linesOf, String.toList_append]
  generalize front.toList = cs at h
  induction cs with
  | nil => cases hlines : List.splitOn '\n' rest.toList <;> simp [hlines]
  | cons c cs ih =>
    rw [List.mem_cons, not_or] at h
    obtain ⟨hc, hcs⟩ := h
    have hne : (c == '\n') = false := beq_eq_false_iff_ne.mpr (Ne.symm hc)
    rw [List.splitOn, List.splitOn, List.cons_append, List.splitOnP_cons_eq_if_modifyHead, hne,
      if_neg nofun]
    rw [List.splitOn, List.splitOn] at ih
    rw [ih hcs, List.modifyHead_modifyHead]
    rfl

theorem functionNames_text (lines : Lines) :
    functionNames lines.text = lines.flatMap functionNames := by
  induction lines with
  | nil => rfl
  | cons line lines ih =>
    rw [functionNames, linesOf_text_cons, List.filterMap_append, List.flatMap_cons, ← ih]
    rfl

theorem linesOf_text {lines : Lines} (h : ∀ line ∈ lines, IsInline line) :
    linesOf lines.text = lines.map String.toList ++ [[]] := by
  induction lines with
  | nil => rfl
  | cons line lines ih =>
    obtain ⟨hline, hlines⟩ := List.forall_mem_cons.mp h
    rw [linesOf_text_cons, linesOf_of_isInline hline, ih hlines]
    rfl

end Lines

theorem between?_append {front name rest : String} {stop : Char} (hname : stop ∉ name.toList)
    (hrest : rest.toList.head? = some stop) :
    between? front stop (front ++ name ++ rest).toList = some name := by
  obtain ⟨behind, hbehind⟩ := List.head?_eq_some_iff.mp hrest
  have hprefix : front.toList.isPrefixOf (front ++ name ++ rest).toList = true := by
    rw [List.isPrefixOf_iff_prefix]
    exact ⟨name.toList ++ rest.toList, by simp⟩
  have hdrop : (front ++ name ++ rest).toList.drop front.toList.length
      = name.toList ++ stop :: behind := by
    simp [hbehind]
  rw [between?, if_pos hprefix, hdrop, List.takeWhile_append_of_pos, List.takeWhile_cons_of_neg]
  · simp
  · simp
  · intro c hc
    rw [decide_eq_true_eq]
    rintro rfl
    exact hname hc

theorem between?_eq_none {front : String} {stop c d : Char} {line : List Char}
    (hfront : front.toList.head? = some c) (hline : ∀ e ∈ line.head?, e = d) (hne : c ≠ d) :
    between? front stop line = none := by
  obtain ⟨behind, hbehind⟩ := List.head?_eq_some_iff.mp hfront
  rw [between?, if_neg]
  rw [List.isPrefixOf_iff_prefix, hbehind]
  rintro ⟨rest, rfl⟩
  exact hne (hline c rfl)

theorem functionNames_of_isInline {line : String} (h : IsInline line) :
    functionNames line = (between? "fn " '(' line.toList).toList := by
  rw [functionNames, Lines.linesOf_of_isInline h]
  cases hline : between? "fn " '(' line.toList <;> simp [hline]

/-- A line that begins with something else is no function. -/
theorem functionNames_eq_nil {line : String} (h : IsInline line) {c : Char} (hc : c ≠ 'f')
    (hline : ∀ e ∈ line.toList.head?, e = c) : functionNames line = [] := by
  rw [functionNames_of_isInline h, between?_eq_none rfl hline hc.symm]
  rfl

/-- A value in one line reads as no function. -/
theorem functionsBehind_of_isInline {value : String} (h : IsInline value) :
    functionsBehind value = [] := by
  rw [functionsBehind, Lines.linesOf_of_isInline (isInline_append_iff.mpr ⟨h, by decide⟩)]
  rfl

namespace Helper

/-- The parts of a function that can be read back. -/
structure Legible (h : Helper) : Prop where
  name : IsUnmarked h.name
  params : ∀ p ∈ h.params, IsInline p.name ∧ IsInline p.type
  result : ∀ type ∈ h.result, IsInline type
  body : ∀ name, h.body = .positive name ∨ h.body = .name name → IsInline name

end Helper

/-- The parts of an analysis that can be read back: names end in front of the character behind them,
and nothing but values can have several lines. -/
structure Analysis.Legible (a : Analysis) : Prop where
  witnesses : ∀ w ∈ a.witnesses, IsUnmarked (Emission.witnessName w) ∧ IsInline w.resolvedType
  constants : ∀ c ∈ a.constants, IsUnmarked c.name ∧ IsInline c.type
  helpers : ∀ h ∈ a.helpers, h.Legible

namespace Lines

theorem isInline_indented {depth : Nat} {line : String} (h : IsInline line) :
    IsInline (indented depth line) := by
  rw [indented, isInline_append_iff]
  exact ⟨by simp [IsInline], h⟩

/-- An indented line begins with a space. -/
theorem head_indented {line : String} :
    ∀ c ∈ (indented 1 line).toList.head?, c = ' ' := by
  simp [indented, List.replicate]

end Lines

namespace Emission

theorem isInline_headLine {h : Helper} (hh : h.Legible) : IsInline (headLine h) := by
  have hparams : IsInline (", ".intercalate (h.params.map parameter)) := by
    refine isInline_intercalate (List.forall_mem_map.mpr fun p hp => ?_)
    obtain ⟨hname, htype⟩ := hh.params p hp
    simp [parameter, hname, htype]
    decide
  have hresult : IsInline (resultText h.result) := by
    cases hr : h.result with
    | none => decide
    | some type =>
      rw [resultText, isInline_append_iff]
      exact ⟨by decide, hh.result type hr⟩
  simp only [headLine, isInline_append_iff, hparams, hresult, hh.name.isInline]
  decide

theorem isInline_bodyLines {h : Helper} (hh : h.Legible) :
    ∀ line ∈ bodyLines h.body, IsInline line := by
  cases hbody : h.body with
  | positive scrutinee =>
    have hname := hh.body scrutinee (.inl hbody)
    simp [bodyLines, hname]
    decide
  | name name => simpa [bodyLines] using hh.body name (.inr hbody)
  | placeholder => simp [bodyLines]; decide

/-- A constant is no function, but its value may read as some. -/
theorem functionNames_definition {name type : String} (hname : IsInline name)
    (htype : IsInline type) (value : String) :
    functionNames (definition name type value) = functionsBehind value := by
  have hfront : IsInline (Lines.indented 1 ("const " ++ name ++ ": " ++ type ++ " = ")) := by
    refine Lines.isInline_indented ?_
    simp only [isInline_append_iff, hname, htype]
    decide
  have hsplit : definition name type value
      = Lines.indented 1 ("const " ++ name ++ ": " ++ type ++ " = ") ++ (value ++ ";") := by
    simp [definition, Lines.indented, String.append_assoc]
  obtain ⟨first, behind, hlines⟩ := List.exists_cons_of_ne_nil
    (List.splitOnP_ne_nil (· == '\n') (value ++ ";").toList)
  have hrest : linesOf (value ++ ";") = first :: behind := hlines
  rw [hsplit, functionNames, Lines.linesOf_append hfront, functionsBehind, hrest,
    List.modifyHead_cons, List.tail_cons, List.filterMap_cons_none]
  exact between?_eq_none (c := 'f') (d := ' ') rfl (by simp [Lines.indented]) (by decide)

theorem functionNames_helperLines {h : Helper} (hh : h.Legible) :
    (helperLines h).flatMap functionNames = [h.name] := by
  have hhead : functionNames (headLine h) = [h.name] := by
    have hline : headLine h = "fn " ++ h.name ++ ("(" ++ (", ".intercalate (h.params.map parameter)
        ++ ")" ++ resultText h.result ++ openBrace)) := by
      simp only [headLine, String.append_assoc]
    rw [functionNames_of_isInline (isInline_headLine hh), hline,
      between?_append (hh.name.not_mem (by decide)) (by simp)]
    rfl
  have hbody : ((bodyLines h.body).map (Lines.indented 1)).flatMap functionNames = [] := by
    rw [List.flatMap_eq_nil_iff, List.forall_mem_map]
    intro line hline
    exact functionNames_eq_nil (Lines.isInline_indented (isInline_bodyLines hh line hline))
      (by decide) Lines.head_indented
  rw [helperLines, List.flatMap_append, List.flatMap_append, hbody, List.flatMap_singleton, hhead]
  rfl

/-- The assertion is made of names. -/
theorem isInline_assertionText {a : Analysis} (h : a.Legible) :
    IsInline (assertionText (chooseAssertion a).1) := by
  have hpath : ∀ w ∈ a.witnesses, IsInline (witnessPath (witnessName w)) := fun w hw => by
    rw [witnessPath, isInline_append_iff]
    exact ⟨by decide, (h.witnesses w hw).1.isInline⟩
  have htrivial : IsInline (assertionText .trivial) := by decide
  have hchosen := asserts_chooseAssertion a
  generalize (chooseAssertion a).1 = assertion at hchosen
  cases hchosen with
  | @witness front w back hwitnesses => exact hpath w (by simp [hwitnesses])
  | @call hs f used others _ hlast hbools _ =>
    simp only [assertionText, isInline_append_iff]
    refine ⟨⟨⟨?_, by decide⟩, isInline_intercalate ?_⟩, by decide⟩
    · exact (h.helpers f (by simp [hlast])).name.isInline
    · rw [List.forall_mem_map, List.forall_mem_map]
      intro w hw
      exact hpath w (mem_of_filter_eq_append hbools hw).1
  | lacksArguments => exact htrivial
  | nothingToCall => exact htrivial

theorem functionNames_entryLines {assertion : Assertion} (h : IsInline (assertionText assertion)) :
    (entryLines assertion).flatMap functionNames = ["main"] := by
  have hline : functionNames (Lines.indented 1 ("assert!(" ++ assertionText assertion ++ ");"))
      = [] := by
    refine functionNames_eq_nil (Lines.isInline_indented ?_) (by decide) Lines.head_indented
    simp only [isInline_append_iff, h]
    decide
  rw [entryLines, List.flatMap_cons, List.flatMap_cons, hline]
  decide

/-- The functions that are read from a program are those of its values, its helpers and the entry
point. -/
theorem functionNames_programLines {a : Analysis} (h : a.Legible) :
    functionNames (programLines a).text =
      (a.witnesses.map (·.value) ++ a.constants.map (·.value)).flatMap functionsBehind ++
        a.helpers.map (·.name) ++ ["main"] := by
  have hwitnesses : (a.witnesses.map witnessLine).flatMap functionNames
      = (a.witnesses.map (·.value)).flatMap functionsBehind := by
    rw [List.flatMap_map, List.flatMap_map]
    refine List.flatMap_congr fun w hw => ?_
    obtain ⟨hname, htype⟩ := h.witnesses w hw
    exact functionNames_definition hname.isInline htype w.value
  have hconstants : (a.constants.map constantLine).flatMap functionNames
      = (a.constants.map (·.value)).flatMap functionsBehind := by
    rw [List.flatMap_map, List.flatMap_map]
    refine List.flatMap_congr fun c hc => ?_
    obtain ⟨hname, htype⟩ := h.constants c hc
    exact functionNames_definition hname.isInline htype c.value
  have hhelpers : (a.helpers.flatMap helperLines).flatMap functionNames
      = a.helpers.map (·.name) := by
    rw [List.flatMap_assoc, List.map_eq_flatMap]
    exact List.flatMap_congr fun f hf => functionNames_helperLines (h.helpers f hf)
  have hframe : ["mod witness" ++ openBrace].flatMap functionNames = [] ∧
      ["mod param" ++ openBrace].flatMap functionNames = [] ∧
      [closeBrace].flatMap functionNames = [] ∧ [""].flatMap functionNames = [] := by
    decide
  obtain ⟨hw, hc, hclose, hempty⟩ := hframe
  simp only [Lines.functionNames_text, programLines, witnessBlock, constantBlock,
    List.flatMap_append, hw, hc, hclose, hempty, hwitnesses, hconstants, hhelpers,
    functionNames_entryLines (isInline_assertionText h), List.nil_append, List.append_nil]

/-- Where no value has several lines, only the helpers and the entry point read as functions. -/
theorem functionNames_programLines_of_isInline {a : Analysis} (h : a.Legible)
    (hvalues : ∀ value ∈ a.values, IsInline value) :
    functionNames (programLines a).text = a.helpers.map (·.name) ++ ["main"] := by
  have hnothing : (a.witnesses.map (·.value) ++ a.constants.map (·.value)).flatMap functionsBehind
      = [] := by
    rw [List.flatMap_eq_nil_iff]
    intro value hvalue
    exact functionsBehind_of_isInline
      (hvalues value (List.mem_append.mpr (List.mem_append.mp hvalue).symm))
  rw [functionNames_programLines h, hnothing, List.nil_append]

theorem isInline_definition {name type value : String} (hname : IsInline name)
    (htype : IsInline type) (hvalue : IsInline value) : IsInline (definition name type value) := by
  refine Lines.isInline_indented ?_
  simp only [isInline_append_iff, hname, htype, hvalue]
  decide

theorem isInline_of_mem_helpers {a : Analysis} (h : a.Legible) :
    ∀ line ∈ a.helpers.flatMap helperLines, IsInline line := by
  intro line hline
  obtain ⟨f, hf, hline⟩ := List.mem_flatMap.mp hline
  have hlegible := h.helpers f hf
  simp only [helperLines, List.mem_append, List.mem_map, List.mem_cons, List.not_mem_nil,
    or_false] at hline
  rcases hline with (rfl | ⟨line, hbody, rfl⟩) | rfl | rfl
  · exact isInline_headLine hlegible
  · exact Lines.isInline_indented (isInline_bodyLines hlegible line hbody)
  · decide
  · decide

theorem isInline_of_mem_entryLines {a : Analysis} (h : a.Legible) :
    ∀ line ∈ entryLines (chooseAssertion a).1, IsInline line := by
  have hline := isInline_assertionText h
  simp only [entryLines, List.forall_mem_cons, List.not_mem_nil, false_imp_iff, forall_const,
    and_true]
  refine ⟨by decide, Lines.isInline_indented ?_, by decide⟩
  simp only [isInline_append_iff, hline]
  decide

/-- Where no value has several lines, no line has a line feed in it. -/
theorem isInline_programLines {a : Analysis} (h : a.Legible)
    (hvalues : ∀ value ∈ a.values, IsInline value) :
    ∀ line ∈ programLines a, IsInline line := by
  obtain ⟨hconstants, hwitnesses⟩ := List.forall_mem_append.mp hvalues
  rw [List.forall_mem_map] at hconstants hwitnesses
  have hwitnessLines : ∀ line ∈ a.witnesses.map witnessLine, IsInline line :=
    List.forall_mem_map.mpr fun w hw =>
      isInline_definition (h.witnesses w hw).1.isInline (h.witnesses w hw).2 (hwitnesses w hw)
  have hconstantLines : ∀ line ∈ a.constants.map constantLine, IsInline line :=
    List.forall_mem_map.mpr fun c hc =>
      isInline_definition (h.constants c hc).1.isInline (h.constants c hc).2 (hconstants c hc)
  intro line hline
  simp only [programLines, witnessBlock, constantBlock, List.mem_append, List.mem_singleton] at hline
  rcases hline with (((((rfl | hline) | rfl) | ((rfl | hline) | rfl)) | rfl) | hline) | hline
  · decide
  · exact hwitnessLines line hline
  · decide
  · decide
  · exact hconstantLines line hline
  · decide
  · decide
  · exact isInline_of_mem_helpers h line hline
  · exact isInline_of_mem_entryLines h line hline

end Emission

end BoundedGo
