import BoundedGo.Proofs.DefinedNames
import BoundedGo.Proofs.ValueForms

/-!
How a program is laid out in lines. Both modules have a head, a line for each of their constants and
a brace; then come an empty line, the functions with an empty line behind each of them, and the
entry point. Lines end with a line feed, and the parts of a line have none, except for values that
are copied from the source.
Main statement: a program has its lines in these places exactly if its values have no line feeds,
and those that have some are strings and runes of the source (`laidOut_iff`).
-/
namespace BoundedGo

/-- The number of line feeds in a text. -/
def feeds (text : String) : Nat := text.toList.count '\n'

/-- The lines of a text, with the empty one behind the last line feed. -/
def textLines (text : String) : Lines := (linesOf text).map String.ofList

/-- A number of lines from a place on, which counts from zero. -/
def Lines.stretch (lines : Lines) (start size : Nat) : Lines := (lines.drop start).take size

namespace Emission

/-- The number of lines of a function. -/
def span (h : Helper) : Nat := (bodyLines h.body).length + 3

/-- The number of lines of the program of an analysis. -/
def height (a : Analysis) : Nat :=
  a.witnesses.length + a.constants.length + 8 + (a.helpers.map span).sum

/-- Whether the lines of a text stand where those of the program of an analysis belong, with one
line for every constant and as many for a function as it has. -/
structure LaidOut (a : Analysis) (text : String) : Prop where
  feeds : feeds text = height a
  witnessHead : (textLines text).stretch 0 1 = ["mod witness" ++ openBrace]
  witnesses : (textLines text).stretch 1 a.witnesses.length = a.witnesses.map witnessLine
  constantHead : (textLines text).stretch (a.witnesses.length + 2) 1 = ["mod param" ++ openBrace]
  constants : (textLines text).stretch (a.witnesses.length + 3) a.constants.length
    = a.constants.map constantLine
  helpers : ∀ (j : Nat) (h : Helper), a.helpers[j]? = some h →
    (textLines text).stretch
      (a.witnesses.length + a.constants.length + 5 + ((a.helpers.take j).map span).sum) (span h)
      = helperLines h

end Emission

@[simp] theorem feeds_append (s t : String) : feeds (s ++ t) = feeds s + feeds t := by
  simp [feeds]

theorem feeds_eq_zero_iff {text : String} : feeds text = 0 ↔ IsInline text :=
  List.count_eq_zero

theorem Lines.feeds_text (lines : Lines) :
    feeds lines.text = lines.length + (lines.map feeds).sum := by
  induction lines with
  | nil => rfl
  | cons line lines ih =>
    have hend : feeds "\n" = 1 := by decide
    rw [text, feeds_append, feeds_append, hend, ih, List.length_cons, List.map_cons, List.sum_cons]
    omega

theorem sum_feeds_eq_zero_iff {texts : List String} :
    (texts.map feeds).sum = 0 ↔ ∀ text ∈ texts, IsInline text := by
  rw [List.sum_eq_zero_iff_forall_eq_nat, List.forall_mem_map]
  exact forall₂_congr fun text _ => feeds_eq_zero_iff

namespace Emission

theorem length_helperLines (h : Helper) : (helperLines h).length = span h := by
  simp only [helperLines, span, List.length_append, List.length_map, List.length_cons,
    List.length_nil]
  omega

theorem length_flatMap_helperLines (helpers : List Helper) :
    (helpers.flatMap helperLines).length = (helpers.map span).sum := by
  rw [List.length_flatMap]
  simp only [length_helperLines]

theorem length_programLines (a : Analysis) : (programLines a).length = height a := by
  simp only [programLines, witnessBlock, constantBlock, entryLines, height, List.length_append,
    List.length_map, List.length_cons, List.length_nil, length_flatMap_helperLines]
  omega

theorem feeds_definition {name type : String} (hname : IsInline name) (htype : IsInline type)
    (value : String) : feeds (definition name type value) = feeds value := by
  have hindent : feeds (String.ofList (List.replicate (4 * 1) ' ')) = 0 := by decide
  have hwords : feeds "const " = 0 ∧ feeds ": " = 0 ∧ feeds " = " = 0 ∧ feeds ";" = 0 := by decide
  obtain ⟨hconst, hcolon, hequal, hsemicolon⟩ := hwords
  rw [← feeds_eq_zero_iff] at hname htype
  simp only [definition, Lines.indented, feeds_append, hindent, hconst, hcolon, hequal, hsemicolon,
    hname, htype]
  omega

/-- The line feeds of a program are those that end its lines and those of its values. -/
theorem feeds_programLines {a : Analysis} (h : a.Legible) :
    feeds (programLines a).text = height a + (a.values.map feeds).sum := by
  have hwitnesses : (a.witnesses.map witnessLine).map feeds
      = (a.witnesses.map (·.value)).map feeds := by
    rw [List.map_map, List.map_map]
    refine List.map_congr_left fun w hw => ?_
    obtain ⟨hname, htype⟩ := h.witnesses w hw
    rw [Function.comp_apply, Function.comp_apply, witnessLine,
      feeds_definition hname.isInline htype]
  have hconstants : (a.constants.map constantLine).map feeds
      = (a.constants.map (·.value)).map feeds := by
    rw [List.map_map, List.map_map]
    refine List.map_congr_left fun c hc => ?_
    obtain ⟨hname, htype⟩ := h.constants c hc
    rw [Function.comp_apply, Function.comp_apply, constantLine,
      feeds_definition hname.isInline htype]
  have hhelpers := sum_feeds_eq_zero_iff.mpr (isInline_of_mem_helpers h)
  have hentry := sum_feeds_eq_zero_iff.mpr (isInline_of_mem_entryLines h)
  have hframe : feeds ("mod witness" ++ openBrace) = 0 ∧ feeds ("mod param" ++ openBrace) = 0 ∧
      feeds closeBrace = 0 ∧ feeds "" = 0 := by
    decide
  obtain ⟨hwitness, hparam, hclose, hempty⟩ := hframe
  rw [Lines.feeds_text, length_programLines, Analysis.values]
  simp only [programLines, witnessBlock, constantBlock, List.map_append, List.sum_append,
    hwitnesses, hconstants, hhelpers, hentry, List.map_cons, List.map_nil, List.sum_cons,
    List.sum_nil, hwitness, hparam, hclose, hempty]
  omega

end Emission

/-- Lines end with a line feed. -/
theorem Lines.getLast?_text {lines : Lines} (h : lines ≠ []) :
    lines.text.toList.getLast? = some '\n' := by
  induction lines with
  | nil => exact absurd rfl h
  | cons line lines ih =>
    rw [text, String.toList_append, String.toList_append, List.getLast?_append]
    cases lines with
    | nil => simp [text]
    | cons next lines =>
      rw [ih (List.cons_ne_nil _ _)]
      rfl

theorem Lines.stretch_of_prefix (front : Lines) {lines block : Lines} {start size : Nat}
    (hlines : front ++ block <+: lines) (hstart : front.length = start)
    (hsize : block.length = size) : lines.stretch start size = block := by
  obtain ⟨back, rfl⟩ := hlines
  rw [stretch, ← hstart, ← hsize, List.append_assoc, List.drop_left, List.take_left]

namespace Emission

variable {a : Analysis}

theorem textLines_programLines (h : a.Legible) (hvalues : ∀ value ∈ a.values, IsInline value) :
    textLines (programLines a).text = programLines a ++ [""] := by
  rw [textLines, Lines.linesOf_text (isInline_programLines h hvalues), List.map_append,
    List.map_map]
  simp [Function.comp_def]

theorem stretch_helpers {lines front : Lines} {helpers : List Helper}
    (hlines : front ++ helpers.flatMap helperLines <+: lines) {j : Nat} {h : Helper}
    (hj : helpers[j]? = some h) :
    lines.stretch (front.length + ((helpers.take j).map span).sum) (span h) = helperLines h := by
  have hsplit : helpers = helpers.take j ++ h :: helpers.drop (j + 1) := by
    obtain ⟨hlt, rfl⟩ := List.getElem?_eq_some_iff.mp hj
    rw [List.getElem_cons_drop, List.take_append_drop]
  refine Lines.stretch_of_prefix (front ++ (helpers.take j).flatMap helperLines)
    ?_ ?_ (length_helperLines h)
  · refine .trans ?_ hlines
    rw [List.append_assoc, List.prefix_append_right_inj]
    nth_rewrite 2 [hsplit]
    rw [List.flatMap_append, List.flatMap_cons, List.prefix_append_right_inj]
    exact List.prefix_append _ _
  · rw [List.length_append, length_flatMap_helperLines]

/-- Where no value has a line feed, a program is laid out. -/
theorem laidOut_programLines (h : a.Legible) (hvalues : ∀ value ∈ a.values, IsInline value) :
    LaidOut a (programLines a).text := by
  have hlines := textLines_programLines h hvalues
  have htail : ∃ tail, programLines a ++ [""] = witnessBlock a.witnesses ++
      (constantBlock a.constants ++ ([""] ++ (a.helpers.flatMap helperLines ++ tail))) := by
    refine ⟨entryLines (chooseAssertion a).1 ++ [""], ?_⟩
    simp only [programLines, List.append_assoc]
  obtain ⟨tail, htail⟩ := htail
  rw [htail] at hlines
  refine ⟨?_, ?_, ?_, ?_, ?_, ?_⟩
  · rw [feeds_programLines h, sum_feeds_eq_zero_iff.mpr hvalues, Nat.add_zero]
  · rw [hlines]
    rfl
  · refine Lines.stretch_of_prefix ["mod witness" ++ openBrace] ?_ rfl
      (List.length_map _)
    rw [hlines, witnessBlock, List.append_assoc]
    exact List.prefix_append _ _
  · refine Lines.stretch_of_prefix (witnessBlock a.witnesses) ?_ ?_ rfl
    · rw [hlines, List.prefix_append_right_inj, constantBlock, List.append_assoc, List.append_assoc]
      exact List.prefix_append _ _
    · simp [witnessBlock]
  · refine Lines.stretch_of_prefix (witnessBlock a.witnesses ++ ["mod param" ++ openBrace])
      ?_ ?_ (List.length_map _)
    · rw [hlines, List.append_assoc, List.prefix_append_right_inj, constantBlock,
        List.append_assoc]
      exact List.prefix_append _ _
    · simp [witnessBlock]
  · intro j f hj
    have hfront : (witnessBlock a.witnesses ++ (constantBlock a.constants ++ [""])).length
        = a.witnesses.length + a.constants.length + 5 := by
      simp [witnessBlock, constantBlock]
      omega
    rw [← hfront]
    refine stretch_helpers ?_ hj
    rw [hlines]
    simp only [← List.append_assoc]
    exact List.prefix_append _ _

end Emission

/-- A program has line feeds at the ends of its lines and in its values, and nowhere else. It has
its lines in their places exactly if no value has a line feed; a value with some is a string or a
rune as it is written in the source. -/
theorem laidOut_iff {settings : Settings} {name source : String} {t : Translation}
    (h : translate settings name source = .ok t) :
    ∃ file ts a, parseFile source = .ok file ∧ tokenize source = .ok ts ∧
      analyze settings.entry settings.mode file = .ok a ∧
      t.text = (Emission.programLines a).text ∧
      t.text.toList.getLast? = some '\n' ∧
      feeds t.text = Emission.height a + (a.values.map feeds).sum ∧
      (Emission.LaidOut a t.text ↔ ∀ value ∈ a.values, IsInline value) ∧
      ∀ value ∈ a.values, ¬ IsInline value →
        (.literal .string, value) ∈ ts.map Token.piece ∨
          (.literal .char, value) ∈ ts.map Token.piece := by
  obtain ⟨file, a, hparse, ha, htext, hlegible⟩ := exists_legible_of_translate h
  obtain ⟨ts, hts, hregular⟩ := exists_tokens_of_parseFile hparse
  have hfeeds := Emission.feeds_programLines hlegible
  refine ⟨file, ts, a, hparse, hts, ha, htext, ?_, ?_, ?_, ?_⟩
  · rw [htext]
    refine Lines.getLast?_text fun hnil => ?_
    have hlength := Emission.length_programLines a
    rw [hnil, List.length_nil, Emission.height] at hlength
    omega
  · rw [htext, hfeeds]
  · rw [htext]
    constructor
    · intro hlaidOut
      rw [← sum_feeds_eq_zero_iff]
      have hcount := hlaidOut.feeds
      omega
    · exact Emission.laidOut_programLines hlegible
  · intro value hvalue hfeed
    have hflat : ∀ piece ∈ ts.map Token.piece, IsFlat piece :=
      List.forall_mem_map.mpr (Lexer.isFlat_tokens hts)
    have hform := Analysis.isValueText_of_mem_values hregular ha value hvalue
    exact (hform.isInline_or_quoted hflat).resolve_left hfeed

/-- A fee, a check of an amount and a witness of it. -/
def checkedFee : String :=
  "package main\n\nconst fee = 2\n\nfunc isPaid(amount uint64) bool \x7b\n" ++
    "\treturn amount > 0\n\x7d\n\nfunc main() \x7b\n\tresult := fee\n\t_ = result\n\x7d\n"

theorem laidOut_checkedFee :
    ∃ t a, translate ⟨.simplicityHL, "main", false, .environment⟩ "fee.go" checkedFee = .ok t ∧
      Emission.LaidOut a t.text ∧ feeds t.text = 17 ∧
      (textLines t.text).stretch 1 1 = ["    const RESULT: u64 = 2;"] ∧
      (textLines t.text).stretch 4 1 = ["    const FEE: u64 = 2;"] := by
  have hrun : gives "main" .environment checkedFee fun _ a =>
      decide ((∀ value ∈ a.values, IsInline value) ∧ Emission.height a = 17 ∧
        a.witnesses.map Emission.witnessLine = ["    const RESULT: u64 = 2;"] ∧
        a.constants.map Emission.constantLine = ["    const FEE: u64 = 2;"]) := by
    decide +kernel
  obtain ⟨file, a, t, hparse, ha, hgiven, ht, -, -⟩ := exists_of_gives hrun "fee.go"
  obtain ⟨hvalues, hheight, hwitnesses, hconstants⟩ := of_decide_eq_true hgiven
  obtain ⟨file', ts, a', hparse', -, ha', -, -, -, hiff, -⟩ := laidOut_iff ht
  obtain rfl : file = file' := Except.ok.inj (hparse.symm.trans hparse')
  obtain rfl : a = a' := Except.ok.inj (ha.symm.trans ha')
  have hlaidOut := hiff.mpr hvalues
  have hcounts := congrArg List.length hwitnesses
  rw [List.length_map] at hcounts
  have hcounts' := congrArg List.length hconstants
  rw [List.length_map] at hcounts'
  have hw := hlaidOut.witnesses
  have hc := hlaidOut.constants
  rw [hcounts, hwitnesses] at hw
  rw [hcounts, hcounts', hconstants] at hc
  exact ⟨t, a, ht, hlaidOut, hlaidOut.feeds.trans hheight, hw, hc⟩

/-- A note in two lines. -/
def twoLineNote : String :=
  "package main\n\nfunc main() \x7b\n\tnote := \x60a\nb\x60\n\t_ = note\n\x7d\n"

/-- A raw string takes its line feeds into the program. -/
theorem note_breaks_layout :
    ∃ file a t, parseFile twoLineNote = .ok file ∧
      analyze "main" .approximate file = .ok a ∧
      translate ⟨.simplicityHL, "main", false, .approximate⟩ "note.go" twoLineNote = .ok t ∧
      Emission.height a = 9 ∧ feeds t.text = 10 := by
  have hrun : gives "main" .approximate twoLineNote fun _ a =>
      decide (Emission.height a = 9 ∧ feeds (Emission.programLines a).text = 10) := by
    decide +kernel
  obtain ⟨file, a, t, hparse, ha, hgiven, ht, htext, -⟩ := exists_of_gives hrun "note.go"
  obtain ⟨hheight, hfeeds⟩ := of_decide_eq_true hgiven
  rw [← htext] at hfeeds
  exact ⟨file, a, t, hparse, ha, ht, hheight, hfeeds⟩

end BoundedGo
