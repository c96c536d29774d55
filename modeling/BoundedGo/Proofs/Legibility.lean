import BoundedGo.Proofs.Acceptance
import BoundedGo.Proofs.Fallbacks
import BoundedGo.Proofs.Names
import BoundedGo.Proofs.ProgramReading
import BoundedGo.Proofs.Rejections
import BoundedGo.Proofs.Renaming
import BoundedGo.Proofs.TypeTexts

/-!
What is written of a source can be read back. The names of a source have none of the characters that
a name ends in front of; small letters and capitals are put in their place without bringing any of
them in, and the text of a target type is made of names, digits and brackets. Only values are copied
as they stand.
Main statements: what a source gives has such names and types (`File.wellNamed_of_analyze`), and
its program is written of an analysis that can be read back from it
(`exists_legible_of_translate`).
-/
namespace BoundedGo

namespace Text

theorem not_mem_marks_of_continuesIdentifier {c : Char} (h : Scan.continuesIdentifier c) :
    c ∉ marks := by
  have hall : marks.all (fun d => !Scan.continuesIdentifier d) = true := by decide
  intro hc
  have hnot := List.all_eq_true.mp hall c hc
  rw [h] at hnot
  cases hnot

/-- The codes that no mark has. -/
def IsPlainCode (n : Nat) : Prop := n = 0 ∨ 65 ≤ n ∧ n ≤ 90 ∨ 126 ≤ n

instance (n : Nat) : Decidable (IsPlainCode n) :=
  inferInstanceAs (Decidable (n = 0 ∨ 65 ≤ n ∧ n ≤ 90 ∨ 126 ≤ n))

theorem not_mem_marks_of_isPlainCode {n : Nat} (h : IsPlainCode n) : Char.ofNat n ∉ marks := by
  have hall : marks.all (fun c => !decide (IsPlainCode c.toNat)) = true := by decide
  intro hc
  have hnot := List.all_eq_true.mp hall _ hc
  rw [Bool.not_eq_true', decide_eq_false_iff_not] at hnot
  refine hnot ?_
  by_cases hvalid : n.isValidChar
  · rwa [Char.ofNat, dif_pos hvalid]
  · rw [Char.ofNat, dif_neg hvalid]
    exact .inl rfl

theorem isPlainCode_of_mem_upperExpansions :
    ∀ entry ∈ upperExpansions, ∀ code ∈ entry.2, IsPlainCode code := by
  decide

/-- Whether the capitals of a run are letters of the ASCII alphabet or lie behind it. -/
def CaseRun.IsPlain (r : CaseRun) : Prop :=
  65 ≤ r.first + r.shift ∧ r.last + r.shift ≤ 90 ∨ 126 ≤ r.first + r.shift

instance (r : CaseRun) : Decidable r.IsPlain :=
  inferInstanceAs (Decidable (65 ≤ r.first + r.shift ∧ r.last + r.shift ≤ 90 ∨
    126 ≤ r.first + r.shift))

theorem isPlain_of_mem_upperRuns : ∀ r ∈ upperRuns, r.IsPlain := by
  decide +kernel

/-- What has a capital of its own gets a code that no mark has. -/
theorem upperIn_eq_or_isPlainCode {runs : List CaseRun} (hruns : ∀ r ∈ runs, r.IsPlain) (n : Nat) :
    upperIn runs n = n ∨ IsPlainCode (upperIn runs n) := by
  induction runs with
  | nil => exact .inl rfl
  | cons r rest ih =>
    obtain ⟨hr, hrest⟩ := List.forall_mem_cons.mp hruns
    unfold upperIn
    split
    · exact .inl rfl
    · split
      · refine .inr ?_
        unfold CaseRun.IsPlain at hr
        unfold IsPlainCode
        omega
      · exact ih hrest

theorem not_mem_marks_of_mem_upperChar {c d : Char} (hd : d ∉ marks) (hc : c ∈ upperChar d) :
    c ∉ marks := by
  unfold upperChar at hc
  split at hc
  · rename_i codes hcodes
    obtain ⟨code, hcode, rfl⟩ := List.mem_map.mp hc
    exact not_mem_marks_of_isPlainCode
      (isPlainCode_of_mem_upperExpansions _ (mem_of_lookup hcodes) code hcode)
  · obtain rfl := List.mem_singleton.mp hc
    rcases upperIn_eq_or_isPlainCode isPlain_of_mem_upperRuns d.toNat with h | h
    · rwa [h, Char.ofNat_toNat]
    · exact not_mem_marks_of_isPlainCode h

theorem not_mem_marks_toLower {c : Char} (h : c ∉ marks) : c.toLower ∉ marks := by
  by_cases hupper : c.isUpper
  · have hall : ∀ n < 128, (Char.ofNat n).isUpper → (Char.ofNat n).toLower ∉ marks := by decide
    exact of_ascii (P := fun c => c.isUpper → c.toLower ∉ marks) hall (toNat_lt_of_isUpper hupper)
      hupper
  · rwa [toLower_of_not_isUpper hupper]

theorem isUnmarked_uppercase {name : String} (h : IsUnmarked name) :
    IsUnmarked (uppercase name) := by
  intro c hc
  rw [uppercase, String.toList_ofList] at hc
  obtain ⟨d, hd, hc⟩ := List.mem_flatMap.mp hc
  exact not_mem_marks_of_mem_upperChar (h d hd) hc

theorem isUnmarked_snakeCase {name : String} (h : IsUnmarked name) :
    IsUnmarked (snakeCase name) := by
  have hchar : ∀ d ∈ name.toList, ∀ c ∈ snakeChar d, c ∉ marks := by
    intro d hd c hc
    unfold snakeChar at hc
    split at hc
    · rcases List.mem_pair.mp hc with rfl | rfl
      · decide
      · exact not_mem_marks_toLower (h d hd)
    · obtain rfl := List.mem_singleton.mp hc
      exact h c hd
  intro c hc
  rw [snakeCase, String.toList_ofList] at hc
  cases hname : name.toList with
  | nil =>
    rw [hname] at hc
    cases hc
  | cons first rest =>
    rw [hname] at hc hchar
    rcases List.mem_cons.mp hc with rfl | hc
    · exact not_mem_marks_toLower (h first (hname ▸ List.mem_cons_self))
    · obtain ⟨d, hd, hc⟩ := List.mem_flatMap.mp hc
      exact hchar d (List.mem_cons_of_mem first hd) c hc

end Text

/-- Names of a source have no marks. -/
theorem isUnmarked_of_isSpelled {name : String} (h : IsSpelled (.ident, name)) :
    IsUnmarked name :=
  fun c hc => Text.not_mem_marks_of_continuesIdentifier (continuesIdentifier_of_mem (h rfl) c hc)

theorem isInline_decimal (n : Nat) : IsInline (Text.decimal n) := by
  intro hfeed
  rw [Text.decimal, String.toList_ofList] at hfeed
  exact absurd (Text.isDigit_of_mem_decimalDigits hfeed) (by decide)

namespace TargetType

theorem isInline_textAfter {slots : List TargetType} (h : ∀ t ∈ slots, IsInline t.text) :
    IsInline (textAfter slots) := by
  induction slots with
  | nil => simp [textAfter, IsInline]
  | cons t slots ih =>
    obtain ⟨ht, hslots⟩ := List.forall_mem_cons.mp h
    simp only [textAfter, isInline_append_iff]
    exact ⟨⟨by decide, ht⟩, ih hslots⟩

theorem isInline_tuple {slots : List TargetType} (h : ∀ t ∈ slots, IsInline t.text) :
    IsInline (tuple slots).text := by
  match slots with
  | [] => simp [text, IsInline]
  | [t] =>
    simp only [text, isInline_append_iff, h t List.mem_cons_self]
    decide
  | t :: u :: slots =>
    obtain ⟨ht, hslots⟩ := List.forall_mem_cons.mp h
    simp only [text, isInline_append_iff, ht, isInline_textAfter hslots]
    decide

/-- Words, numbers and what encloses them have no line feed. -/
theorem WordNamed.isInline {t : TargetType} (h : t.WordNamed) : IsInline t.text := by
  induction h with
  | named hword => exact (isUnmarked_of_isSpelled fun _ => hword).isInline
  | array _ ih =>
    simp only [text, isInline_append_iff, ih, isInline_decimal]
    decide
  | tuple _ ih => exact isInline_tuple ih

end TargetType

/-- The names in a type of a source are words. -/
theorem TypeExpr.isWordText_of_reaches {type : TypeExpr} (htype : type.Regular IsSpelled)
    {name : String} (h : type.Reaches (.named name)) : isWordText name.toList := by
  generalize hpart : TypeExpr.named name = part at h
  induction h with
  | self t =>
    subst hpart
    cases htype with
    | named hname => exact hname rfl
  | element _ ih =>
    cases htype with
    | array _ helement => exact ih helement hpart
  | @field fields f part hf _ ih =>
    cases htype with
    | struct hfields =>
      obtain ⟨-, htype⟩ := hfields f hf
      exact ih htype hpart

theorem isTypeText_of_typeText {type : TypeExpr} {text : String} (htype : type.Regular IsSpelled)
    (h : typeText type = .ok text) : IsTypeText text :=
  ⟨type, fun _ => type.isWordText_of_reaches htype, h⟩

theorem IsTypeText.isInline {text : String} (h : IsTypeText text) : IsInline text := by
  obtain ⟨t, ht, rfl⟩ := h.exists_wordNamed
  exact ht.isInline

/-- A parameter as the source of a program can give it. Identifiers have no marks. -/
structure Parameter.WellNamed (p : Parameter) : Prop where
  name : IsUnmarked p.name
  type : IsTypeText p.type

structure Helper.WellNamed (h : Helper) : Prop where
  name : IsUnmarked h.name
  params : ∀ p ∈ h.params, p.WellNamed
  result : ∀ type ∈ h.result, IsTypeText type
  body : ∀ name, h.body = .positive name ∨ h.body = .name name → IsUnmarked name

/-- An analysis with names that have no marks, as identifiers have none, and with types that are
target types of types with identifiers for names. -/
structure Analysis.WellNamed (a : Analysis) : Prop where
  witnesses : ∀ w ∈ a.witnesses, IsUnmarked w.name ∧ ∀ text, w.type = .known text → IsTypeText text
  constants : ∀ c ∈ a.constants, IsUnmarked c.name ∧ IsTypeText c.type
  helpers : ∀ h ∈ a.helpers, h.WellNamed

/-- The target type of a name. -/
theorem isTypeText_ofName {name : String} (h : isWordText name.toList) :
    IsTypeText (TargetType.ofName name).text := by
  refine ⟨.named name, ?_, rfl⟩
  intro other hother
  cases hother
  exact h

theorem isTypeText_word : IsTypeText "u64" :=
  isTypeText_ofName (by decide : isWordText "uint64".toList)

theorem isTypeText_truth : IsTypeText "bool" :=
  isTypeText_ofName (by decide : isWordText "bool".toList)

theorem Witness.isTypeText_resolvedType {w : Witness}
    (h : ∀ text, w.type = .known text → IsTypeText text) : IsTypeText w.resolvedType := by
  unfold resolvedType
  split
  · rename_i text htext
    exact h text htext
  · split
    · exact isTypeText_truth
    · split
      · exact isTypeText_word
      · exact isTypeText_truth

theorem Helper.WellNamed.legible {h : Helper} (hh : h.WellNamed) : h.Legible where
  name := hh.name
  params p hp := ⟨(hh.params p hp).name.isInline, (hh.params p hp).type.isInline⟩
  result type htype := (hh.result type htype).isInline
  body name hname := (hh.body name hname).isInline

theorem Analysis.WellNamed.legible {a : Analysis} (ha : a.WellNamed) : a.Legible where
  witnesses w hw := ⟨Text.isUnmarked_uppercase (ha.witnesses w hw).1,
    (Witness.isTypeText_resolvedType (ha.witnesses w hw).2).isInline⟩
  constants c hc := ⟨(ha.constants c hc).1, (ha.constants c hc).2.isInline⟩
  helpers h hh := (ha.helpers h hh).legible

/-- An initial value whose parts are made of the pieces of a source. -/
structure Initializer.Regular (W : Piece → Prop) (i : Initializer) : Prop where
  name : W (.ident, i.name)
  type : ∀ t, i.typing = .declared (some t) → t.Regular W
  value : i.value.Regular W

namespace Initializer

variable {W : Piece → Prop} {i : Initializer}

theorem regular_of_mem_ofSpec {s : ValueSpec} (hs : s.Regular W) (hi : i ∈ ofSpec s) :
    i.Regular W := by
  obtain ⟨-, hnames, htype, hvalues⟩ := hs
  obtain ⟨⟨name, value⟩, hpair, rfl⟩ := List.mem_map.mp hi
  obtain ⟨hname, hvalue⟩ := List.of_mem_zip hpair
  exact ⟨hnames name hname, fun t ht => htype t (Typing.declared.inj ht), hvalues value hvalue⟩

theorem regular_of_mem_ofDecl {d : Decl} (hd : d.Regular W) (hi : i ∈ ofDecl d) :
    i.Regular W := by
  cases hd with
  | const hspecs =>
    obtain ⟨s, hs, hi⟩ := List.mem_flatMap.mp hi
    exact regular_of_mem_ofSpec (hspecs s hs) hi
  | _ => cases hi

theorem regular_of_mem_ofStmt {s : Stmt} (hs : s.Regular W) (hi : i ∈ ofStmt s) :
    i.Regular W := by
  unfold ofStmt at hi
  split at hi
  · obtain ⟨hdecl, -⟩ := hs
    obtain ⟨spec, hspec, hi⟩ := List.mem_flatMap.mp hi
    cases hdecl with
    | var hspecs => exact regular_of_mem_ofSpec (hspecs spec hspec) hi
  · obtain rfl := List.mem_singleton.mp hi
    cases hs with
    | assign hlhs hrhs _ _ _ =>
      cases hlhs _ List.mem_cons_self with
      | ident hname => exact ⟨hname, nofun, hrhs _ List.mem_cons_self⟩
  · cases hi

end Initializer

namespace Analysis

variable {i : Initializer} {v : Folded}

theorem name_of_constant_eq_ok {c : Constant} (h : constant i v = .ok c) :
    c.name = Text.constantName i.name := by
  obtain ⟨type, rfl, -⟩ := constant_eq_ok h
  rfl

theorem isTypeText_of_constant_eq_ok {c : Constant} (hi : i.Regular IsSpelled)
    (h : constant i v = .ok c) : IsTypeText c.type := by
  obtain ⟨type, rfl, rfl | ⟨t, ht, htype⟩⟩ := constant_eq_ok h
  · exact isTypeText_word
  · exact isTypeText_of_typeText (hi.type t ht) htype

theorem isTypeText_of_witness_eq_ok {w : Witness} (hi : i.Regular IsSpelled)
    (h : witness i v = .ok w) {text : String} (htext : w.type = .known text) : IsTypeText text := by
  obtain ⟨type, rfl, rfl | rfl | ⟨t, text', ht, htype, rfl⟩⟩ := witness_eq_ok h
  · cases htext
  · rw [← WitnessType.known.inj htext]
    exact isTypeText_word
  · rw [← WitnessType.known.inj htext]
    exact isTypeText_of_typeText (hi.type t ht) htype

theorem isUnmarked_bodyOf {body : List Stmt} (hbody : ∀ s ∈ body, s.Regular IsSpelled)
    {name : String} (h : bodyOf body = .positive name ∨ bodyOf body = .name name) :
    IsUnmarked name := by
  have hsnake : ∀ {read : String}, (Expr.ident read).Regular IsSpelled →
      IsUnmarked (Text.snakeCase read) := by
    intro read hread
    obtain ⟨hread⟩ := hread
    exact Text.isUnmarked_snakeCase (isUnmarked_of_isSpelled hread)
  unfold bodyOf at h
  split at h
  · simp only [HelperBody.positive.injEq, reduceCtorEq, or_false] at h
    subst h
    cases hbody _ List.mem_cons_self with
    | return_ hvalues =>
      cases hvalues _ List.mem_cons_self with
      | binary hl _ => exact hsnake hl
  · simp only [HelperBody.name.injEq, reduceCtorEq, false_or] at h
    subst h
    cases hbody _ List.mem_cons_self with
    | return_ hvalues => exact hsnake (hvalues _ List.mem_cons_self)
  · simp at h

theorem exists_of_resultOf_eq_some {results : List Field} {type : String}
    (h : resultOf results = .ok (some type)) : ∃ r ∈ results, typeText r.type = .ok type := by
  cases results with
  | nil => cases h
  | cons r rs =>
    refine ⟨r, List.mem_cons_self, ?_⟩
    cases htype : typeText r.type with
    | error e => simp [resultOf, htype, Functor.map, Except.map] at h
    | ok text => simpa [resultOf, htype, Functor.map, Except.map] using h

theorem wellNamed_of_helper_eq_ok {f : FunctionDecl} {h : Helper} (hf : f.Regular IsSpelled)
    (hok : helper f = .ok h) : h.WellNamed := by
  obtain ⟨hname, -, htype, hbody⟩ := hf
  obtain ⟨hparams, hresults, -, -⟩ := htype
  obtain ⟨params, result, hps, hresult, rfl⟩ := helper_eq_ok_iff.mp hok
  refine ⟨Text.isUnmarked_snakeCase (isUnmarked_of_isSpelled hname), ?_, ?_, ?_⟩
  · intro p hp
    obtain ⟨ps, hmem, hp⟩ := List.mem_flatten.mp hp
    obtain ⟨field, hfield, hok⟩ := exists_mem_of_forall₂ hps hmem
    obtain ⟨type, htype, rfl⟩ := paramsOfField_eq_ok_iff.mp hok
    obtain ⟨name, hname, rfl⟩ := List.mem_map.mp hp
    obtain ⟨hnames, hregular⟩ := hparams field hfield
    exact ⟨Text.isUnmarked_snakeCase (isUnmarked_of_isSpelled (hnames name hname)),
      isTypeText_of_typeText hregular htype⟩
  · rintro type rfl
    obtain ⟨r, hr, htype⟩ := exists_of_resultOf_eq_some hresult
    obtain ⟨-, hregular⟩ := hresults r hr
    exact isTypeText_of_typeText hregular htype
  · intro name hname
    dsimp only at hname
    split at hname
    · rename_i body hf
      exact isUnmarked_bodyOf (hbody body hf) hname
    · simp at hname

end Analysis

namespace File

variable {W : Piece → Prop} {file : File} {entry : String} {mode : EvalMode}

theorem regular_of_mem_constantInitializers (hfile : ∀ d ∈ file.decls, d.Regular W)
    {i : Initializer} (hi : i ∈ file.constantInitializers) : i.Regular W := by
  obtain ⟨d, hd, hi⟩ := List.mem_flatMap.mp hi
  exact Initializer.regular_of_mem_ofDecl (hfile d hd) hi

theorem regular_of_mem_witnessInitializers (hfile : ∀ d ∈ file.decls, d.Regular W)
    {i : Initializer} (hi : i ∈ file.witnessInitializers entry) : i.Regular W := by
  obtain ⟨s, hs, hi⟩ := List.mem_flatMap.mp hi
  obtain ⟨f, body, hf, hbody, hmem⟩ := (mem_entryBody _ _ _).mp hs
  cases hfile _ (function_mem_of_function? hf) with
  | function hregular =>
    obtain ⟨-, -, -, hstmts⟩ := hregular
    exact Initializer.regular_of_mem_ofStmt (hstmts body hbody s hmem) hi

/-- What a file with the names of a source gives has the names and types that belong to it. -/
theorem wellNamed_of_analyze (hfile : ∀ d ∈ file.decls, d.Regular IsSpelled) {a : Analysis}
    (ha : analyze entry mode file = .ok a) : a.WellNamed := by
  obtain ⟨hconstants, hwitnesses, hhelpers, -⟩ := analyze_eq_ok_iff.mp ha
  refine ⟨fun w hw => ?_, fun c hc => ?_, fun h hh => ?_⟩
  · obtain ⟨p, hp, hok⟩ := exists_mem_of_forall₂ hwitnesses hw
    have hi := regular_of_mem_witnessInitializers hfile (mem_foldAll_fst hp)
    rw [(Analysis.eq_of_witness_eq_ok hok).1]
    exact ⟨Text.isUnmarked_snakeCase (isUnmarked_of_isSpelled hi.name),
      fun _ => Analysis.isTypeText_of_witness_eq_ok hi hok⟩
  · obtain ⟨p, hp, hok⟩ := exists_mem_of_forall₂ hconstants hc
    have hi := regular_of_mem_constantInitializers hfile (mem_foldAll_fst hp)
    rw [Analysis.name_of_constant_eq_ok hok]
    exact ⟨Text.isUnmarked_uppercase (Text.isUnmarked_snakeCase (isUnmarked_of_isSpelled hi.name)),
      Analysis.isTypeText_of_constant_eq_ok hi hok⟩
  · obtain ⟨f, hf, hok⟩ := exists_mem_of_forall₂ hhelpers hh
    cases hfile _ (mem_helperDecls.mp hf).1 with
    | function hregular => exact Analysis.wellNamed_of_helper_eq_ok hregular hok

/-- So it can be read back. -/
theorem legible_of_analyze (hfile : ∀ d ∈ file.decls, d.Regular IsSpelled) {a : Analysis}
    (ha : analyze entry mode file = .ok a) : a.Legible :=
  (wellNamed_of_analyze hfile ha).legible

end File

/-- A program is written of an analysis that can be read back from it. -/
theorem exists_legible_of_translate {settings : Settings} {name source : String} {t : Translation}
    (h : translate settings name source = .ok t) :
    ∃ file a, parseFile source = .ok file ∧ analyze settings.entry settings.mode file = .ok a ∧
      t.text = (Emission.programLines a).text ∧ a.Legible := by
  unfold translate at h
  split at h
  · cases h
  · rename_i file hparse
    obtain ⟨a, ha, htext, -⟩ := translateFile_eq_ok h
    exact ⟨file, a, hparse, ha, htext,
      File.legible_of_analyze (spelled_of_parseFile hparse) ha⟩

end BoundedGo
