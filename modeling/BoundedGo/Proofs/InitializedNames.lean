import BoundedGo.Proofs.DefinedNames
import Mathlib.Data.List.Flatten

/-!
Names that are declared with values. A specification can have fewer values than names, as where one
call gives values to several names. Names and values are paired from the front, so the names that
are left over get no record, and no fallback is noted for them either.
Main statement: what is recorded are the names that have a value at their place, and these are all
names that are declared with values exactly if no specification has some values but fewer than names
(`initialized_recorded_iff`).
-/
namespace BoundedGo

/-- If some members are missing, the list is shorter than the one that has all of them. -/
theorem flatMap_eq_flatMap_iff {α β : Type} {f g : α → List β} (h : ∀ x, (f x).Sublist (g x))
    {xs : List α} : xs.flatMap f = xs.flatMap g ↔ ∀ x ∈ xs, f x = g x := by
  induction xs with
  | nil => simp
  | cons x xs ih =>
    rw [List.flatMap_cons, List.flatMap_cons, List.forall_mem_cons, ← ih]
    constructor
    · intro heq
      -- No part is longer than its partner, so parts of the same total length are as long.
      have hlength := congrArg List.length heq
      rw [List.length_append, List.length_append] at hlength
      have hfirst := (h x).length_le
      have hothers := (List.Sublist.flatMap_right xs fun y _ => h y).length_le
      have hsame : f x = g x := (h x).eq_of_length (by omega)
      rw [hsame] at heq
      exact ⟨hsame, List.append_cancel_left heq⟩
    · rintro ⟨hsame, hothers⟩
      rw [hsame, hothers]

theorem map_eq_map_iff_of_sublist {α β : Type} {f : α → β} {xs ys : List α} (h : xs.Sublist ys) :
    xs.map f = ys.map f ↔ xs = ys := by
  refine ⟨fun heq => h.eq_of_length ?_, congrArg _⟩
  have hlength := congrArg List.length heq
  rwa [List.length_map, List.length_map] at hlength

namespace ValueSpec

variable (spec : ValueSpec)

/-- The names that are declared with values. -/
def initializedNames : List String :=
  if spec.values.isEmpty then [] else spec.names

/-- The names that have a value at their place. -/
def pairedNames : List String := spec.names.take spec.values.length

/-- Whether every name that is declared with values has one of its own. -/
def IsCovered : Prop := spec.values = [] ∨ spec.names.length ≤ spec.values.length

theorem pairedNames_sublist : spec.pairedNames.Sublist spec.initializedNames := by
  unfold pairedNames initializedNames
  split
  · rename_i hnone
    rw [List.isEmpty_iff.mp hnone]
    exact List.Sublist.refl _
  · exact List.take_sublist _ _

theorem pairedNames_eq_iff : spec.pairedNames = spec.initializedNames ↔ spec.IsCovered := by
  unfold pairedNames initializedNames IsCovered
  split
  · rename_i hnone
    have hvalues := List.isEmpty_iff.mp hnone
    simp [hvalues]
  · rename_i hsome
    have hvalues : spec.values ≠ [] := by simpa using hsome
    rw [List.take_eq_self_iff]
    exact (or_iff_right hvalues).symm

theorem map_name_ofSpec : (Initializer.ofSpec spec).map (·.name) = spec.pairedNames := by
  have hpaired : (spec.names.zip spec.values).map Prod.fst
      = spec.names.take (min spec.names.length spec.values.length) := by
    rw [List.zip_eq_zip_take_min]
    exact List.map_fst_zip (by simp)
  rw [Initializer.ofSpec, List.map_map, pairedNames]
  exact hpaired.trans (List.take_eq_take_iff.mpr (by omega))

end ValueSpec

/-- The constants of a declaration. -/
def Decl.constSpecs : Decl → List ValueSpec
  | .const specs => specs
  | _ => []

/-- The variables that a statement declares; a short declaration of one name is a specification. -/
def Stmt.varSpecs : Stmt → List ValueSpec
  | .declare (.var specs) => specs
  | .assign [.ident name] .define [value] => [⟨[name], none, [value]⟩]
  | _ => []

namespace File

variable (file : File) (entry : String)

def constantSpecs : List ValueSpec := file.decls.flatMap Decl.constSpecs

/-- The variables that are declared directly in the body of the entry function. -/
def witnessSpecs : List ValueSpec := (file.entryBody entry).flatMap Stmt.varSpecs

theorem constantNames_eq :
    file.constantNames = file.constantSpecs.flatMap ValueSpec.pairedNames := by
  have hdecl : ∀ d, (Initializer.ofDecl d).map (·.name)
      = d.constSpecs.flatMap ValueSpec.pairedNames := by
    intro d
    cases d with
    | const specs =>
      simp only [Initializer.ofDecl, Decl.constSpecs, List.map_flatMap,
        ValueSpec.map_name_ofSpec]
    | _ => rfl
  rw [constantNames, constantInitializers, constantSpecs, List.map_flatMap, List.flatMap_assoc]
  exact congrArg (file.decls.flatMap ·) (funext hdecl)

theorem witnessNames_eq :
    file.witnessNames entry = (file.witnessSpecs entry).flatMap ValueSpec.pairedNames := by
  have hstmt : ∀ s, (Initializer.ofStmt s).map (·.name)
      = s.varSpecs.flatMap ValueSpec.pairedNames := by
    intro s
    fun_cases Stmt.varSpecs s with
    | case1 specs => simp only [Initializer.ofStmt, List.map_flatMap, ValueSpec.map_name_ofSpec]
    | case2 name value => rfl
    | case3 s hvar hshort =>
      rw [Initializer.ofStmt]
      · rfl
      · exact hvar
      · exact hshort
  rw [witnessNames, witnessInitializers, witnessSpecs, List.map_flatMap, List.flatMap_assoc]
  exact congrArg ((file.entryBody entry).flatMap ·) (funext hstmt)

end File

/-- Constants and witnesses are recorded in the order of the source for the names that have a value
at their place. So all names that are declared with values are recorded, once each, exactly if no
specification has some values but fewer than names. -/
theorem initialized_recorded_iff {entry : String} {mode : EvalMode} {file : File} {a : Analysis}
    (ha : analyze entry mode file = .ok a) :
    a.constants.map (·.name)
        = (file.constantSpecs.flatMap ValueSpec.pairedNames).map Text.constantName ∧
      a.witnesses.map (·.name)
        = ((file.witnessSpecs entry).flatMap ValueSpec.pairedNames).map Text.snakeCase ∧
      (a.constants.map (·.name)
          = (file.constantSpecs.flatMap ValueSpec.initializedNames).map Text.constantName ↔
        ∀ spec ∈ file.constantSpecs, spec.IsCovered) ∧
      (a.witnesses.map (·.name)
          = ((file.witnessSpecs entry).flatMap ValueSpec.initializedNames).map Text.snakeCase ↔
        ∀ spec ∈ file.witnessSpecs entry, spec.IsCovered) := by
  have hconstants := Analysis.map_name_constants ha
  have hwitnesses := Analysis.map_recordName_witnesses ha
  rw [File.constantNames_eq] at hconstants
  rw [File.witnessNames_eq] at hwitnesses
  have hcovered : ∀ specs : List ValueSpec, ∀ write : String → String,
      (specs.flatMap ValueSpec.pairedNames).map write
          = (specs.flatMap ValueSpec.initializedNames).map write ↔
        ∀ spec ∈ specs, spec.IsCovered := by
    intro specs write
    have hsublist : (specs.flatMap ValueSpec.pairedNames).Sublist
        (specs.flatMap ValueSpec.initializedNames) :=
      List.Sublist.flatMap_right specs fun spec _ => spec.pairedNames_sublist
    rw [map_eq_map_iff_of_sublist hsublist, flatMap_eq_flatMap_iff ValueSpec.pairedNames_sublist]
    exact forall₂_congr fun spec _ => spec.pairedNames_eq_iff
  refine ⟨hconstants, hwitnesses, ?_, ?_⟩
  · rw [hconstants]
    exact hcovered _ _
  · rw [hwitnesses]
    exact hcovered _ _

/-- Two values for two names, of constants and of variables. -/
def pairedLimits : String :=
  "package main\n\nconst minFee, maxFee = 1, 9\n\n" ++
    "func main() \x7b\n\tvar low, high uint8 = 2, 3\n\tisOpen := low < high\n\x7d\n"

/-- All names have values of their own, so all of them are recorded. -/
theorem initialized_recorded_iff_pairedLimits :
    ∃ file a, parseFile pairedLimits = .ok file ∧ analyze "main" .environment file = .ok a ∧
      (∀ spec ∈ file.constantSpecs, spec.IsCovered) ∧
      (∀ spec ∈ file.witnessSpecs "main", spec.IsCovered) ∧
      a.constants.map (·.name) = ["MIN_FEE", "MAX_FEE"] ∧
      a.witnesses.map (·.name) = ["low", "high", "is_open"] := by
  have hgives : gives "main" .environment pairedLimits fun file a =>
      (file.constantSpecs.flatMap ValueSpec.initializedNames = ["minFee", "maxFee"] ∧
        a.constants.map (·.name) = ["MIN_FEE", "MAX_FEE"]) ∧
      (file.witnessSpecs "main").flatMap ValueSpec.initializedNames = ["low", "high", "isOpen"] ∧
        a.witnesses.map (·.name) = ["low", "high", "is_open"] := by
    decide +kernel
  obtain ⟨file, a, -, hparse, ha, hgiven, -⟩ := exists_of_gives hgives "main"
  obtain ⟨⟨hconstants, hrecords⟩, hwitnesses, hwritten⟩ := of_decide_eq_true hgiven
  obtain ⟨-, -, hconstantIff, hwitnessIff⟩ := initialized_recorded_iff ha
  rw [hconstants, hrecords] at hconstantIff
  rw [hwitnesses, hwritten] at hwitnessIff
  exact ⟨file, a, hparse, ha, hconstantIff.mp (by decide),
    hwitnessIff.mp (by decide), hrecords, hwritten⟩

/-- The entry function with one call for two names. -/
def oneCall : String :=
  "package main\nfunc main() \x7b\n\tvar low, high = pair()\n\x7d\n"

/-- The second of the names that one call gives values to is lost. -/
theorem second_name_lost :
    ∃ file a, parseFile oneCall = .ok file ∧ analyze "main" .approximate file = .ok a ∧
      (file.witnessSpecs "main").flatMap ValueSpec.initializedNames = ["low", "high"] ∧
      a.witnesses.map (·.name) = ["low"] ∧ a.fallbacks = ["low"] := by
  have hgives : gives "main" .approximate oneCall fun file a =>
      (file.witnessSpecs "main").flatMap ValueSpec.initializedNames = ["low", "high"] ∧
        a.witnesses.map (·.name) = ["low"] ∧ a.fallbacks = ["low"] := by
    decide +kernel
  obtain ⟨file, a, -, hparse, ha, hgiven, -⟩ := exists_of_gives hgives "main"
  exact ⟨file, a, hparse, ha, of_decide_eq_true hgiven⟩

end BoundedGo
