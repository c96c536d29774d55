import BoundedGo.Proofs.DefinedNames
import BoundedGo.Proofs.Fallbacks
import BoundedGo.Proofs.IntegerValues
import BoundedGo.Proofs.ProgramTexts
import BoundedGo.Proofs.ValueForms

/-!
Types of variables that are defined by an integer. The value of such a variable is the text of the
integer, and its type is told from this text by reading it as a signed word. The integers of a
source may be as large as an unsigned word, so the upper half of them is told apart from the rest.
Main statement: the line of a variable that is defined by digits stands at the place of its
definition, it has these digits as its value, and its type is `u64` exactly if their number is below
`2 ^ 63` (`definedInteger_line`).
-/
namespace BoundedGo

namespace Text

theorem areDigits_of_isDigit {cs : List Char} (h : ∀ c ∈ cs, c.isDigit) : AreDigits 10 cs :=
  fun c hc => digitIn?_of_isDigit (h c hc)

/-- Digits are read as a signed word if their number is one. -/
theorem isSome_readWord?_iff {cs : List Char} (hcs : ∀ c ∈ cs, c.isDigit) (hsome : cs ≠ []) :
    (readWord? cs).isSome ↔ denoted 10 cs < 2 ^ 63 := by
  have hread := (areDigits_of_isDigit hcs).readNat?_eq hsome
  rw [List.map_congr_left fun c hc => Literal.toLower_of_isDigit (hcs c hc), List.map_id'] at hread
  obtain ⟨c, cs, rfl⟩ := List.exists_cons_of_ne_nil hsome
  rw [Option.isSome_iff_exists]
  simp only [readWord?_eq_some_iff (hcs c List.mem_cons_self), hread, Option.some.injEq]
  constructor
  · rintro ⟨n, k, rfl, rfl, hword⟩
    have hle := hword.2
    omega
  · intro hlt
    exact ⟨_, _, rfl, rfl, by unfold IsWord; omega⟩

end Text

theorem IsIntegerText.ne_nil {text : List Char} (h : IsIntegerText text) : text ≠ [] := by
  cases h with
  | announced | plain => exact List.cons_ne_nil _ _

/-- The type that is told from the text of an integer with this value. -/
def integerType (n : Nat) : String := if n < 2 ^ 63 then "u64" else "bool"

theorem Witness.resolvedType_of_isDigit {name raw : String} (hdigits : ∀ c ∈ raw.toList, c.isDigit)
    (hsome : raw.toList ≠ []) :
    (Witness.mk name .deferred raw).resolvedType = integerType (Text.denoted 10 raw.toList) := by
  have htruth : isBoolText raw = false := by
    have hne : raw ≠ "true" ∧ raw ≠ "false" := by
      constructor
      · rintro rfl
        exact absurd (hdigits 't' (by decide)) (by decide)
      · rintro rfl
        exact absurd (hdigits 'f' (by decide)) (by decide)
    simp [isBoolText, hne]
  simp only [resolvedType, htruth, Bool.false_eq_true, if_false,
    Text.isSome_readWord?_iff hdigits hsome, integerType]

/-- The record of a variable stands where its definition does, and its value is folded with some
bindings. -/
theorem Analysis.exists_witness_of_getElem? {entry : String} {mode : EvalMode} {file : File}
    {a : Analysis} (ha : analyze entry mode file = .ok a) {k : Nat} {i : Initializer}
    (hi : (file.witnessInitializers entry)[k]? = some i) :
    ∃ env w, a.witnesses[k]? = some w ∧ witness i (i.value.fold mode env) = .ok w := by
  obtain ⟨-, hwitnesses, -, -⟩ := analyze_eq_ok_iff.mp ha
  have hfst := foldAll_fst mode (file.entryBindings mode) (file.witnessInitializers entry)
  rw [← hfst, List.getElem?_map, Option.map_eq_some_iff] at hi
  obtain ⟨⟨_, v⟩, hv, rfl⟩ := hi
  obtain ⟨w, hw, hok⟩ := exists_getElem?_of_forall₂ hwitnesses hv
  rw [foldAll_getElem? hv] at hok
  exact ⟨_, w, hw, hok⟩

/-- The lines of the witnesses follow the first line of a program. -/
theorem Emission.programLines_getElem? {a : Analysis} {k : Nat} {w : Witness}
    (hw : a.witnesses[k]? = some w) : (programLines a)[k + 1]? = some (witnessLine w) := by
  obtain ⟨hk, -⟩ := List.getElem?_eq_some_iff.mp hw
  rw [programLines_eq_append, List.getElem?_cons_succ,
    List.getElem?_append_left (by simpa using hk), List.getElem?_map, hw]
  rfl

/-- The statement `name := value` with an integer as its value. -/
def Stmt.integerDefinition (name raw : String) : Stmt :=
  .assign [.ident name] .define [.literal ⟨.int, raw⟩]

/-- The line of a name that is defined by digits follows those of the names before it. -/
theorem definedInteger_line {settings : Settings} {name source : String} {t : Translation}
    (h : translate settings name source = .ok t) :
    ∃ file a, parseFile source = .ok file ∧ analyze settings.entry settings.mode file = .ok a ∧
      t.text = (Emission.programLines a).text ∧
      ∀ front x raw back,
        file.entryBody settings.entry = front ++ .integerDefinition x raw :: back →
        (∀ c ∈ raw.toList, c.isDigit) →
        (Emission.programLines a)[(front.flatMap Initializer.ofStmt).length + 1]? =
          some (Emission.definition (Text.constantName x)
            (integerType (Text.denoted 10 raw.toList)) raw) := by
  obtain ⟨file, a, hparse, ha, htext, -⟩ := exists_legible_of_translate h
  refine ⟨file, a, hparse, ha, htext, fun front x raw back hbody hdigits => ?_⟩
  have hinitializers : file.witnessInitializers settings.entry
      = front.flatMap Initializer.ofStmt ++
        (⟨x, .inferred, .literal ⟨.int, raw⟩⟩ :: back.flatMap Initializer.ofStmt) := by
    rw [File.witnessInitializers, hbody, List.flatMap_append, List.flatMap_cons]
    rfl
  have hplace : (file.witnessInitializers settings.entry)[
      (front.flatMap Initializer.ofStmt).length]? =
        some ⟨x, .inferred, .literal ⟨.int, raw⟩⟩ := by
    rw [hinitializers, List.getElem?_append_right le_rfl, Nat.sub_self]
    rfl
  have hsome : raw.toList ≠ [] := by
    obtain ⟨ts, hts, hregular⟩ := exists_tokens_of_parseFile hparse
    have hi := File.regular_of_mem_witnessInitializers hregular (List.mem_of_getElem? hplace)
    cases hi.value with
    | literal hlexeme => exact (IsIntegerLexeme.isIntegerText ⟨_, ts, hts, hlexeme⟩).ne_nil
  obtain ⟨env, w, hw, hok⟩ := Analysis.exists_witness_of_getElem? ha hplace
  obtain rfl : ⟨Text.snakeCase x, .deferred, raw⟩ = w := Except.ok.inj hok
  rw [Emission.programLines_getElem? hw, Emission.witnessLine,
    Witness.resolvedType_of_isDigit hdigits hsome]
  rfl

/-- Whether a body is a truth value and the definition of a name by an integer behind it. -/
def isTruthThenInteger (name raw : String) : List Stmt → Bool
  | [.assign [.ident _] .define [.ident "true"], .assign [.ident x] .define [.literal l]] =>
    x = name && l = ⟨.int, raw⟩
  | _ => false

theorem exists_of_isTruthThenInteger {name raw : String} {body : List Stmt}
    (h : isTruthThenInteger name raw body) :
    ∃ first, body = [first] ++ .integerDefinition name raw :: [] ∧
      (Initializer.ofStmt first).length = 1 := by
  unfold isTruthThenInteger at h
  split at h
  · obtain ⟨hname, hraw⟩ := Bool.and_eq_true_iff.mp h
    obtain rfl := of_decide_eq_true hname
    obtain rfl := of_decide_eq_true hraw
    exact ⟨_, rfl, rfl⟩
  · cases h

/-- A truth value, and a limit behind it that is written with the given digits. -/
def limitOf (digits : String) : String :=
  "package main\n\nfunc main() \x7b\n\tok := true\n\tlimit := " ++ digits ++ "\n\x7d\n"

theorem definedInteger_line_largest :
    ∃ file a t, parseFile (limitOf "9223372036854775807") = .ok file ∧
      analyze "main" .environment file = .ok a ∧
      translate ⟨.simplicityHL, "main", false, .environment⟩ "limit.go"
        (limitOf "9223372036854775807") = .ok t ∧
      t.text = (Emission.programLines a).text ∧
      (Emission.programLines a)[2]? = some "    const LIMIT: u64 = 9223372036854775807;" := by
  have hrun : gives "main" .environment (limitOf "9223372036854775807") fun file _ =>
      isTruthThenInteger "limit" "9223372036854775807" (file.entryBody "main") := by
    decide +kernel
  obtain ⟨file, a, t, hparse, ha, hgiven, ht, htext, -⟩ := exists_of_gives hrun "limit.go"
  obtain ⟨file', a', hparse', ha', -, hline⟩ := definedInteger_line ht
  obtain rfl : file = file' := Except.ok.inj (hparse.symm.trans hparse')
  obtain rfl : a = a' := Except.ok.inj (ha.symm.trans ha')
  obtain ⟨first, hbody, hone⟩ := exists_of_isTruthThenInteger hgiven
  have hdigits : "9223372036854775807".toList.all Char.isDigit := by decide
  have hlimit := hline [first] "limit" "9223372036854775807" [] hbody
    (List.all_eq_true.mp hdigits)
  rw [List.flatMap_singleton, hone] at hlimit
  exact ⟨file, a, t, hparse, ha, ht, htext, hlimit.trans (by decide)⟩

/-- The next integer is still a number of 64 bits, but it gets the type of truth values, in both
modes. -/
theorem definedInteger_typed_bool :
    (⟨.int, "9223372036854775808"⟩ : Literal).value? = some 9223372036854775808 ∧
      ∀ mode, ∃ file a t front, parseFile (limitOf "9223372036854775808") = .ok file ∧
        file.entryBody "main" = [front, .integerDefinition "limit" "9223372036854775808"] ∧
        analyze "main" mode file = .ok a ∧
        translate ⟨.simplicityHL, "main", false, mode⟩ "limit.go"
          (limitOf "9223372036854775808") = .ok t ∧
        t.text = (Emission.programLines a).text ∧
        (Emission.programLines a)[2]? = some "    const LIMIT: bool = 9223372036854775808;" := by
  refine ⟨by decide, fun mode => ?_⟩
  have hrun : gives "main" mode (limitOf "9223372036854775808") fun file a =>
      isTruthThenInteger "limit" "9223372036854775808" (file.entryBody "main") &&
        (Emission.programLines a)[2]? = some "    const LIMIT: bool = 9223372036854775808;" := by
    cases mode <;> decide +kernel
  obtain ⟨file, a, t, hparse, ha, hgiven, ht, htext, -⟩ := exists_of_gives hrun "limit.go"
  obtain ⟨hdefinition, hline⟩ := Bool.and_eq_true_iff.mp hgiven
  obtain ⟨front, hbody, -⟩ := exists_of_isTruthThenInteger hdefinition
  exact ⟨file, a, t, front, hparse, hbody, ha, ht, htext, of_decide_eq_true hline⟩

end BoundedGo
