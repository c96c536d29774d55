import BoundedGo.Proofs.DefinedNames
import BoundedGo.Proofs.HelperBodies
import BoundedGo.Proofs.ValueForms

/-!
Which values the constants of a type have. The type of a record is the one that is written for it,
and its value is folded on its own; what brings them together is that the source is well typed.
Folding keeps the kinds of values apart as types do: negations and comparisons give truth values,
arithmetic gives numbers, conversions keep what they get. A name that is read has the kind of its
record, provided that it means that record: a name may also mean a variable that has none.
Main statement: constants of truth values have truth values, and constants of numbers have numbers
unless they are reported as guesses (`annotated_values`).
-/
namespace BoundedGo

open Text

/-- The kinds of values that folding keeps apart. -/
inductive Kind
  | truth | number | other
  deriving DecidableEq, Repr

namespace Kind

def all : List Kind := [truth, number, other]

def ofLiteral (l : Literal) : Kind := if l.kind = .string then other else number

end Kind

def Scalar.kind : Scalar → Kind
  | .bool => .truth
  | _ => .number

def Value.kind : Value → Kind
  | .truth _ => .truth
  | .number _ => .number

/-- The operators whose results are truth values. -/
def BinaryOp.givesTruth : BinaryOp → Bool
  | .both | .either | .eq | .ne | .lt | .le | .gt | .ge => true
  | _ => false

/-- The kinds of the names that have been recorded, the latest first. -/
abbrev Kinds := List (String × Kind)

/-- Whether the value of an expression can be of a kind, as far as its form and the kinds of the
recorded names tell. Operands are not looked into, and of what folding gives up any kind is
possible, so this asks less than the types of the source do. -/
def Expr.admits (mode : EvalMode) (known : Kinds) (k : Kind) : Expr → Bool
  | .literal l => k = .ofLiteral l
  | .ident name =>
    if name = "true" ∨ name = "false" then k = .truth
    else mode = .approximate || (known.lookup name).all (· = k)
  | .paren inner => inner.admits mode known k
  | .unary .not _ => k = .truth
  | .binary op _ _ => if op.givesTruth then k = .truth else k ≠ .truth
  | .call (.ident name) [argument] =>
    if mode = .environment ∧ name ∈ Fold.conversions then argument.admits mode known k else true
  | _ => true

/-- The scalar type that a type stands for. -/
def TypeExpr.scalar? : TypeExpr → Option Scalar
  | .named name => if name = "byte" then some .u8 else Scalar.ofName? name
  | _ => none

namespace Initializer

/-- The scalar type that is written for a value. -/
def scalar? (i : Initializer) : Option Scalar :=
  match i.typing with
  | .declared (some type) => type.scalar?
  | _ => none

/-- The kinds that a declaration leaves open. -/
def kinds (i : Initializer) : List Kind :=
  match i.scalar? with
  | some s => [s.kind]
  | none => Kind.all

/-- Whether all values can be of the kinds of their types. The names of those before a value are
taken to mean them. -/
def wellTyped (mode : EvalMode) : Kinds → List Initializer → Bool
  | _, [] => true
  | known, i :: is => i.kinds.any fun k =>
    i.value.admits mode known k && wellTyped mode ((i.name, k) :: known) is

end Initializer

variable {W : Piece → Prop} {mode : EvalMode}

/-- Whether a folded value is of a kind. Guesses are truth values and stand for numbers too. -/
def Kind.Holds (W : Piece → Prop) : Kind → Folded → Prop
  | .truth, v => v.IsTruth
  | .number, v => v.exact → IsNumberText W v.text
  | .other, _ => True

theorem Kind.holds_fallback (k : Kind) : k.Holds W .fallback := by
  cases k with
  | truth => exact Folded.isTruth_fallback
  | number => exact nofun
  | other => trivial

theorem Kind.holds_of_text {v : Value} (hv : v.IsWord) {found : Folded} (h : found.text = v.text) :
    v.kind.Holds W found := by
  cases v with
  | truth b =>
    have htruth : found.IsTruth := by
      unfold Folded.IsTruth
      rw [h]
      exact Folded.isTruth_boolText b true
    exact htruth
  | number n => exact fun _ => .word hv h

/-- An operation on numbers gives values of one kind. -/
theorem Value.kind_of_onNumbers? {op : BinaryOp} {a b : Int} {v : Value}
    (h : onNumbers? op a b = some v) : v.kind = if op.givesTruth then .truth else .number := by
  cases op with
  | add | sub | mul | div =>
    obtain ⟨n, rfl, -⟩ := number_of_onNumbers? (by decide) h
    rfl
  | eq | ne | lt | le | gt | ge =>
    obtain rfl := Option.some.inj h
    rfl
  | _ => cases h

/-- Bindings whose values are of the kinds of their names. -/
def Bindings.HaveKinds (W : Piece → Prop) (env : Bindings) (known : Kinds) : Prop :=
  List.Forall₂ (fun b n => b.1 = n.1 ∧ n.2.Holds W b.2) env known

theorem Bindings.HaveKinds.lookup {env : Bindings} {known : Kinds} (h : env.HaveKinds W known)
    {name : String} {v : Folded} (hv : env.lookup name = some v) :
    ∃ k, known.lookup name = some k ∧ k.Holds W v := by
  induction h with
  | nil => cases hv
  | @cons b n env known hbn _ ih =>
    obtain ⟨bound, w⟩ := b
    obtain ⟨_, k⟩ := n
    obtain ⟨rfl, hk⟩ := hbn
    by_cases hname : name = bound
    · subst hname
      rw [List.lookup_cons_self] at hv ⊢
      obtain rfl := Option.some.inj hv
      exact ⟨k, rfl, hk⟩
    · rw [List.lookup_cons, beq_eq_false_iff_ne.mpr hname] at hv ⊢
      exact ih hv

/-- Folding gives a value of every kind that the expression can be of. -/
theorem Expr.holds_fold {env : Bindings} {known : Kinds} (henv : env.HaveKinds W known) {k : Kind}
    {e : Expr} (he : e.Regular W) (h : e.admits mode known k) : k.Holds W (e.fold mode env) := by
  induction e using Expr.fold.induct mode with
  | case1 l =>
    cases he with
    | literal hl =>
      rw [admits] at h
      obtain rfl : k = .ofLiteral l := of_decide_eq_true h
      unfold Kind.ofLiteral
      split
      · trivial
      · exact fun _ => .literal ‹_› hl
  | case2 name hname =>
    rw [admits, if_pos hname] at h
    obtain rfl : k = .truth := of_decide_eq_true h
    rw [fold, if_pos hname]
    exact hname
  | case3 name hname =>
    rw [admits, if_neg hname] at h
    rw [fold, if_neg hname]
    cases mode with
    | approximate => exact k.holds_fallback
    | environment =>
      unfold Fold.lookup
      cases hv : env.lookup name with
      | none => exact k.holds_fallback
      | some v =>
        obtain ⟨k', hk', hv⟩ := henv.lookup hv
        obtain rfl : k' = k := by simpa [hk'] using h
        exact hv
  | case4 inner ih =>
    rw [admits] at h
    cases he with
    | paren hinner => exact ih hinner h
  | case5 operand _ =>
    rw [admits] at h
    obtain rfl : k = .truth := of_decide_eq_true h
    exact Folded.isTruth_negate _
  | case6 op lhs rhs _ _ =>
    rw [fold]
    rcases Fold.combine_eq_fallback_or op (lhs.fold mode env) (rhs.fold mode env) with
      hfallback | ⟨a, b, v, hv, htext⟩
    · rw [hfallback]
      exact k.holds_fallback
    · have hkind := Value.kind_of_onNumbers? hv
      have hholds := Kind.holds_of_text (W := W) (Value.isWord_of_onNumbers? hv) htext
      rw [hkind] at hholds
      rw [admits] at h
      split at h
      · rename_i htruth
        obtain rfl : k = .truth := of_decide_eq_true h
        rwa [if_pos htruth] at hholds
      · rename_i htruth
        rw [if_neg htruth] at hholds
        cases k with
        | truth => cases h
        | number => exact hholds
        | other => trivial
  | case7 type argument hconversion ih =>
    rw [admits, if_pos hconversion] at h
    rw [fold, if_pos hconversion]
    cases he with
    | call _ harguments => exact ih (harguments argument List.mem_cons_self) h
  | case8 type argument hconversion =>
    rw [fold, if_neg hconversion]
    exact k.holds_fallback
  | case9 e hliteral hident hparen hnot hbinary hcall =>
    rw [fold]
    · exact k.holds_fallback
    all_goals assumption

/-- Values that are folded in order are of the kinds of their types. -/
theorem Initializer.holds_foldAll {env : Bindings} {known : Kinds} (henv : env.HaveKinds W known)
    {is : List Initializer} (his : ∀ i ∈ is, i.value.Regular W) (h : wellTyped mode known is) :
    ∀ p ∈ foldAll mode env is, ∀ s, p.1.scalar? = some s → s.kind.Holds W p.2 := by
  induction is generalizing env known with
  | nil => exact List.forall_mem_nil _
  | cons i is ih =>
    obtain ⟨hi, his⟩ := List.forall_mem_cons.mp his
    obtain ⟨k, hk, h⟩ := List.any_eq_true.mp h
    obtain ⟨hvalue, hrest⟩ := Bool.and_eq_true_iff.mp h
    have hfold := Expr.holds_fold henv hi hvalue
    refine List.forall_mem_cons.mpr ⟨?_, ih (.cons ⟨rfl, hfold⟩ henv) his hrest⟩
    intro s hs
    rw [kinds, hs] at hk
    obtain rfl := List.mem_singleton.mp hk
    exact hfold

/-- The values that a constant of a scalar type can have. Where it is a number, a guess is told. -/
inductive Scalar.Takes (W : Piece → Prop) (isTold : Prop) : Scalar → String → Prop
  | truth {value : String} (h : value = "true" ∨ value = "false") : Takes W isTold .bool value
  | number {s : Scalar} {value : String} (hs : s ≠ .bool) (h : IsNumberText W value) :
    Takes W isTold s value
  | guess {s : Scalar} {value : String} (hs : s ≠ .bool) (h : value = "true" ∨ value = "false")
    (htold : isTold) : Takes W isTold s value

/-- Whether a line defines a constant of the scalar type that is written for a value, if there is
one, with a value of that type. -/
def Initializer.IsWrittenAs (W : Piece → Prop) (notes : List Diagnostic) (i : Initializer)
    (line : String) : Prop :=
  ∀ s, i.scalar? = some s → ∃ value,
    line = Emission.definition (constantName i.name) s.targetName value ∧
      s.Takes W (.notConstant i.name ∈ notes) value

theorem Scalar.takes_of_holds {s : Scalar} {v : Folded} {isTold : Prop}
    (hkind : s.kind.Holds W v) (hguess : v.exact = false → v.IsTruth ∧ isTold) :
    s.Takes W isTold v.text := by
  by_cases hs : s = .bool
  · subst hs
    exact .truth hkind
  · have hnumber : s.kind = .number := by
      cases s with
      | bool => exact absurd rfl hs
      | _ => rfl
    rw [hnumber] at hkind
    cases hexact : v.exact with
    | true => exact .number hs (hkind hexact)
    | false =>
      obtain ⟨htruth, htold⟩ := hguess hexact
      exact .guess hs htruth htold

theorem typeText_of_scalar? {type : TypeExpr} {s : Scalar} (h : type.scalar? = some s) :
    typeText type = .ok s.targetName := by
  cases type with
  | named name =>
    rw [TypeExpr.scalar?] at h
    split at h
    · rename_i hbyte
      obtain rfl := Option.some.inj h
      rw [hbyte]
      decide
    · rw [← Scalar.goName_of_ofName? h]
      exact s.typeText_goName
  | _ => cases h

namespace Initializer

variable {i : Initializer} {s : Scalar} {v : Folded}

theorem exists_type_of_scalar? (h : i.scalar? = some s) :
    ∃ type, i.typing = .declared (some type) ∧ typeText type = .ok s.targetName := by
  unfold scalar? at h
  split at h
  · exact ⟨_, ‹_›, typeText_of_scalar? h⟩
  · cases h

theorem constantLine_of_scalar? {c : Constant} (hs : i.scalar? = some s)
    (h : Analysis.constant i v = .ok c) :
    Emission.constantLine c = Emission.definition (constantName i.name) s.targetName v.text := by
  obtain ⟨type, htyping, htype⟩ := exists_type_of_scalar? hs
  rw [Analysis.constant, htyping] at h
  obtain ⟨_, hdeclared, h⟩ := bind_eq_ok_iff.mp h
  obtain rfl := Except.ok.inj (htype.symm.trans hdeclared)
  obtain rfl := Except.ok.inj h
  rfl

theorem witnessLine_of_scalar? {w : Witness} (hs : i.scalar? = some s)
    (h : Analysis.witness i v = .ok w) :
    Emission.witnessLine w = Emission.definition (constantName i.name) s.targetName v.text := by
  obtain ⟨type, htyping, htype⟩ := exists_type_of_scalar? hs
  rw [Analysis.witness, htyping] at h
  simp only [Analysis.declaredType, htype] at h
  obtain rfl := Except.ok.inj h
  rfl

/-- Records keep the values that they are made of. -/
theorem forall₂_isWrittenAs {α : Type} {record : Initializer → Folded → Except TypeError α}
    {line : α → String} {values : List (Initializer × Folded)} {records : List α}
    {notes : List Diagnostic}
    (hline : ∀ {i : Initializer} {v : Folded} {s : Scalar} {r : α}, i.scalar? = some s →
      record i v = .ok r → line r = Emission.definition (constantName i.name) s.targetName v.text)
    (hrecords : List.Forall₂ (fun p r => record p.1 p.2 = .ok r) values records)
    (htakes : ∀ p ∈ values, ∀ s, p.1.scalar? = some s →
      s.Takes W (.notConstant p.1.name ∈ notes) p.2.text) :
    List.Forall₂ (IsWrittenAs W notes) (values.map Prod.fst) (records.map line) := by
  rw [List.forall₂_map_left_iff, List.forall₂_map_right_iff]
  refine ((List.forall₂_and_left _ _).mpr ⟨htakes, hrecords⟩).imp ?_
  intro p r ⟨htakes, hrecord⟩ s hs
  exact ⟨p.2.text, hline hs hrecord, htakes s hs⟩

end Initializer

/-- In a program of a source whose values can be of the kinds of their types, a constant with a
written type of truth values has a truth value. One with a written type of numbers has a number, a
computed one or a literal of the source, or it is told that its value is a guess. -/
theorem annotated_values {settings : Settings} {name source : String} {t : Translation}
    (h : translate settings name source = .ok t) {file : File}
    (hfile : parseFile source = .ok file)
    (htyped : Initializer.wellTyped settings.mode [] (file.initializers settings.entry)) :
    ∃ ts a, tokenize source = .ok ts ∧ analyze settings.entry settings.mode file = .ok a ∧
      t.text = (Emission.programLines a).text ∧
      List.Forall₂ (Initializer.IsWrittenAs (· ∈ ts.map Token.piece) t.notes)
        (file.witnessInitializers settings.entry) (a.witnesses.map Emission.witnessLine) ∧
      List.Forall₂ (Initializer.IsWrittenAs (· ∈ ts.map Token.piece) t.notes)
        file.constantInitializers (a.constants.map Emission.constantLine) := by
  rw [translate, hfile] at h
  obtain ⟨a, ha, htext, -⟩ := translateFile_eq_ok h
  obtain ⟨hconstants, hwitnesses, -, -⟩ := analyze_eq_ok_iff.mp ha
  obtain ⟨ts, hts, hregular⟩ := exists_tokens_of_parseFile hfile
  have hnone : Bindings.HaveKinds (· ∈ ts.map Token.piece) [] [] := .nil
  have hholds := Initializer.holds_foldAll hnone (File.regular_of_mem_initializers hregular) htyped
  have hguesses := Bindings.GuessesAreTruths.nil.foldAll settings.mode
    (file.initializers settings.entry)
  rw [← File.folded_eq] at hholds hguesses
  have htakes : ∀ p ∈ file.folded settings.entry settings.mode, ∀ s, p.1.scalar? = some s →
      s.Takes (· ∈ ts.map Token.piece) (.notConstant p.1.name ∈ t.notes) p.2.text := by
    intro p hp s hs
    refine Scalar.takes_of_holds (hholds p hp s hs) fun hexact => ⟨hguesses p hp hexact, ?_⟩
    rw [notes_of_translateFile h]
    exact List.mem_map.mpr ⟨p, List.mem_filter.mpr ⟨hp, by simp [hexact]⟩, rfl⟩
  refine ⟨ts, a, hts, ha, htext, ?_, ?_⟩
  · have hlines := Initializer.forall₂_isWrittenAs Initializer.witnessLine_of_scalar? hwitnesses
      fun p hp => htakes p (List.mem_append_right _ hp)
    rwa [File.foldedWitnesses, foldAll_fst] at hlines
  · have hlines := Initializer.forall₂_isWrittenAs Initializer.constantLine_of_scalar? hconstants
      fun p hp => htakes p (List.mem_append_left _ hp)
    rwa [File.foldedConstants, foldAll_fst] at hlines

/-- A fee, an amount with a check of it, and an amount that is not found. -/
def paidFee : String :=
  "package main\n\nconst fee uint64 = 10\n\nfunc main() \x7b\n\tvar amount uint64 = fee\n" ++
    "\tvar paid bool = amount > 3\n\tvar low uint8 = byte(^amount)\n\t_, _ = paid, low\n\x7d\n"

theorem annotated_values_paidFee :
    ∃ file t ts a, parseFile paidFee = .ok file ∧
      translate ⟨.simplicityHL, "main", false, .environment⟩ "fee.go" paidFee = .ok t ∧
      Initializer.wellTyped .environment [] (file.initializers "main") ∧
      tokenize paidFee = .ok ts ∧ a.values = ["10", "10", "true", "true"] ∧
      t.text = (Emission.programLines a).text ∧
      List.Forall₂ (Initializer.IsWrittenAs (· ∈ ts.map Token.piece) t.notes)
        (file.witnessInitializers "main") (a.witnesses.map Emission.witnessLine) ∧
      List.Forall₂ (Initializer.IsWrittenAs (· ∈ ts.map Token.piece) t.notes)
        file.constantInitializers (a.constants.map Emission.constantLine) := by
  have hrun : gives "main" .environment paidFee fun file a =>
      Initializer.wellTyped .environment [] (file.initializers "main") &&
        decide (a.values = ["10", "10", "true", "true"]) := by
    decide +kernel
  obtain ⟨file, a, t, hparse, ha, hgiven, ht, -, -⟩ := exists_of_gives hrun "fee.go"
  obtain ⟨htyped, hvalues⟩ := Bool.and_eq_true_iff.mp hgiven
  obtain ⟨ts, a', hts, ha', htext, hlines⟩ := annotated_values ht hparse htyped
  obtain rfl : a = a' := Except.ok.inj (ha.symm.trans ha')
  exact ⟨file, t, ts, a, hparse, ht, htyped, hts, of_decide_eq_true hvalues, htext, hlines⟩

/-- An amount, its opposite and a letter. -/
def opposite : String :=
  "package main\n\nfunc main() \x7b\n\tvar amount uint64 = 5\n\tvar low uint64 = -amount\n" ++
    "\tvar letter uint8 = \x27a\x27\n\t_, _ = low, letter\n\x7d\n"

/-- An amount that is hidden by a truth value without an initial value. -/
def hidden : String :=
  "package main\n\nconst amount uint64 = 5\n\nfunc main() \x7b\n\tvar amount bool\n" ++
    "\tvar paid bool = amount\n\t_ = paid\n\x7d\n"

/-- The lines that are written for `opposite`. -/
def oppositeLines : Lines :=
  ["    const AMOUNT: u64 = 5;", "    const LOW: u64 = true;",
    "    const LETTER: u8 = \x27a\x27;"]

/-- A number that is not found is written as a truth value in either mode, and a letter as a
letter. Where a name means something else than its record, a truth value is written as a number. -/
theorem annotated_values_differ :
    (∃ file a b t u, parseFile opposite = .ok file ∧
      (∀ i ∈ file.initializers "main", i.scalar?.isSome) ∧
      Initializer.wellTyped .environment [] (file.initializers "main") ∧
      translate ⟨.simplicityHL, "main", false, .approximate⟩ "low.go" opposite = .ok t ∧
      translate ⟨.simplicityHL, "main", false, .environment⟩ "low.go" opposite = .ok u ∧
      t.text = (Emission.programLines a).text ∧ u.text = (Emission.programLines b).text ∧
      a.witnesses.map Emission.witnessLine = oppositeLines ∧
      b.witnesses.map Emission.witnessLine = oppositeLines) ∧
    ∃ file a t, parseFile hidden = .ok file ∧
      (∀ i ∈ file.initializers "main", i.scalar?.isSome) ∧
      translate ⟨.simplicityHL, "main", false, .environment⟩ "paid.go" hidden = .ok t ∧
      t.text = (Emission.programLines a).text ∧
      a.witnesses.map Emission.witnessLine = ["    const PAID: bool = 5;"] := by
  have happroximate : gives "main" .approximate opposite fun file a =>
      decide ((∀ i ∈ file.initializers "main", i.scalar?.isSome) ∧
        a.witnesses.map Emission.witnessLine = oppositeLines) := by
    decide +kernel
  have henvironment : gives "main" .environment opposite fun file b =>
      decide (Initializer.wellTyped .environment [] (file.initializers "main") ∧
        b.witnesses.map Emission.witnessLine = oppositeLines) := by
    decide +kernel
  have hhidden : gives "main" .environment hidden fun file a =>
      decide ((∀ i ∈ file.initializers "main", i.scalar?.isSome) ∧
        a.witnesses.map Emission.witnessLine = ["    const PAID: bool = 5;"]) := by
    decide +kernel
  constructor
  · obtain ⟨file, a, t, hparse, -, hgiven, ht, htext, -⟩ := exists_of_gives happroximate "low.go"
    obtain ⟨file', b, u, hparse', -, hgiven', hu, hutext, -⟩ :=
      exists_of_gives henvironment "low.go"
    obtain rfl : file = file' := Except.ok.inj (hparse.symm.trans hparse')
    obtain ⟨hscalars, hlines⟩ := of_decide_eq_true hgiven
    obtain ⟨htyped, hlines'⟩ := of_decide_eq_true hgiven'
    exact ⟨file, a, b, t, u, hparse, hscalars, htyped, ht, hu, htext, hutext, hlines, hlines'⟩
  · obtain ⟨file, a, t, hparse, -, hgiven, ht, htext, -⟩ := exists_of_gives hhidden "paid.go"
    obtain ⟨hscalars, hlines⟩ := of_decide_eq_true hgiven
    exact ⟨file, a, t, hparse, hscalars, ht, htext, hlines⟩

end BoundedGo
