import BoundedGo.Proofs.Legibility

/-!
What the values of a program look like. Folding gives truth values, numbers that it has computed,
and the texts of literals as they are written; it copies these without looking into them. No reader
of a number takes a line feed, so what has one is the text of a string or a rune: a raw string may
hold any character, and in the others a backslash takes the next character with it.
Main statements: the values of an analysis are truth values, numbers and literals
(`Analysis.isValueText_of_mem_values`), and of these only strings and runes can have several lines
(`IsValueText.isInline_or_quoted`).
-/
namespace BoundedGo

variable {W : Piece → Prop}

namespace Scan

theorem newline_not_mem_takeWhile_isDecimal (cs : List Char) : '\n' ∉ cs.takeWhile isDecimal :=
  newline_not_mem_takeWhile (by decide) cs

theorem newline_not_mem_fraction (cs : List Char) : '\n' ∉ (fraction cs).1 := by
  unfold fraction
  split
  · rw [List.mem_cons, not_or]
    exact ⟨by decide, newline_not_mem_takeWhile_isDecimal _⟩
  · exact List.not_mem_nil

theorem newline_not_mem_exponentMark (cs : List Char) : '\n' ∉ (exponentMark cs).1 := by
  unfold exponentMark
  split
  · rename_i c cs
    split
    · rename_i hletter
      have hc : '\n' ≠ c := by rcases hletter with rfl | rfl <;> decide
      split
      · split
        · rename_i s ds hsign
          have hs : '\n' ≠ s := by rcases hsign with rfl | rfl <;> decide
          simp [hc, hs]
        · simp [hc]
      · simp [hc]
    · exact List.not_mem_nil
  · exact List.not_mem_nil

theorem newline_not_mem_exponentDigits (mark cs : List Char) :
    '\n' ∉ (exponentDigits mark cs).1 := by
  unfold exponentDigits
  split
  · exact List.not_mem_nil
  · exact newline_not_mem_takeWhile_isDecimal cs

theorem newline_not_mem_decimal (cs : List Char) : '\n' ∉ (decimal cs).text := by
  have hwhole := newline_not_mem_takeWhile_isDecimal cs
  have hpoint := newline_not_mem_fraction (cs.dropWhile isDecimal)
  have hmark := newline_not_mem_exponentMark (fraction (cs.dropWhile isDecimal)).2
  have hpower := newline_not_mem_exponentDigits
    (exponentMark (fraction (cs.dropWhile isDecimal)).2).1
    (exponentMark (fraction (cs.dropWhile isDecimal)).2).2
  unfold decimal
  dsimp only
  repeat' split
  all_goals simp [hwhole, hpoint, hmark, hpower]

theorem newline_not_mem_announced (base : Base) {intro : List Char} (hintro : '\n' ∉ intro)
    (cs : List Char) : '\n' ∉ (announced base intro cs).text := by
  have hdigits : (base.hasDigit '\n' || '\n' = '_') = false := by cases base <;> decide
  exact List.not_mem_append hintro (newline_not_mem_takeWhile hdigits cs)

theorem newline_not_mem_number (cs : List Char) : '\n' ∉ (number cs).text := by
  unfold number
  split
  case h_7 => exact newline_not_mem_decimal _
  all_goals exact newline_not_mem_announced _ (by decide) _

end Scan

/-- Whether a piece has one line, or is one of those that need not. -/
def IsFlat (piece : Piece) : Prop :=
  ∀ form, piece.1 = .literal form → form ≠ .string → form ≠ .char → IsInline piece.2

theorem isFlat_of_scan {c : Char} {cs : List Char} {k : TokenKind}
    (hk : (scan c cs).outcome = .ok k) : IsFlat (k, String.ofList (scan c cs).text) := by
  intro form hform hstring hchar
  obtain rfl : k = .literal form := hform
  rw [IsInline, String.toList_ofList]
  rcases scan_literal hk with ⟨-, -, hnumber⟩ | hform | hform
  · rw [hnumber]
    exact Scan.newline_not_mem_number _
  · exact absurd hform hstring
  · exact absurd hform hchar

theorem Lexer.isFlat_tokens {l : Lexer} {ts : List Token} (h : l.tokens = .ok ts) :
    ∀ t ∈ ts, IsFlat t.piece :=
  of_tokens (fun _ => ⟨nofun, nofun⟩) (fun _ _ _ hk => isFlat_of_scan hk) h

/-- The trees of a source are made of the pieces of its tokens. -/
theorem exists_tokens_of_parseFile {source : String} {file : File}
    (h : parseFile source = .ok file) :
    ∃ ts, tokenize source = .ok ts ∧ ∀ d ∈ file.decls, d.Regular (· ∈ ts.map Token.piece) := by
  obtain ⟨us, eof, s, hts, -⟩ := Parse.exists_run_of_parseFile h
  exact ⟨us ++ [eof], hts, regular_of_parseFile h hts fun t ht => List.mem_map_of_mem ht⟩

/-- The text of a number: one that was computed, or a literal other than a string. -/
inductive IsNumberText (W : Piece → Prop) (text : String) : Prop
  | word {n : Int} (hn : Text.IsWord n) (h : text = Text.signedDecimal n)
  | literal {form : LiteralKind} (hform : form ≠ .string) (h : W (.literal form, text))

/-- What the text of a value can be. -/
inductive IsValueText (W : Piece → Prop) (text : String) : Prop
  | truth (h : text = "true" ∨ text = "false")
  | number (h : IsNumberText W text)
  | string (h : W (.literal .string, text))

/-- An operation gives the text of a value, or it is given up. -/
theorem Fold.combine_eq_fallback_or (op : BinaryOp) (l r : Folded) :
    combine op l r = .fallback ∨
      ∃ a b v, Value.onNumbers? op a b = some v ∧ (combine op l r).text = v.text := by
  cases hl : l.word? with
  | none => exact .inl (combine_eq_fallback (.inl hl))
  | some a =>
    cases hr : r.word? with
    | none => exact .inl (combine_eq_fallback (.inr (.inl hr)))
    | some b =>
      cases hv : Value.onNumbers? op a b with
      | none =>
        refine .inl (combine_eq_fallback (.inr (.inr ⟨a, b, hl, hr, ?_⟩)))
        rw [operation?_eq, hv]
        rfl
      | some v =>
        refine .inr ⟨a, b, v, hv, ?_⟩
        simp only [combine, hl, hr, operation?_eq, hv, Option.map_some]

theorem Value.isValueText_text {v : Value} (hv : v.IsWord) : IsValueText W v.text := by
  cases v with
  | number n => exact .number (.word hv rfl)
  | truth b => exact .truth (Folded.isTruth_boolText b true)

/-- If the bound values have these forms, every folded value has one of them. -/
theorem Expr.isValueText_fold {mode : EvalMode} {env : Bindings}
    (henv : ∀ b ∈ env, IsValueText W b.2.text) {e : Expr} (he : e.Regular W) :
    IsValueText W (e.fold mode env).text := by
  induction e using Expr.fold.induct mode with
  | case1 l =>
    cases he with
    | literal hl =>
      by_cases hform : l.kind = .string
      · rw [hform] at hl
        exact .string hl
      · exact .number (.literal hform hl)
  | case2 name hname =>
    rw [Expr.fold, if_pos hname]
    exact .truth hname
  | case3 name hname =>
    rw [Expr.fold, if_neg hname]
    cases mode with
    | approximate => exact .truth Folded.isTruth_fallback
    | environment =>
      unfold Fold.lookup
      cases hv : env.lookup name with
      | none => exact .truth Folded.isTruth_fallback
      | some v => exact henv (name, v) (mem_of_lookup hv)
  | case4 inner ih =>
    cases he with
    | paren hinner => exact ih hinner
  | case5 operand _ => exact .truth (Folded.isTruth_negate _)
  | case6 op lhs rhs _ _ =>
    rw [Expr.fold]
    rcases Fold.combine_eq_fallback_or op (lhs.fold mode env) (rhs.fold mode env) with
      hfallback | ⟨a, b, v, hv, htext⟩
    · rw [hfallback]
      exact .truth Folded.isTruth_fallback
    · rw [htext]
      exact Value.isValueText_text (Value.isWord_of_onNumbers? hv)
  | case7 type argument hconversion ih =>
    rw [Expr.fold, if_pos hconversion]
    cases he with
    | call _ harguments => exact ih (harguments argument List.mem_cons_self)
  | case8 type argument hconversion =>
    rw [Expr.fold, if_neg hconversion]
    exact .truth Folded.isTruth_fallback
  | case9 e hliteral hident hparen hnot hbinary hcall =>
    rw [Expr.fold]
    · exact .truth Folded.isTruth_fallback
    all_goals assumption

theorem isValueText_foldAll {mode : EvalMode} {env : Bindings}
    (henv : ∀ b ∈ env, IsValueText W b.2.text) {is : List Initializer}
    (his : ∀ i ∈ is, i.value.Regular W) :
    ∀ p ∈ foldAll mode env is, IsValueText W p.2.text := by
  induction is generalizing env with
  | nil => exact List.forall_mem_nil _
  | cons i is ih =>
    obtain ⟨hi, his⟩ := List.forall_mem_cons.mp his
    have hv : IsValueText W (i.value.fold mode env).text := Expr.isValueText_fold henv hi
    exact List.forall_mem_cons.mpr ⟨hv, ih (List.forall_mem_cons.mpr ⟨hv, henv⟩) his⟩

theorem File.regular_of_mem_initializers {file : File} {entry : String}
    (hfile : ∀ d ∈ file.decls, d.Regular W) :
    ∀ i ∈ file.initializers entry, i.value.Regular W := by
  intro i hi
  rcases List.mem_append.mp hi with hi | hi
  · exact (regular_of_mem_constantInitializers hfile hi).value
  · exact (regular_of_mem_witnessInitializers hfile hi).value

theorem Analysis.isValueText_of_mem_values {file : File} {entry : String} {mode : EvalMode}
    {a : Analysis} (hfile : ∀ d ∈ file.decls, d.Regular W)
    (ha : analyze entry mode file = .ok a) : ∀ value ∈ a.values, IsValueText W value := by
  rw [values_eq ha, File.folded_eq]
  exact List.forall_mem_map.mpr (isValueText_foldAll (List.forall_mem_nil _)
    (File.regular_of_mem_initializers hfile))

theorem isInline_signedDecimal (n : Int) : IsInline (Text.signedDecimal n) := by
  unfold Text.signedDecimal
  split
  · have hdigits := isInline_decimal n.natAbs
    rw [IsInline, Text.decimal, String.toList_ofList] at hdigits
    rw [IsInline, String.toList_ofList, List.mem_cons, not_or]
    exact ⟨by decide, hdigits⟩
  · exact isInline_decimal n.natAbs

/-- The text of a value has one line, or it is that of a string or a rune. -/
theorem IsValueText.isInline_or_quoted {value : String} (h : IsValueText W value)
    (hflat : ∀ piece, W piece → IsFlat piece) :
    IsInline value ∨ W (.literal .string, value) ∨ W (.literal .char, value) := by
  cases h with
  | truth h => exact .inl (by rcases h with rfl | rfl <;> decide)
  | string h => exact .inr (.inl h)
  | number h =>
    cases h with
    | word _ h =>
      rw [h]
      exact .inl (isInline_signedDecimal _)
    | @literal form hform h =>
      by_cases hchar : form = .char
      · rw [hchar] at h
        exact .inr (.inr h)
      · exact .inl (hflat _ h form rfl hform hchar)

end BoundedGo
