import BoundedGo.Proofs.Meaning
import BoundedGo.Proofs.Names

/-!
Integers as a program writes them and the two ways in which they are read. An integer has an
announced base or consists of digits and underscores, where a leading zero makes it octal. Folding
reads the text as a decimal number, so it passes over all texts that have an underscore or an
announced base, but not over a leading zero. Behind leading zeros, one octal digit is worth the
same in both readings, and more digits are worth more as a decimal number.
Main statement: what folding makes of an operation on two integers is exact only if both are
written with digits alone, and is then the operation on their decimal readings, each of which is
the value of the integer unless that is an octal number of two digits or more
(`fold_integers_exact`).
-/
namespace BoundedGo

/-- A text that is an integer in some source. -/
def IsIntegerLexeme (raw : String) : Prop :=
  ∃ source ts, tokenize source = .ok ts ∧ (.literal .int, raw) ∈ ts.map Token.piece

/-- A text that alone is read as an integer. -/
theorem isIntegerLexeme_of_tokens {raw : String}
    (h : (tokenize raw).toOption.any fun ts => (.literal .int, raw) ∈ ts.map Token.piece) :
    IsIntegerLexeme raw := by
  cases hts : tokenize raw with
  | error e =>
    rw [hts] at h
    cases h
  | ok ts =>
    rw [hts] at h
    exact ⟨raw, ts, hts, of_decide_eq_true h⟩

namespace Base

/-- The letters that announce a base behind a zero. -/
def letters : Base → List Char
  | .hex => ['x', 'X']
  | .binary => ['b', 'B']
  | .octal => ['o', 'O']

end Base

/-- How integers are written. -/
inductive IsIntegerText : List Char → Prop
  | announced {base : Base} {letter : Char} {digits : List Char} (hletter : letter ∈ base.letters)
    (hdigits : ∀ c ∈ digits, base.hasDigit c ∨ c = '_') (hsome : digits ≠ []) :
    IsIntegerText ('0' :: letter :: digits)
  | plain {c : Char} {cs : List Char} (hc : c.isDigit) (hcs : ∀ d ∈ cs, Scan.isDecimal d)
    (hoctal : Scan.isMisreadOctal (c :: cs) = false) : IsIntegerText (c :: cs)

namespace Scan

theorem isIntegerText_of_announced {base : Base} {letter : Char} {cs : List Char} {k : TokenKind}
    (hletter : letter ∈ base.letters) (h : (announced base ['0', letter] cs).outcome = .ok k) :
    IsIntegerText (announced base ['0', letter] cs).text := by
  unfold announced at h ⊢
  dsimp only at h ⊢
  split at h
  · cases h
  · rename_i hsome
    refine .announced hletter (fun c hc => ?_) (by simpa using hsome)
    simpa using List.mem_takeWhile_imp hc

/-- An integer has neither a point nor an exponent, so it is what stands before them. -/
theorem decimal_int {cs : List Char} (h : (decimal cs).outcome = .ok (.literal .int)) :
    (decimal cs).text = cs.takeWhile isDecimal ∧
      isMisreadOctal (cs.takeWhile isDecimal) = false := by
  unfold decimal at h ⊢
  dsimp only at h ⊢
  split at h
  · cases h
  · rename_i hpower
    rw [if_neg hpower]
    split at h
    · cases h
    · rename_i rest hrest
      split at h
      · cases h
      · rename_i hplain
        rw [if_neg hplain]
        simp only [Bool.or_eq_true, Bool.not_eq_true', List.isEmpty_eq_false_iff, not_or, ne_eq,
          not_not] at hplain
        split at h
        · cases h
        · rename_i hoctal
          simp [hplain.1, hplain.2, exponentDigits] at hoctal ⊢
          simp [hoctal]

end Scan

open Scan in
theorem isIntegerText_of_number {c : Char} {cs : List Char} (hstart : startsNumber c cs)
    (hword : ¬ startsIdentifier c)
    (h : (number (c :: cs)).outcome = .ok (.literal .int)) :
    IsIntegerText (number (c :: cs)).text := by
  unfold number at h ⊢
  split at h
  case h_7 =>
    have hpos := decimal_text_length_pos hstart
    obtain ⟨htext, hoctal⟩ := decimal_int h
    rw [htext] at hpos ⊢
    cases hc : isDecimal c with
    | false => simp [hc] at hpos
    | true =>
      rw [List.takeWhile_cons_of_pos hc] at hoctal ⊢
      refine .plain ?_ (fun d hd => List.mem_takeWhile_imp hd) hoctal
      -- An underscore would begin a name.
      rcases Bool.or_eq_true_iff.mp hc with hdigit | hunderscore
      · exact hdigit
      · obtain rfl := of_decide_eq_true hunderscore
        exact absurd (by decide) hword
  all_goals exact isIntegerText_of_announced (by decide) h

theorem isIntegerText_of_scan {c : Char} {cs : List Char}
    (h : (scan c cs).outcome = .ok (.literal .int)) : IsIntegerText (scan c cs).text := by
  rcases scan_literal h with ⟨hword, hstart, hnumber⟩ | hform | hform
  · rw [hnumber] at h ⊢
    exact isIntegerText_of_number hstart hword h
  · cases hform
  · cases hform

theorem isIntegerText_of_next {l : Lexer} {t : Token} (ht : l.next.1 = .ok t)
    (hkind : t.kind = .literal .int) : IsIntegerText t.lexeme.toList := by
  have htext : t.piece.1 = .literal .int → IsIntegerText t.piece.2.toList := by
    refine Lexer.of_next (P := fun piece => piece.1 = .literal .int →
      IsIntegerText piece.2.toList) (fun _ => ⟨nofun, nofun⟩) (fun c cs k hk hint => ?_) ht
    obtain rfl : k = .literal .int := hint
    rw [String.toList_ofList]
    exact isIntegerText_of_scan hk
  exact htext hkind

theorem IsIntegerLexeme.isIntegerText {raw : String} (h : IsIntegerLexeme raw) :
    IsIntegerText raw.toList := by
  obtain ⟨source, ts, hts, hmem⟩ := h
  obtain ⟨t, ht, hpiece⟩ := List.mem_map.mp hmem
  obtain ⟨l, hnext⟩ := Lexer.exists_next_of_mem hts ht
  obtain ⟨hkind, rfl⟩ := Prod.mk.inj hpiece
  exact isIntegerText_of_next hnext hkind

namespace Text

/-- Letters are worth ten or more. -/
theorem isDigit_of_digitIn? {c : Char} {d : Nat} (h : digitIn? 10 c = some d) : c.isDigit := by
  unfold digitIn? digitValue? at h
  by_cases hdigit : '0' ≤ c ∧ c ≤ '9'
  · exact Bool.and_eq_true_iff.mpr ⟨decide_eq_true hdigit.1, decide_eq_true hdigit.2⟩
  by_cases hsmall : 'a' ≤ c ∧ c ≤ 'z'
  · have hlow : 97 ≤ c.toNat := UInt32.le_iff_toNat_le.mp hsmall.1
    have hlarge : ¬ c.toNat - 87 < 10 := by omega
    simp [hdigit, hsmall, hlarge] at h
  by_cases hcapital : 'A' ≤ c ∧ c ≤ 'Z'
  · have hlow : 65 ≤ c.toNat := UInt32.le_iff_toNat_le.mp hcapital.1
    have hlarge : ¬ c.toNat - 55 < 10 := by omega
    simp [hdigit, hsmall, hcapital, hlarge] at h
  · simp [hdigit, hsmall, hcapital] at h

theorem isDigit_of_readDigits {n k : Nat} {cs : List Char} (h : readDigits 10 n cs = some k) :
    ∀ c ∈ cs, c.isDigit := by
  induction cs generalizing n with
  | nil => intro c hc; cases hc
  | cons c cs ih =>
    simp only [readDigits] at h
    split at h
    · rename_i d hd
      exact List.forall_mem_cons.mpr ⟨isDigit_of_digitIn? hd, ih h⟩
    · cases h

/-- An octal digit has one value in both bases. -/
theorem exists_digitIn? {c : Char} (hc : c.isDigit) (hlow : ¬ (c = '8' ∨ c = '9')) :
    ∃ d, digitIn? 8 c = some d ∧ digitIn? 10 c = some d ∧ (d = 0 ↔ c = '0') := by
  have hall : digitChars.all fun c => c = '8' || c = '9' ||
      (digitIn? 8 c = digitIn? 10 c && (digitIn? 10 c).any fun d => d = 0 ↔ c = '0') := by
    decide
  have hone := List.all_eq_true.mp hall c (mem_digitChars_of_isDigit hc)
  simp only [Bool.or_eq_true, decide_eq_true_eq, hlow, false_or, Bool.and_eq_true,
    Option.any_eq_true] at hone
  obtain ⟨hsame, d, hdecimal, hzero⟩ := hone
  exact ⟨d, hsame.trans hdecimal, hdecimal, hzero⟩

/-- The same digits are worth more in the greater base, if they go on a greater number. -/
theorem readDigits_octal_lt {x y k : Nat} (hxy : x < y) {cs : List Char}
    (hlow : ∀ c ∈ cs, ¬ (c = '8' ∨ c = '9')) (h : readDigits 10 y cs = some k) :
    ∃ m, readDigits 8 x cs = some m ∧ m < k := by
  have hdigits := isDigit_of_readDigits h
  induction cs generalizing x y with
  | nil =>
    obtain rfl := Option.some.inj h
    exact ⟨x, rfl, hxy⟩
  | cons c cs ih =>
    obtain ⟨hc, hcs⟩ := List.forall_mem_cons.mp hlow
    obtain ⟨hdigit, hrest⟩ := List.forall_mem_cons.mp hdigits
    obtain ⟨d, hoctal, hdecimal, -⟩ := exists_digitIn? hdigit hc
    simp only [readDigits, hoctal, hdecimal] at h ⊢
    exact ih (by omega) hcs h hrest

/-- From zero on, digits are worth the same in both bases exactly if at most one of them stands
behind the leading zeros. -/
theorem readDigits_octal {k : Nat} {cs : List Char} (hlow : ∀ c ∈ cs, ¬ (c = '8' ∨ c = '9'))
    (h : readDigits 10 0 cs = some k) :
    ∃ m, readDigits 8 0 cs = some m ∧ m ≤ k ∧
      (m = k ↔ (cs.dropWhile (· = '0')).length ≤ 1) := by
  have hdigits := isDigit_of_readDigits h
  induction cs with
  | nil =>
    obtain rfl := Option.some.inj h
    exact ⟨0, rfl, le_rfl, by simp⟩
  | cons c cs ih =>
    obtain ⟨hc, hcs⟩ := List.forall_mem_cons.mp hlow
    obtain ⟨hdigit, hrest⟩ := List.forall_mem_cons.mp hdigits
    obtain ⟨d, hoctal, hdecimal, hzero⟩ := exists_digitIn? hdigit hc
    simp only [readDigits, hoctal, hdecimal, Nat.zero_mul, Nat.zero_add] at h ⊢
    by_cases hd : d = 0
    · obtain rfl := hzero.mp hd
      subst hd
      simpa using ih hcs h hrest
    · have hne : c ≠ '0' := fun heq => hd (hzero.mpr heq)
      have hdrop : (c :: cs).dropWhile (· = '0') = c :: cs := by simp [hne]
      rw [hdrop]
      cases cs with
      | nil =>
        obtain rfl := Option.some.inj h
        exact ⟨d, rfl, le_rfl, by simp⟩
      | cons e cs =>
        obtain ⟨he, hcs⟩ := List.forall_mem_cons.mp hcs
        obtain ⟨hedigit, -⟩ := List.forall_mem_cons.mp hrest
        obtain ⟨f, hfoctal, hfdecimal, -⟩ := exists_digitIn? hedigit he
        simp only [readDigits, hfoctal, hfdecimal] at h ⊢
        obtain ⟨m, hm, hlt⟩ := readDigits_octal_lt (by omega : d * 8 + f < d * 10 + f) hcs h
        refine ⟨m, hm, hlt.le, ?_⟩
        simp only [List.length_cons]
        omega

end Text

/-- An integer of two octal digits or more behind its leading zeros. -/
def isLongOctal : List Char → Bool
  | '0' :: cs => cs.all Char.isDigit && 2 ≤ (cs.dropWhile (· = '0')).length
  | _ => false

theorem isLongOctal_of_ne {c : Char} (h : c ≠ '0') (cs : List Char) :
    isLongOctal (c :: cs) = false := by
  unfold isLongOctal
  split
  · rename_i heq
    exact absurd (List.cons.inj heq).1 h
  · rfl

/-- The two readings of an integer: its value, and the number that its text is in base ten. -/
structure Readings (raw : String) (value decimal : Nat) : Prop where
  value_eq : (⟨.int, raw⟩ : Literal).value? = some value
  decimal_eq : Text.readNat? 10 raw.toList = some decimal
  le : value ≤ decimal
  eq_iff : value = decimal ↔ isLongOctal raw.toList = false

namespace Readings

variable {raw : String} {c : Char} {cs : List Char} {k : Nat}

theorem baseAndDigits_of_ne_zero (hc : c ≠ '0') :
    Literal.baseAndDigits (c :: cs) = (10, c :: cs) := by
  unfold Literal.baseAndDigits
  split
  case h_5 => rfl
  all_goals
    rename_i heq
    exact absurd (List.cons.inj heq).1 hc

/-- Without a leading zero the two readings are one. -/
theorem of_ne_zero (htext : raw.toList = c :: cs) (hc : c ≠ '0')
    (hdecimal : Text.readNat? 10 raw.toList = some k) (hk : k < Literal.wordBound)
    (hdigits : ∀ d ∈ raw.toList, d.isDigit) : Readings raw k k := by
  have hbase : Literal.baseAndDigits raw.toList = (10, raw.toList) := by
    rw [htext, baseAndDigits_of_ne_zero hc]
  refine ⟨?_, hdecimal, le_rfl, ?_⟩
  · rw [Literal.value?_of_isDigit hdigits, hbase]
    exact Text.readBelow?_of_isDigit hdigits hdecimal hk
  · simp [htext, isLongOctal_of_ne hc]

/-- A zero alone is one number in both bases. -/
theorem zero (htext : raw.toList = ['0']) : Readings raw 0 0 := by
  have hdigits : ∀ d ∈ raw.toList, d.isDigit := by
    rw [htext]
    exact List.forall_mem_singleton.mpr (by decide)
  refine ⟨?_, ?_, le_rfl, ?_⟩
  · rw [Literal.value?_of_isDigit hdigits, htext]
    decide
  · rw [htext]
    decide
  · simp [htext, isLongOctal]

theorem baseAndDigits_octal (hc : c.isDigit) :
    Literal.baseAndDigits ('0' :: c :: cs) = (8, c :: cs) := by
  unfold Literal.baseAndDigits
  split
  case h_4 heq =>
    obtain ⟨rfl, rfl⟩ := List.cons.inj (List.cons.inj heq).2
    rfl
  case h_5 hnone => exact absurd rfl (hnone c cs)
  -- A digit is no letter that announces a base.
  all_goals
    rename_i heq
    rw [(List.cons.inj (List.cons.inj heq).2).1] at hc
    exact absurd hc (by decide)

/-- A zero in front of other digits makes them octal. -/
theorem octal (htext : raw.toList = '0' :: c :: cs)
    (hdecimal : Text.readNat? 10 raw.toList = some k) (hk : k < Literal.wordBound)
    (hdigits : ∀ d ∈ raw.toList, d.isDigit) (hoctal : Scan.isMisreadOctal raw.toList = false) :
    ∃ m, Readings raw m k := by
  have hvalue := Literal.value?_of_isDigit hdigits
  rw [htext] at hdigits hdecimal hoctal hvalue
  have hbehind : ∀ d ∈ c :: cs, d.isDigit := (List.forall_mem_cons.mp hdigits).2
  have hlow : ∀ d ∈ c :: cs, ¬ (d = '8' ∨ d = '9') := by
    simpa [Scan.isMisreadOctal] using hoctal
  obtain ⟨m, hm, hle, hiff⟩ := Text.readDigits_octal hlow hdecimal
  rw [baseAndDigits_octal (hbehind c List.mem_cons_self)] at hvalue
  refine ⟨m, ?_, htext ▸ hdecimal, hle, ?_⟩
  · rw [hvalue]
    exact Text.readBelow?_of_isDigit hbehind hm (by omega)
  · have hall : (c :: cs).all Char.isDigit := List.all_eq_true.mpr hbehind
    rw [hiff, htext, isLongOctal, hall, Bool.true_and, decide_eq_false_iff_not]
    omega

end Readings

theorem IsIntegerText.isDigit_of_cons {c : Char} {cs : List Char} (h : IsIntegerText (c :: cs)) :
    c.isDigit := by
  cases h with
  | announced => decide
  | plain hc => exact hc

/-- What consists of digits alone announces no base, so the digits 8 and 9 are not behind a leading
zero. -/
theorem IsIntegerText.isMisreadOctal_eq_false {text : List Char} (h : IsIntegerText text)
    (hdigits : ∀ c ∈ text, c.isDigit) : Scan.isMisreadOctal text = false := by
  cases h with
  | @announced base letter digits hletter =>
    have hdigit : letter.isDigit := hdigits letter (List.mem_cons_of_mem _ List.mem_cons_self)
    have hall : base.letters.all fun letter => !letter.isDigit := by cases base <;> decide
    have hnone := List.all_eq_true.mp hall letter hletter
    rw [hdigit] at hnone
    cases hnone
  | plain _ _ hoctal => exact hoctal

/-- Folding reads an integer in base ten, if it reads it at all. -/
theorem exists_readings {raw : String} (hraw : IsIntegerLexeme raw) {n : Int}
    (h : (Folded.ofText raw).word? = some n) : ∃ m k : Nat, Readings raw m k ∧ n = k := by
  have hform := hraw.isIntegerText
  change Text.readWord? raw.toList = some n at h
  cases htext : raw.toList with
  | nil =>
    rw [htext] at h
    cases h
  | cons c cs =>
    have hc : c.isDigit := (htext ▸ hform).isDigit_of_cons
    rw [htext] at h
    obtain ⟨k, hdecimal, rfl, hword⟩ := (Text.readWord?_eq_some_iff hc).mp h
    rw [← htext] at hdecimal
    have hk : k < Literal.wordBound := by
      have := hword.2
      unfold Literal.wordBound
      omega
    have hdigits : ∀ d ∈ raw.toList, d.isDigit := by
      unfold Text.readNat? at hdecimal
      split at hdecimal
      · cases hdecimal
      · exact Text.isDigit_of_readDigits hdecimal
    have hoctal := hform.isMisreadOctal_eq_false hdigits
    by_cases hzero : c = '0'
    · subst hzero
      cases cs with
      | nil =>
        have hreadings := Readings.zero htext
        rw [hreadings.decimal_eq] at hdecimal
        obtain rfl := Option.some.inj hdecimal
        exact ⟨0, 0, hreadings, rfl⟩
      | cons d cs =>
        obtain ⟨m, hreadings⟩ := Readings.octal htext hdecimal hk hdigits hoctal
        exact ⟨m, k, hreadings, rfl⟩
    · exact ⟨k, k, .of_ne_zero htext hzero hdecimal hk hdigits, rfl⟩

/-- Where an operation on two integers is folded exactly, it is the operation on their readings in
base ten. So it is the operation on their values exactly if that gives the same, and it does unless
one of them is an octal number of two digits or more. -/
theorem fold_integers_exact {a b : String} (ha : IsIntegerLexeme a) (hb : IsIntegerLexeme b)
    (op : BinaryOp) (mode : EvalMode) (env : Bindings) (result : Folded)
    (hresult : (Expr.binary op (.literal ⟨.int, a⟩) (.literal ⟨.int, b⟩)).fold mode env = result)
    (hexact : result.exact) :
    ∃ m k n l : Nat, Readings a m k ∧ Readings b n l ∧
      (Value.onNumbers? op k l).map Value.text = some result.text ∧
      ((Value.onNumbers? op m n).map Value.text = some result.text ↔
        Value.onNumbers? op m n = Value.onNumbers? op k l) ∧
      (isLongOctal a.toList = false → isLongOctal b.toList = false →
        (Value.onNumbers? op m n).map Value.text = some result.text) := by
  have hcombine : Fold.combine op (.ofText a) (.ofText b) = result := hresult
  rw [← hcombine] at hexact
  obtain ⟨-, -, x, y, v, hx, hy, hv, htext⟩ := Fold.combine_exact hexact
  obtain ⟨m, k, hm, rfl⟩ := exists_readings ha hx
  obtain ⟨n, l, hn, rfl⟩ := exists_readings hb hy
  have hright : ∀ w : Option Value,
      w.map Value.text = some result.text ↔ w = Value.onNumbers? op k l := by
    intro w
    rw [← hcombine, htext, hv, ← Option.map_some,
      (Option.map_injective Value.text_injective).eq_iff]
  simp only [hright]
  refine ⟨m, k, n, l, hm, hn, rfl, Iff.rfl, ?_⟩
  intro hshorta hshortb
  rw [hm.eq_iff.mpr hshorta, hn.eq_iff.mpr hshortb]

/-- Leading zeros do not matter in front of one digit. -/
theorem fold_short_octal : ∃ m k n l : Nat, Readings "007" m k ∧ Readings "12" n l ∧
    (Value.onNumbers? .mul k l).map Value.text = some "84" ∧
    ((Value.onNumbers? .mul m n).map Value.text = some "84" ↔
      Value.onNumbers? .mul m n = Value.onNumbers? .mul k l) ∧
    (isLongOctal "007".toList = false → isLongOctal "12".toList = false →
      (Value.onNumbers? .mul m n).map Value.text = some "84") :=
  fold_integers_exact (isIntegerLexeme_of_tokens (by decide +kernel))
    (isIntegerLexeme_of_tokens (by decide +kernel)) .mul .approximate [] ⟨"84", true⟩
    (by decide) (by decide)

/-- An octal number of two digits is taken for a decimal one: eight and one are not eleven. -/
theorem fold_long_octal :
    IsIntegerLexeme "010" ∧ IsIntegerLexeme "1" ∧
      (∀ mode env, (Expr.binary .add (.literal ⟨.int, "010"⟩) (.literal ⟨.int, "1"⟩)).fold mode env
        = ⟨"11", true⟩) ∧
      (⟨.int, "010"⟩ : Literal).value? = some 8 ∧ (⟨.int, "1"⟩ : Literal).value? = some 1 ∧
      (Value.onNumbers? .add 8 1).map Value.text = some "9" := by
  refine ⟨isIntegerLexeme_of_tokens (by decide +kernel),
    isIntegerLexeme_of_tokens (by decide +kernel), ?_, by decide, by decide, by decide⟩
  intro mode env
  simp only [Expr.fold]
  decide

end BoundedGo
