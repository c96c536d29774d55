import BoundedGo.Proofs.IntegerLiterals
import BoundedGo.Proofs.Renaming
import Mathlib.Data.Nat.Digits.Lemmas

/-!
The values of integers. An integer is a row of digits in a base that its first characters tell, and
underscores between the digits do not count. Its value is the number that the digits denote by their
places, if that is a number of 64 bits.
Main statement: this is so for every integer that a lexer answers (`value?_of_answer`).
-/
namespace BoundedGo

namespace Base

/-- The number of digits of a base. -/
def radix : Base → Nat
  | .hex => 16
  | .binary => 2
  | .octal => 8

/-- The letter of an announced base is read in either case. -/
theorem baseAndDigits_toLower {base : Base} {letter : Char} (h : letter ∈ base.letters)
    (cs : List Char) :
    Literal.baseAndDigits ('0' :: letter.toLower :: cs) = (base.radix, cs) := by
  cases base <;> rcases List.mem_pair.mp h with rfl | rfl <;> rfl

theorem eq_of_mem_letters {base other : Base} {letter : Char} (h : letter ∈ base.letters)
    (h' : letter ∈ other.letters) : base = other := by
  cases base <;> rcases List.mem_pair.mp h with rfl | rfl <;> cases other <;>
    first | rfl | exact absurd h' (by decide)

theorem isDecimal_of_mem_letters {base : Base} {letter : Char} (h : letter ∈ base.letters) :
    Scan.isDecimal letter = false := by
  cases base <;> rcases List.mem_pair.mp h with rfl | rfl <;> rfl

/-- Digits are characters of the ASCII alphabet. -/
theorem toNat_lt_of_hasDigit {base : Base} {c : Char} (h : base.hasDigit c) : c.toNat < 128 := by
  have hle : ∀ {d : Char}, c ≤ d → c.toNat ≤ d.toNat := fun h => UInt32.le_iff_toNat_le.mp h
  cases base with
  | hex =>
    simp only [hasDigit, Bool.or_eq_true, Bool.and_eq_true, decide_eq_true_eq] at h
    rcases h with (h | h) | h
    · exact lt_of_le_of_lt (hle (d := '9') (of_decide_eq_true (Bool.and_eq_true_iff.mp h).2))
        (by decide)
    · exact lt_of_le_of_lt (hle h.2) (by decide)
    · exact lt_of_le_of_lt (hle h.2) (by decide)
  | binary =>
    simp only [hasDigit, Bool.or_eq_true, decide_eq_true_eq] at h
    rcases h with rfl | rfl <;> decide
  | octal =>
    simp only [hasDigit, Bool.and_eq_true, decide_eq_true_eq] at h
    exact lt_of_le_of_lt (hle h.2) (by decide)

end Base

namespace Text

/-- The digits of all bases, in the order of their values. -/
def digitOrder : List Char := "0123456789abcdef".toList

/-- What a digit counts: its place among the digits. -/
def digitRank (c : Char) : Nat := digitOrder.idxOf c.toLower

/-- The number that digits denote by their places. -/
def denoted (base : Nat) (digits : List Char) : Nat :=
  Nat.ofDigits base (digits.map digitRank).reverse

theorem denoted_cons (base : Nat) (c : Char) (cs : List Char) :
    denoted base (c :: cs) = denoted base cs + base ^ cs.length * digitRank c := by
  simp [denoted, Nat.ofDigits_append]

theorem digitRank_lt {base : Nat} {c : Char} (h : digitIn? base c.toLower = some (digitRank c)) :
    digitRank c < base := by
  unfold digitIn? at h
  split at h
  · obtain ⟨hlt, heq⟩ := Option.ite_none_right_eq_some.mp h
    rwa [Option.some.inj heq] at hlt
  · cases h

/-- The digits of a base, in either case, count what their places among all digits say. -/
theorem digitIn?_of_hasDigit {base : Base} {c : Char} (h : base.hasDigit c) :
    digitIn? base.radix c.toLower = some (digitRank c) := by
  have hall : ∀ n < 128, base.hasDigit (Char.ofNat n) →
      digitIn? base.radix (Char.ofNat n).toLower = some (digitRank (Char.ofNat n)) := by
    cases base <;> decide
  exact of_ascii (P := fun c => base.hasDigit c →
    digitIn? base.radix c.toLower = some (digitRank c)) hall (Base.toNat_lt_of_hasDigit h) h

theorem hasDigit_octal {c : Char} (h : c.isDigit) (hlow : ¬ (c = '8' ∨ c = '9')) :
    Base.octal.hasDigit c := by
  have hall : digitChars.all fun c => c = '8' || c = '9' || Base.octal.hasDigit c := by decide
  have hone := List.all_eq_true.mp hall c (mem_digitChars_of_isDigit h)
  simpa only [Bool.or_eq_true, decide_eq_true_eq, hlow, false_or] using hone

theorem digitIn?_of_isDigit {c : Char} (h : c.isDigit) :
    digitIn? 10 c.toLower = some (digitRank c) := by
  have hall : digitChars.all fun c => digitIn? 10 c.toLower = some (digitRank c) := by decide
  simpa using List.all_eq_true.mp hall c (mem_digitChars_of_isDigit h)

/-- Whether characters are digits of a base, in either case. -/
def AreDigits (base : Nat) (cs : List Char) : Prop :=
  ∀ c ∈ cs, digitIn? base c.toLower = some (digitRank c)

theorem AreDigits.plus_not_mem {base : Nat} {cs : List Char} (h : AreDigits base cs) :
    '+' ∉ cs.map Char.toLower := by
  intro hplus
  obtain ⟨c, hc, hlower⟩ := List.mem_map.mp hplus
  have hdigit := h c hc
  rw [hlower] at hdigit
  cases hdigit

/-- Digits that are read behind a number move it to the left. -/
theorem AreDigits.readDigits_eq {base : Nat} {cs : List Char} (h : AreDigits base cs) (n : Nat) :
    readDigits base n (cs.map Char.toLower) = some (n * base ^ cs.length + denoted base cs) := by
  induction cs generalizing n with
  | nil => simp [readDigits, denoted]
  | cons c cs ih =>
    obtain ⟨hc, hcs⟩ := List.forall_mem_cons.mp h
    rw [List.map_cons, readDigits, hc]
    dsimp only
    rw [ih hcs, denoted_cons, List.length_cons, pow_succ]
    congr 1
    ring

theorem AreDigits.readNat?_eq {base : Nat} {cs : List Char} (h : AreDigits base cs)
    (hsome : cs ≠ []) : readNat? base (cs.map Char.toLower) = some (denoted base cs) := by
  rw [readNat?, h.readDigits_eq 0, Nat.zero_mul, Nat.zero_add, if_neg]
  simpa using hsome

end Text

/-- The digits of an integer's text, which underscores may part. -/
def digitsOf (text : List Char) : List Char := text.filter (· != '_')

/-- The base of an integer and its digits. A letter behind a zero announces a base, a zero in front
makes the digits octal, and otherwise they are decimal. -/
inductive IsWrittenIn : List Char → Nat → List Char → Prop
  | announced {base : Base} {letter : Char} (hletter : letter ∈ base.letters) (cs : List Char) :
    IsWrittenIn ('0' :: letter :: cs) base.radix (digitsOf cs)
  | octal {cs : List Char} (hcs : ∀ c ∈ cs, Scan.isDecimal c) :
    IsWrittenIn ('0' :: cs) 8 ('0' :: digitsOf cs)
  | decimal {c : Char} (hc : c.isDigit) (hzero : c ≠ '0') (cs : List Char) :
    IsWrittenIn (c :: cs) 10 (c :: digitsOf cs)

theorem IsWrittenIn.unique {text digits others : List Char} {base other : Nat}
    (h : IsWrittenIn text base digits) (h' : IsWrittenIn text other others) :
    base = other ∧ digits = others := by
  cases h with
  | announced hletter =>
    cases h' with
    | announced hletter' =>
      rw [Base.eq_of_mem_letters hletter hletter']
      exact ⟨rfl, rfl⟩
    | octal hcs =>
      have hdecimal := hcs _ List.mem_cons_self
      rw [Base.isDecimal_of_mem_letters hletter] at hdecimal
      cases hdecimal
    | decimal _ hzero => exact absurd rfl hzero
  | octal hcs =>
    cases h' with
    | announced hletter =>
      have hdecimal := hcs _ List.mem_cons_self
      rw [Base.isDecimal_of_mem_letters hletter] at hdecimal
      cases hdecimal
    | octal => exact ⟨rfl, rfl⟩
    | decimal _ hzero => exact absurd rfl hzero
  | decimal _ hzero =>
    cases h' with
    | announced | octal => exact absurd rfl hzero
    | decimal => exact ⟨rfl, rfl⟩

theorem digitsOf_cons_of_ne {c : Char} (h : c ≠ '_') (cs : List Char) :
    digitsOf (c :: cs) = c :: digitsOf cs :=
  List.filter_cons_of_pos (by simpa using h)

theorem isDigit_of_mem_digitsOf {cs : List Char} (h : ∀ c ∈ cs, Scan.isDecimal c) :
    ∀ c ∈ digitsOf cs, c.isDigit := by
  intro c hc
  obtain ⟨hmem, hne⟩ := List.mem_filter.mp hc
  have hdecimal := h c hmem
  simp only [Scan.isDecimal, Bool.or_eq_true, decide_eq_true_eq] at hdecimal
  exact hdecimal.resolve_right (by simpa using hne)

namespace IsWrittenIn

variable {text digits : List Char} {base : Nat}

/-- A zero alone is read as a decimal number, which makes no difference. -/
theorem exists_read (h : IsWrittenIn text base digits) (hdigits : Text.AreDigits base digits)
    (hsome : digits ≠ []) : ∃ read cs,
      Literal.baseAndDigits ((digitsOf text).map Char.toLower) = (read, cs) ∧ '+' ∉ cs ∧
        Text.readNat? read cs = some (Text.denoted base digits) := by
  cases h with
  | @announced _ letter hletter cs =>
    have hne : letter ≠ '_' := by
      rintro rfl
      exact absurd (Base.isDecimal_of_mem_letters hletter) (by decide)
    rw [digitsOf_cons_of_ne (by decide), digitsOf_cons_of_ne hne]
    exact ⟨_, _, Base.baseAndDigits_toLower hletter _, hdigits.plus_not_mem,
      hdigits.readNat?_eq hsome⟩
  | @octal cs hcs =>
    obtain ⟨-, hbehind⟩ := List.forall_mem_cons.mp hdigits
    have hisDigit := isDigit_of_mem_digitsOf hcs
    rw [digitsOf_cons_of_ne (by decide), Text.denoted_cons]
    cases hrest : digitsOf cs with
    | nil => exact ⟨_, _, rfl, by decide, rfl⟩
    | cons c ds =>
      rw [hrest] at hbehind hisDigit
      have hc : c.toLower.isDigit := by
        have := hisDigit c List.mem_cons_self
        rwa [Literal.toLower_of_isDigit this]
      exact ⟨_, _, Readings.baseAndDigits_octal hc, Text.AreDigits.plus_not_mem hbehind,
        Text.AreDigits.readNat?_eq hbehind (List.cons_ne_nil c ds)⟩
  | @decimal c hc hzero cs =>
    have hne : c ≠ '_' := by
      rintro rfl
      exact absurd hc (by decide)
    rw [digitsOf_cons_of_ne hne]
    have hlower : c.toLower ≠ '0' := by rwa [Literal.toLower_of_isDigit hc]
    exact ⟨_, _, Readings.baseAndDigits_of_ne_zero hlower, hdigits.plus_not_mem,
      hdigits.readNat?_eq hsome⟩

theorem value?_eq_some_iff {raw : String} (h : IsWrittenIn raw.toList base digits)
    (hdigits : Text.AreDigits base digits) (hsome : digits ≠ []) (v : Nat) :
    (⟨.int, raw⟩ : Literal).value? = some v ↔
      Text.denoted base digits < 2 ^ 64 ∧ v = Text.denoted base digits := by
  obtain ⟨read, cs, hbase, hplus, hnat⟩ := h.exists_read hdigits hsome
  have hvalue : (⟨.int, raw⟩ : Literal).value? = Text.readBelow? Literal.wordBound read cs := by
    change Text.readBelow? _ (Literal.baseAndDigits ((digitsOf raw.toList).map Char.toLower)).1
      (Literal.baseAndDigits ((digitsOf raw.toList).map Char.toLower)).2 = _
    rw [hbase]
  rw [hvalue, Text.readBelow?_eq_some_iff hplus, hnat, Option.some.injEq]
  constructor
  · rintro ⟨rfl, hlt⟩
    exact ⟨hlt, rfl⟩
  · rintro ⟨hlt, rfl⟩
    exact ⟨rfl, hlt⟩

end IsWrittenIn

/-- Every integer has a base, and its digits are digits of this base. -/
theorem IsIntegerText.exists_isWrittenIn {text : List Char} (h : IsIntegerText text) :
    ∃ base digits, IsWrittenIn text base digits ∧ Text.AreDigits base digits := by
  cases h with
  | @announced base letter cs hletter hcs =>
    refine ⟨_, _, .announced hletter cs, fun c hc => ?_⟩
    obtain ⟨hmem, hne⟩ := List.mem_filter.mp hc
    exact Text.digitIn?_of_hasDigit ((hcs c hmem).resolve_right (by simpa using hne))
  | @plain c cs hc hcs hoctal =>
    have hbehind := isDigit_of_mem_digitsOf hcs
    by_cases hzero : c = '0'
    · subst hzero
      refine ⟨_, _, .octal hcs, List.forall_mem_cons.mpr ⟨by decide, fun d hd => ?_⟩⟩
      have hlow : ∀ d ∈ cs, ¬ (d = '8' ∨ d = '9') := by
        simpa [Scan.isMisreadOctal] using hoctal
      have hoctal := Text.hasDigit_octal (hbehind d hd) (hlow d (List.mem_filter.mp hd).1)
      exact Text.digitIn?_of_hasDigit hoctal
    · exact ⟨_, _, .decimal hc hzero cs, List.forall_mem_cons.mpr
        ⟨Text.digitIn?_of_isDigit hc, fun d hd => Text.digitIn?_of_isDigit (hbehind d hd)⟩⟩

/-- An integer that a lexer answers, wherever it stands, has one base and digits of this base. If
there are any, its value is the number that they denote by their places, and it has a value exactly
if that is a number of 64 bits. -/
theorem value?_of_answer {l : Lexer} {t : Token} (ht : l.next.1 = .ok t)
    (hkind : t.kind = .literal .int) :
    (∃ base digits, IsWrittenIn t.lexeme.toList base digits) ∧
      ∀ base digits, IsWrittenIn t.lexeme.toList base digits → digits ≠ [] →
        (∀ c ∈ digits, Text.digitRank c < base) ∧
          ∀ v, (⟨.int, t.lexeme⟩ : Literal).value? = some v ↔
            Text.denoted base digits < 2 ^ 64 ∧ v = Text.denoted base digits := by
  obtain ⟨base, digits, hform, hdigits⟩ :=
    (isIntegerText_of_next ht hkind).exists_isWrittenIn
  refine ⟨⟨base, digits, hform⟩, fun other others hother hsome => ?_⟩
  obtain ⟨rfl, rfl⟩ := hform.unique hother
  exact ⟨fun c hc => Text.digitRank_lt (hdigits c hc), hform.value?_eq_some_iff hdigits hsome⟩

/-- Neither underscores nor the case of letters count. -/
theorem value?_of_answer_mask :
    (Lexer.ofText "0x1F_fF".toList).next.1
        = .ok ⟨.literal .int, "0x1F_fF", ⟨⟨1, 1, 0⟩, ⟨1, 8, 7⟩⟩⟩ ∧
      IsWrittenIn "0x1F_fF".toList 16 ['1', 'F', 'f', 'F'] ∧
        (∀ c ∈ ['1', 'F', 'f', 'F'], Text.digitRank c < 16) ∧
          ∀ v, (⟨.int, "0x1F_fF"⟩ : Literal).value? = some v ↔
            Text.denoted 16 ['1', 'F', 'f', 'F'] < 2 ^ 64 ∧
              v = Text.denoted 16 ['1', 'F', 'f', 'F'] := by
  have ht : (Lexer.ofText "0x1F_fF".toList).next.1
      = .ok ⟨.literal .int, "0x1F_fF", ⟨⟨1, 1, 0⟩, ⟨1, 8, 7⟩⟩⟩ := by
    decide +kernel
  have hform : IsWrittenIn "0x1F_fF".toList 16 ['1', 'F', 'f', 'F'] :=
    .announced (by decide : 'x' ∈ Base.hex.letters) ['1', 'F', '_', 'f', 'F']
  exact ⟨ht, hform, (value?_of_answer ht rfl).2 16 _ hform (by decide)⟩

end BoundedGo
