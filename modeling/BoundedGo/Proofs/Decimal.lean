import BoundedGo.Fold
import Mathlib.Tactic.IntervalCases

/-!
Decimal texts and the numbers that are read from them. A number is read back from its decimal
text, with or without a sign, so that different numbers have different texts; a truth value is
never read as a number. An integer literal that is written in this form, without a leading zero,
has the value that the form says.
-/
namespace BoundedGo

namespace Text

theorem readDigits_append (base n : Nat) (cs ds : List Char) :
    readDigits base n (cs ++ ds) = (readDigits base n cs).bind fun m => readDigits base m ds := by
  induction cs generalizing n with
  | nil => rfl
  | cons c cs ih =>
    simp only [List.cons_append, readDigits]
    cases digitIn? base c with
    | none => rfl
    | some d => exact ih _

theorem digitIn?_digitChar {d : Nat} (h : d < 10) : digitIn? 10 d.digitChar = some d := by
  interval_cases d <;> decide

theorem readDigits_decimalDigits (n : Nat) : readDigits 10 0 (decimalDigits n) = some n := by
  induction n using Nat.strong_induction_on with
  | h n ih =>
    rw [decimalDigits, Nat.toDigits_eq_if (by decide)]
    by_cases h : n < 10
    · simp [h, readDigits, digitIn?_digitChar h]
    · have hlast := digitIn?_digitChar (Nat.mod_lt n (by decide : 0 < 10))
      have hfront : readDigits 10 0 (Nat.toDigits 10 (n / 10)) = some (n / 10) :=
        ih (n / 10) (by omega)
      rw [if_neg h, readDigits_append, hfront]
      simp only [Option.bind_some, readDigits, hlast, Option.some.injEq]
      omega

theorem decimalDigits_ne_nil (n : Nat) : decimalDigits n ≠ [] :=
  Nat.toDigits_ne_nil

theorem isDigit_of_mem_decimalDigits {n : Nat} {c : Char} (h : c ∈ decimalDigits n) :
    c.isDigit :=
  Nat.isDigit_of_mem_toDigits (by decide) (by decide) h

theorem readNat?_decimalDigits (n : Nat) : readNat? 10 (decimalDigits n) = some n := by
  rw [readNat?, readDigits_decimalDigits]
  simp [decimalDigits_ne_nil]

theorem decimalDigits_injective : Function.Injective decimalDigits := by
  intro m n h
  have hread := readNat?_decimalDigits m
  rw [h, readNat?_decimalDigits] at hread
  exact (Option.some.inj hread).symm

/-- Only zero is written with a leading zero. -/
theorem decimalDigits_eq_zero_cons {n : Nat} {cs : List Char}
    (h : decimalDigits n = '0' :: cs) : cs = [] := by
  induction n using Nat.strong_induction_on generalizing cs with
  | h n ih =>
    rw [decimalDigits, Nat.toDigits_eq_if (by decide)] at h
    by_cases hn : n < 10
    · rw [if_pos hn] at h
      exact (List.cons.inj h).2.symm
    · rw [if_neg hn] at h
      cases hfront : Nat.toDigits 10 (n / 10) with
      | nil => exact absurd hfront Nat.toDigits_ne_nil
      | cons c front =>
        rw [hfront, List.cons_append] at h
        obtain ⟨rfl, -⟩ := List.cons.inj h
        have hnil : front = [] := ih (n / 10) (by omega) hfront
        subst hnil
        have hzero : n / 10 = 0 := by
          have := readDigits_decimalDigits (n / 10)
          rw [decimalDigits, hfront] at this
          exact (Option.some.inj this).symm
        omega

/-- A number without a sign in front is read if it is below the bound. -/
theorem readBelow?_eq_some_iff {bound base n : Nat} {cs : List Char} (hcs : '+' ∉ cs) :
    readBelow? bound base cs = some n ↔ readNat? base cs = some n ∧ n < bound := by
  unfold readBelow?
  split
  · exact absurd List.mem_cons_self hcs
  · dsimp only
    cases readNat? base cs with
    | none => simp
    | some k =>
      simp only [Option.ite_none_right_eq_some, Option.some.injEq]
      constructor
      · rintro ⟨hk, rfl⟩
        exact ⟨rfl, hk⟩
      · rintro ⟨rfl, hk⟩
        exact ⟨hk, rfl⟩

/-- Digits have no sign in front. -/
theorem readBelow?_of_isDigit {bound base n : Nat} {cs : List Char} (hcs : ∀ c ∈ cs, c.isDigit)
    (h : readNat? base cs = some n) (hn : n < bound) : readBelow? bound base cs = some n :=
  (readBelow?_eq_some_iff fun hplus => absurd (hcs '+' hplus) (by decide)).mpr ⟨h, hn⟩

theorem readBelow?_decimalDigits (bound n : Nat) :
    readBelow? bound 10 (decimalDigits n) = if n < bound then some n else none := by
  have hdigits : ∀ c ∈ decimalDigits n, c.isDigit := fun c hc => isDigit_of_mem_decimalDigits hc
  have hplus : '+' ∉ decimalDigits n := fun hc => absurd (hdigits '+' hc) (by decide)
  refine Option.ext fun k => ?_
  rw [readBelow?_eq_some_iff hplus, readNat?_decimalDigits, Option.ite_none_right_eq_some]
  constructor
  · rintro ⟨heq, hk⟩
    exact ⟨Option.some.inj heq ▸ hk, heq⟩
  · rintro ⟨hn, heq⟩
    exact ⟨heq, Option.some.inj heq ▸ hn⟩

/-- A text that begins with a digit is read as a signed number exactly if it is a number of a
word. -/
theorem readWord?_eq_some_iff {c : Char} {cs : List Char} (hc : c.isDigit) {n : Int} :
    readWord? (c :: cs) = some n ↔
      ∃ k : Nat, readNat? 10 (c :: cs) = some k ∧ n = k ∧ IsWord n := by
  have hunsigned : readWord? (c :: cs) =
      ((readNat? 10 (c :: cs)).map Int.ofNat).bind fun n => if IsWord n then some n else none := by
    unfold readWord?
    split
    · rename_i heq
      rw [(List.cons.inj heq).1] at hc
      exact absurd hc (by decide)
    · rename_i heq
      rw [(List.cons.inj heq).1] at hc
      exact absurd hc (by decide)
    · cases readNat? 10 (c :: cs) <;> rfl
  rw [hunsigned]
  cases readNat? 10 (c :: cs) with
  | none => simp
  | some k =>
    simp only [Option.map_some, Option.bind_some, Option.some.injEq, Option.ite_none_right_eq_some]
    constructor
    · rintro ⟨hword, rfl⟩
      exact ⟨k, rfl, rfl, hword⟩
    · rintro ⟨k, rfl, rfl, hword⟩
      exact ⟨hword, rfl⟩

theorem readWord?_decimalDigits {n : Nat} (h : IsWord n) :
    readWord? (decimalDigits n) = some (n : Int) := by
  cases hdigits : decimalDigits n with
  | nil => exact absurd hdigits (decimalDigits_ne_nil n)
  | cons c cs =>
    have hc : c.isDigit := isDigit_of_mem_decimalDigits (hdigits ▸ List.mem_cons_self)
    exact (readWord?_eq_some_iff hc).mpr ⟨n, hdigits ▸ readNat?_decimalDigits n, rfl, h⟩

theorem readWord?_signedDecimal {n : Int} (h : IsWord n) :
    readWord? (signedDecimal n).toList = some n := by
  unfold signedDecimal
  by_cases hn : n < 0
  · have habs : -((n.natAbs : Nat) : Int) = n := by omega
    simp only [if_pos hn, String.toList_ofList, readWord?, readNat?_decimalDigits]
    change (if IsWord (-(n.natAbs : Int)) then some (-(n.natAbs : Int)) else none) = some n
    rw [habs, if_pos h]
  · have habs : ((n.natAbs : Nat) : Int) = n := by omega
    have hword : IsWord (n.natAbs : Nat) := by rwa [habs]
    simpa [hn, decimal, habs] using readWord?_decimalDigits hword

/-- Different numbers have different texts. -/
theorem signedDecimal_injective : Function.Injective signedDecimal := by
  intro m n h
  unfold signedDecimal at h
  have hsign : ∀ {k l : Nat}, '-' :: decimalDigits k ≠ decimalDigits l := by
    intro k l hkl
    have hmem : '-' ∈ decimalDigits l := by simp [← hkl]
    exact absurd (isDigit_of_mem_decimalDigits hmem) (by decide)
  split at h <;> split at h <;> simp only [decimal, String.ofList_inj] at h
  · have := decimalDigits_injective (List.cons.inj h).2
    omega
  · exact absurd h hsign
  · exact absurd h.symm hsign
  · have := decimalDigits_injective h
    omega

theorem signedDecimal_natCast (n : Nat) : signedDecimal n = decimal n := by
  simp [signedDecimal]

end Text

namespace Folded

theorem readWord?_boolText (b : Bool) : Text.readWord? (boolText b).toList = none := by
  cases b <;> decide

/-- No number has the text of a truth value. -/
theorem signedDecimal_ne_boolText {n : Int} (b : Bool) : Text.signedDecimal n ≠ boolText b := by
  intro h
  have hmem : 'e' ∈ (Text.signedDecimal n).toList := by
    rw [h]
    cases b <;> decide
  have hdigit : 'e' ∈ Text.decimalDigits n.natAbs := by
    unfold Text.signedDecimal at hmem
    split at hmem <;> simpa [Text.decimal] using hmem
  exact absurd (Text.isDigit_of_mem_decimalDigits hdigit) (by decide)

end Folded

namespace Literal

/-- The integer literal of a number in canonical form. -/
def ofNat (n : Nat) : Literal := ⟨.int, Text.decimal n⟩

theorem baseAndDigits_decimalDigits (n : Nat) :
    baseAndDigits (Text.decimalDigits n) = (10, Text.decimalDigits n) := by
  unfold baseAndDigits
  split
  -- Behind a leading zero nothing follows.
  all_goals
    first
      | rfl
      | rename_i heq; exact absurd (Text.decimalDigits_eq_zero_cons heq) (by simp)

theorem toLower_of_isDigit {c : Char} (h : c.isDigit) : c.toLower = c := by
  have hle : c.val ≤ '9'.val := (by simpa [Char.isDigit] using h : _ ∧ _).2
  have hnot : ¬ (c.val ≥ 'A'.val ∧ c.val ≤ 'Z'.val) := by
    rintro ⟨hge, -⟩
    exact absurd (UInt32.le_trans hge hle) (by decide)
  exact dif_neg hnot

/-- Digits are neither parted nor capital. -/
theorem value?_of_isDigit {raw : String} (h : ∀ c ∈ raw.toList, c.isDigit) :
    value? ⟨.int, raw⟩ = Text.readBelow? wordBound (baseAndDigits raw.toList).1
      (baseAndDigits raw.toList).2 := by
  have hunderscores : raw.toList.filter (· != '_') = raw.toList := by
    refine List.filter_eq_self.mpr fun c hc => ?_
    have : c ≠ '_' := by
      rintro rfl
      exact absurd (h _ hc) (by decide)
    simpa using this
  have hlower : raw.toList.map Char.toLower = raw.toList :=
    (List.map_congr_left fun c hc => toLower_of_isDigit (h c hc)).trans (List.map_id _)
  simp only [value?, hunderscores, hlower]

theorem value?_ofNat {n : Nat} (h : n < wordBound) : (ofNat n).value? = some n := by
  have hdigit : ∀ c ∈ Text.decimalDigits n, c.isDigit := fun c hc =>
    Text.isDigit_of_mem_decimalDigits hc
  rw [ofNat, Text.decimal, value?_of_isDigit (by simpa using hdigit), String.toList_ofList,
    baseAndDigits_decimalDigits]
  exact Text.readBelow?_of_isDigit hdigit (Text.readNat?_decimalDigits n) h

end Literal

end BoundedGo
