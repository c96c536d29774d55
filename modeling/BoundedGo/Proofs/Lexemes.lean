import BoundedGo.Proofs.Decimal
import BoundedGo.Token.Scan
import BoundedGo.Text.Blank
import Mathlib.Data.List.Find

/-!
Words, symbols and numbers that are read back from their spelling. What stands behind a spelling
does not matter as long as it does not go on with it: no letter or digit behind a word, nothing
that makes a symbol a longer one or a comment, and no point either behind a number.
Main statements: `isLexeme_word`, `isLexeme_symbol`, `isLexeme_decimalDigits`.
-/
namespace BoundedGo

def opensComment : List Char → Bool
  | '/' :: '/' :: _ => true
  | '/' :: '*' :: _ => true
  | _ => false

theorem opensComment_of_ne {c : Char} {cs : List Char} (h : c ≠ '/') :
    opensComment (c :: cs) = false := by
  unfold opensComment
  split
  · rename_i heq
    exact absurd (List.cons.inj heq).1 h
  · rename_i heq
    exact absurd (List.cons.inj heq).1 h
  · rfl

theorem opensComment_slash {cs : List Char} (h : ∀ c ∈ cs.head?, c ≠ '/' ∧ c ≠ '*') :
    opensComment ('/' :: cs) = false := by
  unfold opensComment
  split
  · rename_i heq
    rw [(List.cons.inj heq).2] at h
    exact absurd rfl (h '/' rfl).1
  · rename_i heq
    rw [(List.cons.inj heq).2] at h
    exact absurd rfl (h '*' rfl).2
  · rfl

/-- A text that is read as one token in front of another text. -/
def IsLexeme (k : TokenKind) (text rest : List Char) : Prop :=
  ∃ c cs, text = c :: cs ∧ Text.isBlank c = false ∧ opensComment (text ++ rest) = false ∧
    scan c (cs ++ rest) = ⟨.ok k, text, rest⟩

/-- A stretch of elements of one kind in front of another element. -/
theorem takeWhile_append_of_head {α : Type} {p : α → Bool} {cs rest : List α}
    (hcs : ∀ c ∈ cs, p c) (hrest : ∀ c ∈ rest.head?, p c = false) :
    (cs ++ rest).takeWhile p = cs ∧ (cs ++ rest).dropWhile p = rest := by
  have hstop : rest.takeWhile p = [] ∧ rest.dropWhile p = rest := by
    cases rest with
    | nil => exact ⟨rfl, rfl⟩
    | cons c rest => simp [hrest c rfl]
  rw [List.takeWhile_append_of_pos hcs, List.dropWhile_append_of_pos hcs, hstop.1, hstop.2,
    List.append_nil]
  exact ⟨rfl, rfl⟩

/-- Two stretches of one kind that are followed by another kind are told apart from what is behind
them. -/
theorem append_inj_of_head {α : Type} {p : α → Bool} {cs ds r s : List α} (hcs : ∀ c ∈ cs, p c)
    (hds : ∀ d ∈ ds, p d) (hr : ∀ c ∈ r.head?, p c = false) (hs : ∀ c ∈ s.head?, p c = false)
    (h : cs ++ r = ds ++ s) : cs = ds ∧ r = s := by
  obtain ⟨htakeCs, hdropCs⟩ := takeWhile_append_of_head hcs hr
  obtain ⟨htakeDs, hdropDs⟩ := takeWhile_append_of_head hds hs
  rw [h] at htakeCs hdropCs
  exact ⟨htakeCs.symm.trans htakeDs, hdropCs.symm.trans hdropDs⟩

/-- The code points of white space. -/
def blankPoints : List Nat :=
  [9, 10, 11, 12, 13, 32, 133, 160, 5760, 8192, 8193, 8194, 8195, 8196, 8197, 8198, 8199, 8200,
    8201, 8202, 8232, 8233, 8239, 8287, 12288]

theorem mem_blankPoints_of_isBlank {c : Char} (h : Text.isBlank c) : c.toNat ∈ blankPoints := by
  simp only [Text.isBlank, Text.blank, Text.Ranges.covers, Bool.if_false_right, Bool.and_true,
    Bool.if_false_left, Bool.if_true_left, Bool.and_eq_true, Bool.not_eq_eq_eq_not, Bool.not_true,
    decide_eq_false_iff_not, Nat.not_lt, Bool.or_eq_true, decide_eq_true_eq] at h
  simp only [blankPoints, List.mem_cons, List.not_mem_nil, or_false]
  omega

/-- White space is in no word. -/
theorem continuesIdentifier_of_isBlank {c : Char} (h : Text.isBlank c) :
    Scan.continuesIdentifier c = false := by
  have hall : ∀ n ∈ blankPoints,
      Text.alphabetic.covers n = false ∧ Text.numeric.covers n = false := by
    decide +kernel
  obtain ⟨hletter, hnumber⟩ := hall _ (mem_blankPoints_of_isBlank h)
  have hunderscore : c ≠ '_' := by
    rintro rfl
    exact absurd h (by decide)
  simp [Scan.continuesIdentifier, Text.isAlphabetic, Text.isNumeric, hletter, hnumber,
    hunderscore]

theorem isBlank_of_continuesIdentifier {c : Char} (h : Scan.continuesIdentifier c) :
    Text.isBlank c = false := by
  by_contra hblank
  rw [continuesIdentifier_of_isBlank (by simpa using hblank)] at h
  cases h

/-- A name or a reserved word. -/
def isWordText : List Char → Bool
  | [] => false
  | c :: cs => Scan.startsIdentifier c && cs.all Scan.continuesIdentifier

theorem continuesIdentifier_of_mem {text : List Char} (h : isWordText text) :
    ∀ c ∈ text, Scan.continuesIdentifier c := by
  cases text with
  | nil => nofun
  | cons c cs =>
    obtain ⟨hc, hcs⟩ := Bool.and_eq_true_iff.mp h
    exact List.forall_mem_cons.mpr
      ⟨Scan.continuesIdentifier_of_startsIdentifier hc, List.all_eq_true.mp hcs⟩

theorem isLexeme_word {text rest : List Char} (htext : isWordText text)
    (hrest : ∀ c ∈ rest.head?, Scan.continuesIdentifier c = false) :
    IsLexeme (Scan.wordKind text) text rest := by
  cases text with
  | nil => cases htext
  | cons c cs =>
    have hc := (Bool.and_eq_true_iff.mp htext).1
    have hall := continuesIdentifier_of_mem htext
    have hblank := isBlank_of_continuesIdentifier (hall c List.mem_cons_self)
    obtain ⟨htake, hdrop⟩ := takeWhile_append_of_head hall hrest
    refine ⟨c, cs, rfl, hblank, opensComment_of_ne ?_, ?_⟩
    · rintro rfl
      exact absurd hc (by decide)
    · rw [scan, if_pos hc, Scan.word, ← List.cons_append, htake, hdrop]

namespace Symbol

/-- Whether a character behind a symbol makes it the beginning of a longer one. -/
def extendedBy (s : Symbol) (c : Char) : Bool :=
  all.any fun t => (s.spelling.toList ++ [c]).isPrefixOf t.spelling.toList

theorem find?_spelling (s : Symbol) :
    all.find? (fun t => t.spelling.toList.isPrefixOf s.spelling.toList) = some s := by
  cases s <;> rfl

theorem mem_all (s : Symbol) : s ∈ all := by
  cases s <;> decide

/-- The longest symbol of a text is the one that it begins with, unless the text goes on with a
longer one. -/
theorem leading?_append {s : Symbol} {rest : List Char}
    (hrest : ∀ c ∈ rest.head?, s.extendedBy c = false) :
    leading? (s.spelling.toList ++ rest) = some s := by
  rw [← find?_spelling s, leading?]
  refine List.find?_congr fun t _ => Bool.eq_iff_iff.mpr ?_
  rw [List.isPrefixOf_iff_prefix, List.isPrefixOf_iff_prefix]
  refine ⟨fun h => ?_, fun h => h.trans (List.prefix_append _ _)⟩
  rcases List.prefix_or_prefix_of_prefix h (List.prefix_append _ rest) with hle | ⟨more, hmore⟩
  · exact hle
  cases more with
  | nil => exact ⟨[], by simpa using hmore.symm⟩
  | cons c more =>
    rw [← hmore, List.prefix_append_right_inj] at h
    obtain ⟨behind, hbehind⟩ := h
    have hc : s.extendedBy c = false := hrest c (by simp [← hbehind])
    have hext : s.extendedBy c = true := by
      refine List.any_eq_true.mpr ⟨t, mem_all t, List.isPrefixOf_iff_prefix.mpr ⟨more, ?_⟩⟩
      rw [← hmore, List.append_assoc]
      rfl
    rw [hc] at hext
    cases hext

/-- The symbols are no beginnings of words, numbers or quoted literals; only a point can be the
beginning of a number. -/
theorem scan_spelling {s : Symbol} (hs : s ≠ .dot) (rest : List Char) :
    ∃ c cs, s.spelling.toList = c :: cs ∧ Text.isBlank c = false ∧
      scan c (cs ++ rest) = Scan.symbol c (cs ++ rest) := by
  cases s <;> first | exact ⟨_, _, rfl, rfl, rfl⟩ | exact absurd rfl hs

end Symbol

theorem isLexeme_symbol {s : Symbol} (hs : s ≠ .dot) {rest : List Char}
    (hrest : ∀ c ∈ rest.head?, s.extendedBy c = false)
    (hcomment : opensComment (s.spelling.toList ++ rest) = false) :
    IsLexeme (.symbol s) s.spelling.toList rest := by
  obtain ⟨c, cs, hspelling, hblank, hscan⟩ := s.scan_spelling hs rest
  refine ⟨c, cs, hspelling, hblank, hcomment, ?_⟩
  have hleading := Symbol.leading?_append hrest
  rw [hspelling, List.cons_append] at hleading
  rw [hscan, Scan.symbol, hleading]
  dsimp only
  rw [← List.cons_append, ← hspelling, ← String.length_toList, List.take_left, List.drop_left]

/-- The characters that go on with a symbol or open a comment behind a slash. -/
def symbolTails : List Char := ['=', '^', '&', '|', '<', '>', '-', '+', '.', '/', '*']

/-- Text that goes on with no symbol and makes none the beginning of a comment. -/
def EndsSymbol (rest : List Char) : Prop :=
  ∀ c ∈ rest.head?, c ∉ symbolTails

theorem Symbol.extendedBy_eq_false {c : Char} (hc : c ∉ symbolTails) (s : Symbol) :
    s.extendedBy c = false := by
  have htails : ∀ t : Symbol, t.spelling.toList.tail.all symbolTails.contains := by
    intro t
    cases t <;> decide
  have hne : s.spelling.toList ≠ [] := by
    cases s <;> decide
  obtain ⟨d, ds, hspelling⟩ := List.exists_cons_of_ne_nil hne
  rw [extendedBy, List.any_eq_false]
  intro t _ hprefix
  obtain ⟨more, hmore⟩ := List.isPrefixOf_iff_prefix.mp hprefix
  have hmem : c ∈ t.spelling.toList.tail := by
    rw [← hmore, hspelling]
    simp
  exact hc (List.contains_iff_mem.mp (List.all_eq_true.mp (htails t) c hmem))

theorem isLexeme_of_endsSymbol {s : Symbol} (hs : s ≠ .dot) {rest : List Char}
    (hrest : EndsSymbol rest) : IsLexeme (.symbol s) s.spelling.toList rest := by
  refine isLexeme_symbol hs (fun c hc => s.extendedBy_eq_false (hrest c hc)) ?_
  have hslash : opensComment ('/' :: rest) = false := by
    refine opensComment_slash fun c hc => ⟨?_, ?_⟩
    · rintro rfl
      exact hrest _ hc (by decide)
    · rintro rfl
      exact hrest _ hc (by decide)
  cases s with
  | slash => exact hslash
  | _ => rfl

theorem not_mem_symbolTails {p : Char → Bool} (hall : symbolTails.all (fun c => !p c)) {c : Char}
    (hc : p c) : c ∉ symbolTails := by
  intro hmem
  have hnot := List.all_eq_true.mp hall c hmem
  rw [hc] at hnot
  cases hnot

theorem endsSymbol_of_isBlank {c : Char} (h : Text.isBlank c) (rest : List Char) :
    EndsSymbol (c :: rest) := by
  intro d hd
  obtain rfl := Option.some.inj hd
  exact not_mem_symbolTails (by decide) h

theorem endsSymbol_of_isDigit {c : Char} (h : c.isDigit) (rest : List Char) :
    EndsSymbol (c :: rest) := by
  intro d hd
  obtain rfl := Option.some.inj hd
  exact not_mem_symbolTails (p := Char.isDigit) (by decide) h

def digitChars : List Char := ['0', '1', '2', '3', '4', '5', '6', '7', '8', '9']

theorem mem_digitChars_of_isDigit {c : Char} (h : c.isDigit) : c ∈ digitChars := by
  have hle : '0'.val ≤ c.val ∧ c.val ≤ '9'.val := by simpa [Char.isDigit] using h
  have hlow : 48 ≤ c.toNat := UInt32.le_iff_toNat_le.mp hle.1
  have hhigh : c.toNat ≤ 57 := UInt32.le_iff_toNat_le.mp hle.2
  have hc : Char.ofNat c.toNat = c := Char.ofNat_toNat c
  generalize c.toNat = n at hlow hhigh hc
  subst hc
  interval_cases n <;> decide

/-- Digits begin no words, but words and numbers go on with them. -/
theorem digit_facts {c : Char} (h : c.isDigit) : Text.isBlank c = false ∧
    Scan.startsIdentifier c = false ∧ Scan.continuesIdentifier c = true := by
  have hall : digitChars.all fun d =>
      !Text.isBlank d && (!Scan.startsIdentifier d && Scan.continuesIdentifier d) := by
    decide
  simpa using List.all_eq_true.mp hall c (mem_digitChars_of_isDigit h)

/-- Text that goes on neither with a word nor with a number. -/
def EndsNumber (rest : List Char) : Prop :=
  ∀ c ∈ rest.head?, Scan.continuesIdentifier c = false ∧ c ≠ '.'

theorem EndsNumber.head_ne {c : Char} {rest : List Char} (h : EndsNumber rest)
    (hc : Scan.continuesIdentifier c = true) {cs : List Char} : rest ≠ c :: cs := by
  rintro rfl
  rw [(h c rfl).1] at hc
  cases hc

end BoundedGo
