import BoundedGo.Proofs.TypeTexts
import BoundedGo.Target.Width

/-!
Widths of arrays, taken from their texts. The text of an array is taken apart again into the text of
its element and its length, whatever the element is, since a length has no semicolon and neither
part has white space at its ends. Widths multiply up to the largest width there is. But a length
beyond the largest width is not read, and an array of such a length has no width at all.
Main statement: for nested arrays of any depth, the width is the product of the lengths and the
width of the type inside, as far as there is such a width, exactly if no length is too large or the
product is zero (`arrayWidth_eq_iff`).
-/
namespace BoundedGo

/-- Whether a text neither begins nor ends with white space. -/
def IsTight (cs : List Char) : Prop :=
  (∀ c ∈ cs.head?, Text.isBlank c = false) ∧ ∀ c ∈ cs.getLast?, Text.isBlank c = false

theorem IsTight.trimBlank_eq {cs : List Char} (h : IsTight cs) : Text.trimBlank cs = cs := by
  have hdrop : ∀ {ds : List Char}, (∀ c ∈ ds.head?, Text.isBlank c = false) →
      ds.dropWhile Text.isBlank = ds := fun hds =>
    (takeWhile_append_of_head (List.forall_mem_nil _) hds).2
  rw [Text.trimBlank, hdrop h.1, hdrop (by simpa [List.head?_reverse] using h.2),
    List.reverse_reverse]

theorem IsTight.of_forall {cs : List Char} (h : ∀ c ∈ cs, Text.isBlank c = false) : IsTight cs :=
  ⟨fun c hc => h c (List.mem_of_mem_head? hc), fun c hc => h c (List.mem_of_mem_getLast? hc)⟩

/-- What encloses a text keeps white space from its ends. -/
theorem isTight_enclosed {first last : Char} (hfirst : Text.isBlank first = false)
    (hlast : Text.isBlank last = false) (cs : List Char) : IsTight (first :: (cs ++ [last])) := by
  refine ⟨fun c hc => ?_, fun c hc => ?_⟩
  · obtain rfl := Option.some.inj hc
    exact hfirst
  · rw [← List.cons_append, List.getLast?_concat] at hc
    obtain rfl := Option.some.inj hc
    exact hlast

theorem isTight_decimalDigits (n : Nat) : IsTight (Text.decimalDigits n) :=
  .of_forall fun _ hc => (digit_facts (Text.isDigit_of_mem_decimalDigits hc)).1

namespace TargetType

theorem toList_text_brackets (element : TargetType) (length : Nat) :
    (array element length).text.toList =
      '[' :: (element.text.toList ++ ';' :: ' ' :: Text.decimalDigits length ++ [']']) := by
  simp [text, Text.decimal]

theorem exists_text_tuple (slots : List TargetType) :
    ∃ cs, (tuple slots).text.toList = '(' :: (cs ++ [')']) := by
  match slots with
  | [] => exact ⟨[], rfl⟩
  | [slot] => exact ⟨slot.text.toList ++ [','], by simp [text]⟩
  | slot :: next :: slots =>
    exact ⟨slot.text.toList ++ (textAfter (next :: slots)).toList, by simp [text]⟩

/-- The text of a type has no white space at its ends, if its names are words. -/
theorem WordNamed.isTight {t : TargetType} (ht : t.WordNamed) : IsTight t.text.toList := by
  cases ht with
  | named hword =>
    exact .of_forall fun c hc =>
      isBlank_of_continuesIdentifier (continuesIdentifier_of_mem hword c hc)
  | @array element length =>
    rw [toList_text_brackets]
    exact isTight_enclosed (by decide) (by decide) _
  | @tuple slots =>
    obtain ⟨cs, hcs⟩ := exists_text_tuple slots
    rw [hcs]
    exact isTight_enclosed (by decide) (by decide) cs

end TargetType

namespace Width

theorem splitLast_eq_none {c : Char} {cs : List Char} (h : c ∉ cs) : splitLast c cs = none := by
  induction cs with
  | nil => rfl
  | cons d cs ih =>
    have hne : d ≠ c := fun heq => h (heq ▸ List.mem_cons_self)
    rw [splitLast, ih fun hc => h (List.mem_cons_of_mem d hc)]
    exact if_neg hne

theorem splitLast_append {c : Char} (before : List Char) {behind : List Char} (h : c ∉ behind) :
    splitLast c (before ++ c :: behind) = some (before, behind) := by
  induction before with
  | nil =>
    rw [List.nil_append, splitLast, splitLast_eq_none h]
    exact if_pos rfl
  | cons d before ih => rw [List.cons_append, splitLast, ih]

theorem unbracketed_eq (cs : List Char) : unbracketed ('[' :: (cs ++ [']'])) = some cs := by
  simp [unbracketed]

/-- An array with a length of 32 bits at most is taken apart into its element and its length, and
one with a greater length is not. -/
theorem arrayParts_eq {element : List Char} (h : IsTight element) (n : Nat) :
    arrayParts ('[' :: (element ++ ';' :: ' ' :: Text.decimalDigits n ++ [']'])) =
      if n < 2 ^ 32 then some (element, n) else none := by
  have hsemicolon : ';' ∉ ' ' :: Text.decimalDigits n := by
    intro hmem
    rcases List.mem_cons.mp hmem with heq | hmem
    · exact absurd heq (by decide)
    · exact absurd (Text.isDigit_of_mem_decimalDigits hmem) (by decide)
  have hcount : Text.trimBlank (' ' :: Text.decimalDigits n) = Text.decimalDigits n := by
    rw [Text.trimBlank, List.dropWhile_cons_of_pos (by decide)]
    exact (isTight_decimalDigits n).trimBlank_eq
  have hread : Text.readBelow? (most + 1) 10 (Text.decimalDigits n) =
      if n < 2 ^ 32 then some n else none :=
    Text.readBelow?_decimalDigits (2 ^ 32) n
  rw [arrayParts, unbracketed_eq]
  dsimp only
  rw [splitLast_append element hsemicolon]
  dsimp only
  rw [hcount, hread, h.trimBlank_eq]
  by_cases hn : n < 2 ^ 32
  · simp only [if_pos hn]
  · simp only [if_neg hn]

/-- No word with a width begins with a bracket. -/
theorem lookup_words_bracket (cs : List Char) :
    words.lookup (String.ofList ('[' :: cs)) = none := by
  have hall : ∀ entry ∈ words, entry.1.toList.head? ≠ some '[' := by decide
  refine List.lookup_eq_none_iff.mpr fun entry hentry => ?_
  rw [bne_iff_ne]
  intro heq
  refine hall entry hentry ?_
  rw [← heq, String.toList_ofList]
  rfl

theorem ofChars_array {element : List Char} (h : IsTight element) (n : Nat) :
    ofChars ('[' :: (element ++ ';' :: ' ' :: Text.decimalDigits n ++ [']'])) =
      if n < 2 ^ 32 then min (n * ofChars element) (2 ^ 32 - 1) else 0 := by
  rw [ofChars, lookup_words_bracket]
  dsimp only
  split
  · rename_i found count hparts
    rw [arrayParts_eq h] at hparts
    obtain ⟨hn, heq⟩ := Option.ite_none_right_eq_some.mp hparts
    obtain ⟨rfl, rfl⟩ := Prod.mk.inj (Option.some.inj heq)
    rw [if_pos hn, Nat.mul_comm]
    rfl
  · rename_i hparts
    rw [arrayParts_eq h] at hparts
    by_cases hn : n < 2 ^ 32
    · rw [if_pos hn] at hparts
      cases hparts
    · rw [if_neg hn]

theorem ofChars_le (cs : List Char) : ofChars cs ≤ 2 ^ 32 - 1 := by
  have hwords : ∀ entry ∈ words, entry.2 ≤ 2 ^ 32 - 1 := by decide
  rw [ofChars]
  split
  · rename_i w hw
    exact hwords _ (mem_of_lookup hw)
  · split
    · exact min_le_right _ _
    · exact Nat.zero_le _

end Width

open TargetType in
/-- The width of an array of a length that is read. -/
theorem bitWidth_array {element : TargetType} (h : element.WordNamed) (n : Nat) :
    bitWidth (array element n).text =
      if n < 2 ^ 32 then min (n * bitWidth element.text) (2 ^ 32 - 1) else 0 := by
  rw [bitWidth, toList_text_brackets, Width.ofChars_array h.isTight]
  rfl

/-- Cutting off what is too large once more does not matter. -/
theorem min_mul_min (n w bound : Nat) : min (n * min w bound) bound = min (n * w) bound := by
  rcases Nat.eq_zero_or_pos n with rfl | hn
  · simp
  rcases le_total w bound with hw | hw
  · rw [min_eq_left hw]
  · rw [min_eq_right hw, min_eq_right (Nat.le_mul_of_pos_left bound hn),
      min_eq_right (hw.trans (Nat.le_mul_of_pos_left w hn))]

namespace TargetType

theorem ofType_array {l : Literal} {n : Nat} {element : TypeExpr} {target : TargetType}
    (hl : l.value? = some n) (h : ofType element = .ok target) :
    ofType (.array (.literal l) element) = .ok (.array target n) := by
  rw [ofType, h]
  dsimp only
  rw [lengthOf, hl]

theorem exists_of_ofType_array {length : Expr} {element : TypeExpr} {t : TargetType}
    (h : ofType (.array length element) = .ok t) :
    ∃ (l : Literal) (n : Nat) (target : TargetType), length = .literal l ∧ l.value? = some n ∧
      ofType element = .ok target ∧ t = .array target n := by
  obtain ⟨⟨raw, n, rfl, hn⟩, helement⟩ :=
    (TypeExpr.mappable_array_iff length element).mp (mappable_of_ofType_eq_ok h)
  obtain ⟨target, htarget⟩ := (ofType_ok_iff element).mpr helement
  rw [ofType_array hn htarget] at h
  exact ⟨_, n, target, rfl, hn, htarget, (Except.ok.inj h).symm⟩

/-- Arrays of arrays of a type, the first length on the outside. -/
def nested : List Nat → TargetType → TargetType
  | [], t => t
  | n :: ns, t => .array (nested ns t) n

theorem WordNamed.nested {t : TargetType} (h : t.WordNamed) (ns : List Nat) :
    (TargetType.nested ns t).WordNamed := by
  induction ns with
  | nil => exact h
  | cons n ns ih => exact .array ih

/-- Lengths that are read multiply, and one that is not read leaves no width. -/
theorem bitWidth_nested {t : TargetType} (h : t.WordNamed) (ns : List Nat) :
    bitWidth (nested ns t).text =
      if ∀ n ∈ ns, n < 2 ^ 32 then min (ns.prod * bitWidth t.text) (2 ^ 32 - 1) else 0 := by
  induction ns with
  | nil =>
    have hwidth : bitWidth t.text ≤ 2 ^ 32 - 1 := Width.ofChars_le t.text.toList
    simpa [nested] using hwidth
  | cons n ns ih =>
    rw [nested, bitWidth_array (h.nested ns), ih, List.prod_cons]
    simp only [List.forall_mem_cons]
    by_cases hn : n < 2 ^ 32
    · by_cases hns : ∀ m ∈ ns, m < 2 ^ 32
      · rw [if_pos hn, if_pos hns, if_pos ⟨hn, hns⟩, min_mul_min, Nat.mul_assoc]
      · rw [if_pos hn, if_neg hns, if_neg fun hall => hns hall.2, Nat.mul_zero, Nat.zero_min]
    · rw [if_neg hn, if_neg fun hall => hn hall.1]

/-- Only a length that is not read makes the width of nested arrays another one than the product,
and only if the product is not zero. -/
theorem bitWidth_nested_eq_iff {t : TargetType} (h : t.WordNamed) (ns : List Nat) :
    bitWidth (nested ns t).text = min (ns.prod * bitWidth t.text) (2 ^ 32 - 1) ↔
      (∀ n ∈ ns, n < 2 ^ 32) ∨ ns.prod * bitWidth t.text = 0 := by
  rw [bitWidth_nested h]
  by_cases hns : ∀ n ∈ ns, n < 2 ^ 32
  · rw [if_pos hns]
    exact iff_of_true rfl (.inl hns)
  · rw [if_neg hns, or_iff_right hns]
    omega

end TargetType

/-- Arrays of arrays of a type, the first length on the outside. -/
def TypeExpr.nested : List Literal → TypeExpr → TypeExpr
  | [], t => t
  | l :: lengths, t => .array (.literal l) (nested lengths t)

/-- Integers with the numbers that they stand for. -/
abbrev HaveValues (lengths : List Literal) (ns : List Nat) : Prop :=
  List.Forall₂ (fun l n => Literal.value? l = some n) lengths ns

theorem TargetType.ofType_nested {lengths : List Literal} {ns : List Nat} {type : TypeExpr}
    {t : TargetType} (hvalues : HaveValues lengths ns) (h : ofType type = .ok t) :
    ofType (type.nested lengths) = .ok (nested ns t) := by
  induction hvalues with
  | nil => exact h
  | cons hl _ ih => exact ofType_array hl ih

/-- The width of an array is its length times the width of its element, as far as there is such a
width, unless the length is larger than all widths: then there is no width. So for nested arrays the
lengths multiply exactly if none of them is that large, or if there is nothing in the arrays. -/
theorem arrayWidth_eq_iff {type : TypeExpr} {text : String}
    (hnames : ∀ name, type.Reaches (.named name) → isWordText name.toList)
    (htext : typeText type = .ok text) :
    (∀ (l : Literal) (n : Nat), l.value? = some n →
      ∃ array, typeText (.array (.literal l) type) = .ok array ∧
        (bitWidth array = min (n * bitWidth text) (2 ^ 32 - 1) ↔
          n < 2 ^ 32 ∨ bitWidth text = 0) ∧
        (2 ^ 32 ≤ n → bitWidth array = 0)) ∧
      ∀ (lengths : List Literal) (ns : List Nat), HaveValues lengths ns →
        ∃ arrays, typeText (type.nested lengths) = .ok arrays ∧
          (bitWidth arrays = min (ns.prod * bitWidth text) (2 ^ 32 - 1) ↔
            (∀ n ∈ ns, n < 2 ^ 32) ∨ ns.prod * bitWidth text = 0) ∧
          ((∃ n ∈ ns, 2 ^ 32 ≤ n) → bitWidth arrays = 0) := by
  obtain ⟨t, ht, rfl⟩ := typeText_eq_ok_iff.mp htext
  have hword : t.WordNamed := TargetType.wordNamed_of_ofType hnames ht
  constructor
  · intro l n hl
    refine ⟨_, typeText_eq_ok_iff.mpr ⟨_, TargetType.ofType_array hl ht, rfl⟩, ?_, ?_⟩
    · rw [bitWidth_array hword]
      by_cases hn : n < 2 ^ 32
      · rw [if_pos hn]
        exact iff_of_true rfl (.inl hn)
      · have hpos : n ≠ 0 := by omega
        rw [if_neg hn, or_iff_right hn, eq_comm, Nat.min_eq_zero_iff, Nat.mul_eq_zero]
        simp [hpos]
    · intro hn
      rw [bitWidth_array hword, if_neg (Nat.not_lt.mpr hn)]
  · intro lengths ns hvalues
    refine ⟨_, typeText_eq_ok_iff.mpr ⟨_, TargetType.ofType_nested hvalues ht, rfl⟩,
      TargetType.bitWidth_nested_eq_iff hword ns, ?_⟩
    rintro ⟨n, hn, hlarge⟩
    rw [TargetType.bitWidth_nested hword, if_neg fun hall => Nat.not_lt.mpr hlarge (hall n hn)]

/-- Three arrays with a length each that is larger than all widths. -/
theorem arrayWidth_eq_iff_words :
    (∀ name, (TypeExpr.named "uint16").Reaches (.named name) → isWordText name.toList) ∧
      typeText (.named "uint16") = .ok "u16" ∧
      HaveValues [⟨.int, "03"⟩, ⟨.int, "0x1_0000_0000"⟩] [3, 4294967296] ∧
      ∃ arrays, typeText ((TypeExpr.named "uint16").nested
          [⟨.int, "03"⟩, ⟨.int, "0x1_0000_0000"⟩]) = .ok arrays ∧
        (bitWidth arrays = min ([3, 4294967296].prod * bitWidth "u16") (2 ^ 32 - 1) ↔
          (∀ n ∈ [3, 4294967296], n < 2 ^ 32) ∨ [3, 4294967296].prod * bitWidth "u16" = 0) ∧
        ((∃ n ∈ [3, 4294967296], 2 ^ 32 ≤ n) → bitWidth arrays = 0) := by
  have hnames : ∀ name, (TypeExpr.named "uint16").Reaches (.named name) →
      isWordText name.toList := by
    intro name hname
    cases hname
    decide
  have hvalues : HaveValues [⟨.int, "03"⟩, ⟨.int, "0x1_0000_0000"⟩] [3, 4294967296] :=
    .cons (by decide) (.cons (by decide) .nil)
  exact ⟨hnames, rfl, hvalues, (arrayWidth_eq_iff hnames rfl).2 _ _ hvalues⟩

/-- The first length that is not read. -/
theorem longArray_without_width :
    (⟨.int, "4294967296"⟩ : Literal).value? = some 4294967296 ∧
      typeText (.named "uint8") = .ok "u8" ∧
      typeText (.array (.literal ⟨.int, "4294967296"⟩) (.named "uint8"))
        = .ok "[u8; 4294967296]" ∧
      bitWidth "[u8; 4294967296]" = 0 ∧
      min (4294967296 * bitWidth "u8") (2 ^ 32 - 1) = 4294967295 := by
  have hwidths : bitWidth "[u8; 4294967296]" = 0 ∧ bitWidth "u8" = 8 := by decide +kernel
  refine ⟨by decide, rfl, by decide, hwidths.1, ?_⟩
  rw [hwidths.2]
  decide

end BoundedGo
