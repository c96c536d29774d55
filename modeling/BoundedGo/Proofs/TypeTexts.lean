import BoundedGo.Proofs.Lexemes
import BoundedGo.Proofs.Mappable
import BoundedGo.Proofs.Records

/-!
The texts of target types. In the text of a type whose names are words, brackets and parentheses
enclose its parts, and what is behind a part is no letter and no digit. So a text that begins with
the text of a type tells both the type and the place where its text ends.
Main statement: two texts that begin with the texts of types are the same only if these types are
the same and so is what stands behind them (`TargetType.text_append_injective`).
-/
namespace BoundedGo

/-- Text that does not go on with a word. -/
def EndsWord (rest : List Char) : Prop :=
  ∀ c ∈ rest.head?, Scan.continuesIdentifier c = false

theorem endsWord_cons {c : Char} {rest : List Char} (h : Scan.continuesIdentifier c = false) :
    EndsWord (c :: rest) := by
  intro d hd
  obtain rfl := Option.some.inj hd
  exact h

/-- Words end in front of what is no part of a word. -/
theorem isWordText_append_injective {w v r s : List Char} (hw : isWordText w) (hv : isWordText v)
    (hr : EndsWord r) (hs : EndsWord s) (h : w ++ r = v ++ s) : w = v ∧ r = s :=
  append_inj_of_head (continuesIdentifier_of_mem hw) (continuesIdentifier_of_mem hv) hr hs h

/-- A number ends in front of what is no digit. -/
theorem decimalDigits_append_injective {m n : Nat} {r s : List Char}
    (hr : ∀ c ∈ r.head?, c.isDigit = false) (hs : ∀ c ∈ s.head?, c.isDigit = false)
    (h : Text.decimalDigits m ++ r = Text.decimalDigits n ++ s) : m = n ∧ r = s := by
  obtain ⟨hdigits, hrest⟩ := append_inj_of_head (p := Char.isDigit)
    (fun _ => Text.isDigit_of_mem_decimalDigits) (fun _ => Text.isDigit_of_mem_decimalDigits)
    hr hs h
  exact ⟨Text.decimalDigits_injective hdigits, hrest⟩

namespace TargetType

/-- The types whose names are words. -/
inductive WordNamed : TargetType → Prop
  | named {word : String} (hword : isWordText word.toList) : WordNamed (.named word)
  | array {element : TargetType} {length : Nat} (helement : WordNamed element) :
    WordNamed (.array element length)
  | tuple {slots : List TargetType} (hslots : ∀ slot ∈ slots, WordNamed slot) :
    WordNamed (.tuple slots)

theorem toList_text_array (element : TargetType) (length : Nat) (rest : List Char) :
    (array element length).text.toList ++ rest =
      '[' :: (element.text.toList ++ ';' :: ' ' :: (Text.decimalDigits length ++ ']' :: rest)) := by
  simp [text, Text.decimal]

theorem toList_text_unit (rest : List Char) :
    (tuple []).text.toList ++ rest = '(' :: ')' :: rest := by
  simp [text]

theorem toList_textAfter_cons (slot : TargetType) (slots : List TargetType) (rest : List Char) :
    (textAfter (slot :: slots)).toList ++ rest =
      ',' :: ' ' :: (slot.text.toList ++ ((textAfter slots).toList ++ rest)) := by
  simp [textAfter]

/-- What stands behind the first slot of a tuple and what follows the tuple. -/
def behindFirst : List TargetType → List Char → List Char
  | [], rest => ',' :: ')' :: rest
  | next :: slots, rest => (textAfter (next :: slots)).toList ++ ')' :: rest

theorem toList_text_tuple (slot : TargetType) (slots : List TargetType) (rest : List Char) :
    (tuple (slot :: slots)).text.toList ++ rest =
      '(' :: (slot.text.toList ++ behindFirst slots rest) := by
  cases slots with
  | nil => simp [text, behindFirst]
  | cons next slots => simp [text, behindFirst]

/-- The comma behind a single slot is not the one in front of a second slot. -/
theorem textAfter_eq_of_behindFirst_eq {slots others : List TargetType} {r s : List Char}
    (h : behindFirst slots r = behindFirst others s) :
    (textAfter slots).toList ++ ')' :: r = (textAfter others).toList ++ ')' :: s := by
  cases slots with
  | nil =>
    cases others with
    | nil => exact (List.cons.inj h).2
    | cons other others =>
      rw [behindFirst, behindFirst, toList_textAfter_cons] at h
      exact absurd (List.cons.inj (List.cons.inj h).2).1 (by decide)
  | cons slot slots =>
    cases others with
    | nil =>
      rw [behindFirst, behindFirst, toList_textAfter_cons] at h
      exact absurd (List.cons.inj (List.cons.inj h).2).1 (by decide)
    | cons other others => exact h

/-- The bracket or parenthesis that the text of a type begins with, if it is no name. -/
def initial : TargetType → Option Char
  | .named _ => none
  | .array .. => some '['
  | .tuple _ => some '('

theorem WordNamed.exists_cons {t : TargetType} (ht : t.WordNamed) (rest : List Char) :
    ∃ c cs, t.text.toList ++ rest = c :: cs ∧
      t.initial = if Scan.startsIdentifier c then none else some c := by
  cases ht with
  | @named word hword =>
    cases htext : word.toList with
    | nil =>
      rw [htext] at hword
      cases hword
    | cons c cs =>
      rw [htext] at hword
      have hc := (Bool.and_eq_true_iff.mp hword).1
      exact ⟨c, cs ++ rest, congrArg (· ++ rest) htext, by rw [if_pos hc]; rfl⟩
  | array => exact ⟨_, _, toList_text_array _ _ rest, rfl⟩
  | @tuple slots =>
    cases slots with
    | nil => exact ⟨_, _, toList_text_unit rest, rfl⟩
    | cons slot slots => exact ⟨_, _, toList_text_tuple slot slots rest, rfl⟩

/-- The first character of a text tells what kind of type it begins with. -/
theorem initial_eq_of_text_append {t u : TargetType} (ht : t.WordNamed) (hu : u.WordNamed)
    {r s : List Char} (h : t.text.toList ++ r = u.text.toList ++ s) : t.initial = u.initial := by
  obtain ⟨c, cs, hc, htinitial⟩ := ht.exists_cons r
  obtain ⟨d, ds, hd, huinitial⟩ := hu.exists_cons s
  rw [hc, hd] at h
  obtain ⟨rfl, -⟩ := List.cons.inj h
  rw [htinitial, huinitial]

/-- No type begins with a closing parenthesis. -/
theorem WordNamed.text_append_ne {t : TargetType} (ht : t.WordNamed) (rest cs : List Char) :
    t.text.toList ++ rest ≠ ')' :: cs := by
  intro h
  obtain ⟨c, cs', hc, hinitial⟩ := ht.exists_cons rest
  rw [hc] at h
  obtain ⟨rfl, -⟩ := List.cons.inj h
  rw [if_neg (by decide)] at hinitial
  cases ht with
  | named => cases hinitial
  | array => exact absurd (Option.some.inj hinitial) (by decide)
  | tuple => exact absurd (Option.some.inj hinitial) (by decide)

theorem endsWord_textAfter (slots : List TargetType) (rest : List Char) :
    EndsWord ((textAfter slots).toList ++ ')' :: rest) := by
  cases slots with
  | nil => exact endsWord_cons (by decide)
  | cons slot slots =>
    rw [toList_textAfter_cons]
    exact endsWord_cons (by decide)

theorem endsWord_behindFirst (slots : List TargetType) (rest : List Char) :
    EndsWord (behindFirst slots rest) := by
  cases slots with
  | nil => exact endsWord_cons (by decide)
  | cons next slots => exact endsWord_textAfter (next :: slots) rest

mutual

/-- A text that begins with the text of a type tells the type and where its text ends. -/
theorem text_append_injective : ∀ {t u : TargetType}, t.WordNamed → u.WordNamed →
    ∀ {r s : List Char}, EndsWord r → EndsWord s → t.text.toList ++ r = u.text.toList ++ s →
    t = u ∧ r = s
  | .named word, .named other, .named hword, .named hother, r, s, hr, hs, h => by
    obtain ⟨hsame, hrest⟩ := isWordText_append_injective hword hother hr hs h
    exact ⟨congrArg named (String.toList_inj.mp hsame), hrest⟩
  | .array element length, .array other width, .array helement, .array hother, r, s, hr, hs, h => by
    rw [toList_text_array, toList_text_array] at h
    obtain ⟨rfl, hbehind⟩ := text_append_injective helement hother (endsWord_cons (by decide))
      (endsWord_cons (by decide)) (List.cons.inj h).2
    obtain ⟨rfl, hrest⟩ := decimalDigits_append_injective (by simp) (by simp)
      (List.cons.inj (List.cons.inj hbehind).2).2
    exact ⟨rfl, (List.cons.inj hrest).2⟩
  | .tuple [], .tuple [], _, _, r, s, _, _, h => by
    rw [toList_text_unit, toList_text_unit] at h
    exact ⟨rfl, (List.cons.inj (List.cons.inj h).2).2⟩
  | .tuple [], .tuple (other :: others), _, .tuple hothers, r, s, _, _, h => by
    rw [toList_text_unit, toList_text_tuple] at h
    exact absurd (List.cons.inj h).2.symm ((hothers other List.mem_cons_self).text_append_ne _ _)
  | .tuple (slot :: slots), .tuple [], .tuple hslots, _, r, s, _, _, h => by
    rw [toList_text_tuple, toList_text_unit] at h
    exact absurd (List.cons.inj h).2 ((hslots slot List.mem_cons_self).text_append_ne _ _)
  | .tuple (slot :: slots), .tuple (other :: others), .tuple hslots, .tuple hothers, r, s, _, _,
      h => by
    rw [toList_text_tuple, toList_text_tuple] at h
    obtain ⟨hslot, hslotsBehind⟩ := List.forall_mem_cons.mp hslots
    obtain ⟨hother, hothersBehind⟩ := List.forall_mem_cons.mp hothers
    obtain ⟨rfl, hbehind⟩ := text_append_injective hslot hother (endsWord_behindFirst _ _)
      (endsWord_behindFirst _ _) (List.cons.inj h).2
    obtain ⟨rfl, hrest⟩ := textAfter_append_injective hslotsBehind hothersBehind
      (textAfter_eq_of_behindFirst_eq hbehind)
    exact ⟨rfl, hrest⟩
  | .named _, .array .., ht, hu, _, _, _, _, h | .named _, .tuple _, ht, hu, _, _, _, _, h
  | .array .., .named _, ht, hu, _, _, _, _, h | .array .., .tuple _, ht, hu, _, _, _, _, h
  | .tuple _, .named _, ht, hu, _, _, _, _, h | .tuple _, .array .., ht, hu, _, _, _, _, h => by
    have hinitial := initial_eq_of_text_append ht hu h
    cases hinitial

theorem textAfter_append_injective : ∀ {slots others : List TargetType},
    (∀ slot ∈ slots, WordNamed slot) → (∀ other ∈ others, WordNamed other) →
    ∀ {r s : List Char},
      (textAfter slots).toList ++ ')' :: r = (textAfter others).toList ++ ')' :: s →
    slots = others ∧ r = s
  | [], [], _, _, r, s, h => ⟨rfl, by simpa [textAfter] using h⟩
  | [], other :: others, _, _, r, s, h => by
    rw [toList_textAfter_cons] at h
    exact absurd (List.cons.inj h).1 (by decide)
  | slot :: slots, [], _, _, r, s, h => by
    rw [toList_textAfter_cons] at h
    exact absurd (List.cons.inj h).1 (by decide)
  | slot :: slots, other :: others, hslots, hothers, r, s, h => by
    rw [toList_textAfter_cons, toList_textAfter_cons] at h
    obtain ⟨hslot, hslotsBehind⟩ := List.forall_mem_cons.mp hslots
    obtain ⟨hother, hothersBehind⟩ := List.forall_mem_cons.mp hothers
    obtain ⟨rfl, hbehind⟩ := text_append_injective hslot hother (endsWord_textAfter _ _)
      (endsWord_textAfter _ _) (List.cons.inj (List.cons.inj h).2).2
    obtain ⟨rfl, hrest⟩ := textAfter_append_injective hslotsBehind hothersBehind hbehind
    exact ⟨rfl, hrest⟩

end

theorem wordNamed_builtins : ∀ entry ∈ builtins ++ bitcoinTypes, entry.2.WordNamed := by
  have hsignature : signature.WordNamed := .array (.named (by decide))
  simp only [builtins, bitcoinTypes, List.cons_append, List.nil_append, List.forall_mem_cons,
    List.not_mem_nil, false_imp_iff, implies_true, and_true]
  and_intros
  all_goals first
    | exact hsignature
    | exact .named (by decide)

mutual

/-- Where the names that a type reaches are words, so are those of its target type. -/
theorem wordNamed_of_ofType : ∀ {type : TypeExpr} {t : TargetType},
    (∀ name, type.Reaches (.named name) → isWordText name.toList) → ofType type = .ok t →
    t.WordNamed
  | .named name, t, hnames, h => by
    obtain rfl := Except.ok.inj h
    unfold ofName
    split
    · rename_i t ht
      exact wordNamed_builtins _ (List.mem_append_left _ (mem_of_lookup ht))
    · exact .named (hnames name (.self _))
  | .qualified package name, t, _, h => by
    simp only [ofType, ofQualified] at h
    split at h
    · split at h
      · rename_i ht
        obtain rfl := Except.ok.inj h
        exact wordNamed_builtins _ (List.mem_append_right _ (mem_of_lookup ht))
      · cases h
    · cases h
  | .array length element, t, hnames, h => by
    simp only [ofType] at h
    split at h
    · cases h
    · rename_i part hpart
      split at h
      · cases h
      · obtain rfl := Except.ok.inj h
        exact .array (wordNamed_of_ofType (fun name hname => hnames name (.element hname)) hpart)
  | .struct fields, t, hnames, h => by
    simp only [ofType] at h
    split at h
    · cases h
    · rename_i slots hslots
      obtain rfl := Except.ok.inj h
      exact .tuple (wordNamed_of_slotsOf (fun f hf name hname => hnames name (.field hf hname))
        hslots)
  | .slice _, _, _, h | .map .., _, _, h | .channel .., _, _, h | .interface _, _, _, h
  | .function _, _, _, h | .pointer _, _, _, h => by simp [ofType] at h

theorem wordNamed_of_slotsOf : ∀ {fields : List Field} {slots : List TargetType},
    (∀ f ∈ fields, ∀ name, f.type.Reaches (.named name) → isWordText name.toList) →
    slotsOf fields = .ok slots → ∀ slot ∈ slots, slot.WordNamed
  | [], slots, _, h => by
    obtain rfl := Except.ok.inj h
    exact nofun
  | ⟨names, type⟩ :: fields, slots, hnames, h => by
    obtain ⟨htype, hfields⟩ := List.forall_mem_cons.mp hnames
    simp only [slotsOf] at h
    split at h
    · cases h
    · rename_i part hpart
      split at h
      · cases h
      · rename_i rest hslots
        obtain rfl := Except.ok.inj h
        intro slot hslot
        rcases List.mem_append.mp hslot with hslot | hslot
        · rw [List.eq_of_mem_replicate hslot]
          exact wordNamed_of_ofType htype hpart
        · exact wordNamed_of_slotsOf hfields hslots slot hslot

end

end TargetType

theorem typeText_eq_ok_iff {type : TypeExpr} {text : String} :
    typeText type = .ok text ↔ ∃ t, TargetType.ofType type = .ok t ∧ t.text = text := by
  unfold typeText
  cases TargetType.ofType type with
  | error e => simp
  | ok t => simp

/-- A text that a type with identifiers for names has as its target type. -/
def IsTypeText (text : String) : Prop :=
  ∃ type : TypeExpr, (∀ name, type.Reaches (.named name) → isWordText name.toList) ∧
    typeText type = .ok text

namespace IsTypeText

variable {text other : String}

theorem exists_wordNamed (h : IsTypeText text) : ∃ t : TargetType, t.WordNamed ∧ t.text = text := by
  obtain ⟨type, hnames, htext⟩ := h
  obtain ⟨t, ht, rfl⟩ := typeText_eq_ok_iff.mp htext
  exact ⟨t, TargetType.wordNamed_of_ofType hnames ht, rfl⟩

end IsTypeText

end BoundedGo
