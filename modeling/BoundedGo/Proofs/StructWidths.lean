import BoundedGo.Proofs.ArrayWidths
import Mathlib.Algebra.Order.BigOperators.Group.List

/-!
Widths of structs. A type made of built-in names, arrays and structs has an exact number of bits: an
array has those of its element as often as its length says, and a struct those of all its slots, one
for each name and one for an embedded field. The text of a name or of arrays around a name has this
width, as long as the number fits. But the text of a tuple is not taken apart, so that a struct has
no width, whatever its slots are.
Main statement: the width of a struct is the sum over its slots exactly if no slot has any bits
(`structWidth_eq_bits_iff`).
-/
namespace BoundedGo

namespace TypeExpr

/-- The bits of the names with a target type of their own. -/
def nameBits : List (String × Nat) :=
  [("bool", 1), ("byte", 8), ("uint8", 8), ("uint16", 16), ("uint32", 32), ("uint64", 64),
   ("Hash", 256), ("Address", 256), ("Pubkey", 256), ("Signature", 512)]

/-- The length of an array, if it is an integer. -/
def lengthValue : Expr → Nat
  | .literal l => l.value?.getD 0
  | _ => 0

mutual

/-- The exact number of bits of a type. -/
def bits : TypeExpr → Nat
  | .named name => (nameBits.lookup name).getD 0
  | .array length element => lengthValue length * bits element
  | .struct fields => slotBits fields
  | _ => 0

/-- The bits of all slots, one for each name and one for an embedded field. -/
def slotBits : List Field → Nat
  | [] => 0
  | ⟨names, type⟩ :: fields => max 1 names.length * bits type + slotBits fields

end

theorem slotBits_eq_sum (fields : List Field) :
    slotBits fields = (fields.map fun f => max 1 f.names.length * f.type.bits).sum := by
  induction fields with
  | nil => rfl
  | cons f fields ih =>
    obtain ⟨names, type⟩ := f
    rw [List.map_cons, List.sum_cons, ← ih]
    rfl

theorem lengthValue_literal {l : Literal} {n : Nat} (hl : l.value? = some n) :
    lengthValue (.literal l) = n := by
  rw [lengthValue, hl, Option.getD_some]

theorem bits_named (name : String) : (named name).bits = (nameBits.lookup name).getD 0 := rfl

theorem bits_array {l : Literal} {n : Nat} (hl : l.value? = some n) (element : TypeExpr) :
    (array (.literal l) element).bits = n * element.bits := by
  rw [← lengthValue_literal hl]
  rfl

theorem bits_struct (fields : List Field) :
    (struct fields).bits = (fields.map fun f => max 1 f.names.length * f.type.bits).sum :=
  slotBits_eq_sum fields

/-- The types made of built-in names, arrays and structs. -/
inductive IsBuiltIn : TypeExpr → Prop
  | named {name : String} (h : name ∈ supportedNames) : IsBuiltIn (.named name)
  | array (length : Expr) {element : TypeExpr} (h : IsBuiltIn element) :
    IsBuiltIn (.array length element)
  | struct {fields : List Field} (h : ∀ f ∈ fields, IsBuiltIn f.type) : IsBuiltIn (.struct fields)

/-- Names and arrays around them. -/
def isFlat : TypeExpr → Bool
  | .named _ => true
  | .array _ element => element.isFlat
  | _ => false

/-- The types without any bits, whatever names occur in them. -/
inductive IsVoid : TypeExpr → Prop
  | length {l : Literal} (element : TypeExpr) (h : l.value? = some 0) :
    IsVoid (.array (.literal l) element)
  | element (length : Expr) {element : TypeExpr} (h : IsVoid element) :
    IsVoid (.array length element)
  | struct {fields : List Field} (h : ∀ f ∈ fields, IsVoid f.type) : IsVoid (.struct fields)

/-- Built-in names are words. -/
theorem IsBuiltIn.isWordText {type : TypeExpr} (h : type.IsBuiltIn) {name : String}
    (hname : type.Reaches (.named name)) : isWordText name.toList := by
  have hall : ∀ name ∈ supportedNames, BoundedGo.isWordText name.toList := by decide
  generalize hpart : TypeExpr.named name = part at hname
  induction hname with
  | self t =>
    subst hpart
    cases h with
    | named h => exact hall name h
  | element _ ih =>
    cases h with
    | array _ h => exact ih h hpart
  | field hf _ ih =>
    cases h with
    | struct h => exact ih (h _ hf) hpart

theorem bits_named_pos {name : String} (h : name ∈ supportedNames) : 0 < (named name).bits := by
  have hall : ∀ name ∈ supportedNames, 0 < (nameBits.lookup name).getD 0 := by decide
  rw [bits_named]
  exact hall name h

/-- A type has no bits exactly if it is empty for its form. -/
theorem IsBuiltIn.bits_eq_zero_iff {type : TypeExpr} (h : type.IsBuiltIn) (hmap : type.Mappable) :
    type.bits = 0 ↔ type.IsVoid := by
  induction h with
  | named hname =>
    have hpos := bits_named_pos hname
    constructor
    · intro hzero
      omega
    · intro hvoid
      cases hvoid
  | @array length element _ ih =>
    obtain ⟨⟨raw, n, rfl, hn⟩, helement⟩ := (mappable_array_iff length element).mp hmap
    rw [bits_array hn, Nat.mul_eq_zero, ih helement]
    constructor
    · rintro (rfl | hvoid)
      · exact .length element hn
      · exact .element _ hvoid
    · intro hvoid
      cases hvoid with
      | length _ hzero => exact .inl (Option.some.inj (hn.symm.trans hzero))
      | element _ hvoid => exact .inr hvoid
  | @struct fields _ ih =>
    have hfields := (mappable_struct_iff fields).mp hmap
    have hslots : ∀ f ∈ fields, max 1 f.names.length * f.type.bits = 0 ↔ f.type.IsVoid := by
      intro f hf
      rw [Nat.mul_eq_zero, ih f hf (hfields f hf)]
      exact or_iff_right (by omega)
    rw [bits_struct, List.sum_eq_zero_iff_forall_eq_nat, List.forall_mem_map]
    constructor
    · intro hzero
      exact .struct fun f hf => (hslots f hf).mp (hzero f hf)
    · intro hvoid f hf
      cases hvoid with
      | struct hvoid => exact (hslots f hf).mpr (hvoid f hf)

/-- A slot has no more bits than its struct. -/
theorem bits_le_of_mem {fields : List Field} {f : Field} (hf : f ∈ fields) :
    f.type.bits ≤ (struct fields).bits := by
  have hslot : f.type.bits ≤ max 1 f.names.length * f.type.bits :=
    Nat.le_mul_of_pos_left _ (by omega)
  rw [bits_struct]
  exact hslot.trans (List.single_le_sum (fun _ _ => Nat.zero_le _) _ (List.mem_map_of_mem hf))

end TypeExpr

namespace Width

/-- What begins with a parenthesis is no array, and nothing but the text of the empty tuple has a
width of its own. -/
theorem ofChars_paren (cs : List Char) : ofChars ('(' :: cs) = 0 := by
  have hall : ∀ entry ∈ words, entry.1.toList.head? = some '(' → entry.2 = 0 := by decide
  rw [ofChars]
  split
  · rename_i w hw
    refine hall _ (mem_of_lookup hw) ?_
    rw [String.toList_ofList]
    rfl
  · split
    · rename_i hparts
      cases hparts
    · rfl

end Width

/-- The width of a word that has one. -/
theorem bitWidth_word {word : String} {w : Nat} (h : Width.words.lookup word = some w) :
    bitWidth word = w := by
  rw [bitWidth, Width.ofChars, String.ofList_toList, h]

namespace TargetType

theorem bitWidth_tuple (slots : List TargetType) : bitWidth (tuple slots).text = 0 := by
  obtain ⟨cs, hcs⟩ := exists_text_tuple slots
  rw [bitWidth, hcs]
  exact Width.ofChars_paren _

theorem bitWidth_signature : bitWidth signature.text = 512 := by
  have hbyte : bitWidth (named "u8").text = 8 := bitWidth_word (by decide)
  rw [signature, bitWidth_array (.named (by decide)), hbyte]
  decide

theorem bitWidth_ofName {name : String} (h : name ∈ supportedNames) :
    bitWidth (ofName name).text = (TypeExpr.named name).bits := by
  -- a signature is an array, and all other names stand for words
  have hall : ∀ name ∈ supportedNames, name = "Signature" ∨
      Width.words.lookup (ofName name).text = some (TypeExpr.named name).bits := by
    decide
  rcases hall name h with rfl | hword
  · exact bitWidth_signature
  · exact bitWidth_word hword

/-- The width of a name and of arrays around a name is the exact number of bits. A struct, and
arrays around a struct, have none. -/
theorem bitWidth_eq_bits {type : TypeExpr} {t : TargetType} (h : type.IsBuiltIn)
    (ht : ofType type = .ok t) (hbits : type.bits < 2 ^ 32) :
    bitWidth t.text = if type.isFlat then type.bits else 0 := by
  induction h generalizing t with
  | named hname =>
    obtain rfl := Except.ok.inj ht
    exact bitWidth_ofName hname
  | @array length element h ih =>
    obtain ⟨l, n, target, rfl, hl, htarget, rfl⟩ := exists_of_ofType_array ht
    have hword : target.WordNamed :=
      wordNamed_of_ofType (fun _ hname => h.isWordText hname) htarget
    rw [TypeExpr.bits_array hl] at hbits ⊢
    rw [bitWidth_array hword, TypeExpr.isFlat]
    by_cases hn : n = 0
    · simp [hn]
    have helement : element.bits ≤ n * element.bits :=
      Nat.le_mul_of_pos_left _ (Nat.pos_of_ne_zero hn)
    rw [ih htarget (by omega)]
    by_cases hflat : element.isFlat
    · rw [if_pos hflat, if_pos hflat]
      by_cases hlong : n < 2 ^ 32
      · rw [if_pos hlong, Nat.min_eq_left (by omega)]
      · -- so long an array is below the bound only if its element is empty
        have hempty : element.bits = 0 := by
          by_contra hne
          have hlength : n ≤ n * element.bits :=
            Nat.le_mul_of_pos_right _ (Nat.pos_of_ne_zero hne)
          omega
        rw [if_neg hlong, hempty, Nat.mul_zero]
    · rw [if_neg hflat, if_neg hflat, Nat.mul_zero, Nat.zero_min, ite_self]
  | @struct fields _ _ =>
    rw [ofType] at ht
    split at ht
    · cases ht
    · obtain rfl := Except.ok.inj ht
      exact bitWidth_tuple _

end TargetType

open TypeExpr in
/-- A struct of built-in names, arrays and structs has no width, although each slot that is a name
or arrays around a name has its own. So its width is the sum of the bits of its slots, one for each
name and one for an embedded field, exactly if no slot has any bits. -/
theorem structWidth_eq_bits_iff {fields : List Field} {text : String}
    (hbuiltIn : (struct fields).IsBuiltIn) (htext : typeText (.struct fields) = .ok text)
    (hbits : (struct fields).bits < 2 ^ 32) :
    (struct fields).bits = (fields.map fun f => max 1 f.names.length * f.type.bits).sum ∧
      bitWidth text = 0 ∧
      (bitWidth text = (struct fields).bits ↔ ∀ f ∈ fields, f.type.IsVoid) ∧
      ∀ f ∈ fields, ∃ slot, typeText f.type = .ok slot ∧
        bitWidth slot = if f.type.isFlat then f.type.bits else 0 := by
  obtain ⟨t, ht, rfl⟩ := typeText_eq_ok_iff.mp htext
  have hmap : (struct fields).Mappable := TargetType.mappable_of_ofType_eq_ok ht
  have hwidth : bitWidth t.text = 0 := TargetType.bitWidth_eq_bits hbuiltIn ht hbits
  refine ⟨bits_struct fields, hwidth, ?_, ?_⟩
  · rw [hwidth, eq_comm, hbuiltIn.bits_eq_zero_iff hmap]
    constructor
    · intro hvoid
      cases hvoid with
      | struct hvoid => exact hvoid
    · exact .struct
  · intro f hf
    obtain ⟨slot, hslot⟩ := (TargetType.ofType_ok_iff f.type).mpr
      ((mappable_struct_iff fields).mp hmap f hf)
    have hslotBuiltIn : f.type.IsBuiltIn := by
      cases hbuiltIn with
      | struct h => exact h f hf
    exact ⟨_, typeText_eq_ok_iff.mpr ⟨slot, hslot, rfl⟩,
      TargetType.bitWidth_eq_bits hslotBuiltIn hslot ((bits_le_of_mem hf).trans_lt hbits)⟩

/-- Two names in one group and an embedded field. -/
def portFields : List Field :=
  [⟨["low", "high"], .named "uint8"⟩, ⟨[], .named "bool"⟩]

theorem structWidth_eq_bits_iff_portFields :
    (TypeExpr.struct portFields).IsBuiltIn ∧
      typeText (.struct portFields) = .ok "(u8, u8, bool)" ∧
      (TypeExpr.struct portFields).bits = 17 ∧
      (bitWidth "(u8, u8, bool)" = 17 ↔ ∀ f ∈ portFields, f.type.IsVoid) := by
  have hbuiltIn : (TypeExpr.struct portFields).IsBuiltIn := by
    refine .struct (List.forall_mem_cons.mpr ⟨.named (by decide), ?_⟩)
    exact List.forall_mem_cons.mpr ⟨.named (by decide), List.forall_mem_nil _⟩
  have htext : typeText (.struct portFields) = .ok "(u8, u8, bool)" := by decide
  have hbits : (TypeExpr.struct portFields).bits = 17 := by decide
  have hwidth := (structWidth_eq_bits_iff hbuiltIn htext (by rw [hbits]; decide)).2.2.1
  rw [hbits] at hwidth
  exact ⟨hbuiltIn, htext, hbits, hwidth⟩

/-- Three slots with a width each, and a struct without. -/
theorem portFields_without_width :
    typeText (.struct portFields) = .ok "(u8, u8, bool)" ∧
      typeText (.named "uint8") = .ok "u8" ∧ typeText (.named "bool") = .ok "bool" ∧
      (TypeExpr.struct portFields).bits = 2 * bitWidth "u8" + bitWidth "bool" ∧
      (TypeExpr.struct portFields).bits = 17 ∧ bitWidth "(u8, u8, bool)" = 0 := by
  have hbits : (TypeExpr.struct portFields).bits = 17 := by decide
  have hbyte : bitWidth "u8" = 8 := bitWidth_word (by decide)
  have hbool : bitWidth "bool" = 1 := bitWidth_word (by decide)
  have hwidth : bitWidth "(u8, u8, bool)" = 0 :=
    TargetType.bitWidth_tuple [.named "u8", .named "u8", .named "bool"]
  refine ⟨by decide, rfl, rfl, ?_, hbits, hwidth⟩
  rw [hbits, hbyte, hbool]

end BoundedGo
