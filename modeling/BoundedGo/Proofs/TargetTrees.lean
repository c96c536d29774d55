import BoundedGo.Proofs.StructWidths

/-!
Trees of target types, read off a type part by part. A name with a meaning of its own, by itself or
in the package `bitcoin`, is replaced by what it stands for, and every other name stands for itself.
An array becomes the tree of its element with a number for its length, however that number is
written, and a struct becomes the list of its slots, whatever its fields are called.
Main statement: two types with identifiers for names have the same text exactly if they have the
same tree (`typeText_eq_iff`).
-/
namespace BoundedGo

namespace TypeExpr

/-- What a name stands for. -/
def nameTarget : String → TargetType
  | "bool" => .named "bool"
  | "byte" | "uint8" => .named "u8"
  | "uint16" => .named "u16"
  | "uint32" => .named "u32"
  | "uint64" => .named "u64"
  | "Hash" | "Address" | "Pubkey" => .named "u256"
  | "Signature" => .array (.named "u8") 64
  | name => .named name

/-- What a name of the package `bitcoin` stands for. All but amounts are the same as the names
without the package. -/
def bitcoinTarget : String → TargetType
  | "Amount" => .named "u64"
  | name => nameTarget name

mutual

/-- The tree of a type that has a target type. For all others it has no meaning. -/
def tree : TypeExpr → TargetType
  | .named name => nameTarget name
  | .qualified _ name => bitcoinTarget name
  | .array length element => .array element.tree (lengthValue length)
  | .struct fields => .tuple (slotTrees fields)
  | .slice _ | .map .. | .channel .. | .interface _ | .function _ | .pointer _ => .tuple []

/-- The trees of all slots, one for each name and one for an embedded field. -/
def slotTrees : List Field → List TargetType
  | [] => []
  | ⟨[], type⟩ :: fields => type.tree :: slotTrees fields
  | ⟨name :: names, type⟩ :: fields =>
    (name :: names).map (fun _ => type.tree) ++ slotTrees fields

end

theorem slotTrees_cons (names : List String) (type : TypeExpr) (fields : List Field) :
    slotTrees (⟨names, type⟩ :: fields) =
      List.replicate (max 1 names.length) type.tree ++ slotTrees fields := by
  cases names with
  | nil => rfl
  | cons name names =>
    have hpos : 0 < (name :: names).length := List.length_pos_iff.mpr (List.cons_ne_nil _ _)
    rw [slotTrees, List.map_const', Nat.max_eq_right hpos]

theorem nameTarget_builtins : ∀ entry ∈ TargetType.builtins, nameTarget entry.1 = entry.2 := by
  simp [TargetType.builtins, TargetType.signature, nameTarget]

theorem bitcoinTarget_bitcoinTypes :
    ∀ entry ∈ TargetType.bitcoinTypes, bitcoinTarget entry.1 = entry.2 := by
  simp [TargetType.bitcoinTypes, TargetType.signature, bitcoinTarget, nameTarget]

theorem nameTarget_of_lookup_eq_none {name : String} (h : TargetType.builtins.lookup name = none) :
    nameTarget name = .named name := by
  unfold nameTarget
  split
  all_goals first
    | rfl
    | cases h

theorem ofName_eq_nameTarget (name : String) : TargetType.ofName name = nameTarget name := by
  unfold TargetType.ofName
  split
  · rename_i t ht
    exact (nameTarget_builtins _ (mem_of_lookup ht)).symm
  · rename_i hnone
    exact (nameTarget_of_lookup_eq_none hnone).symm

theorem bitcoinTarget_of_ofQualified {package name : String} {t : TargetType}
    (h : TargetType.ofQualified package name = .ok t) : bitcoinTarget name = t := by
  unfold TargetType.ofQualified at h
  split at h
  · split at h
    · rename_i ht
      obtain rfl := Except.ok.inj h
      exact bitcoinTarget_bitcoinTypes _ (mem_of_lookup ht)
    · cases h
  · cases h

end TypeExpr

namespace TargetType

open TypeExpr

mutual

/-- The target type of a type is its tree. -/
theorem tree_of_ofType : ∀ {type : TypeExpr} {t : TargetType}, ofType type = .ok t →
    type.tree = t
  | .named name, t, h => by
    obtain rfl := Except.ok.inj h
    exact (ofName_eq_nameTarget name).symm
  | .qualified package name, t, h => bitcoinTarget_of_ofQualified h
  | .array length element, t, h => by
    obtain ⟨l, n, target, rfl, hl, htarget, rfl⟩ := exists_of_ofType_array h
    rw [tree, tree_of_ofType htarget, lengthValue_literal hl]
  | .struct fields, t, h => by
    rw [ofType] at h
    split at h
    · cases h
    · rename_i slots hslots
      obtain rfl := Except.ok.inj h
      rw [tree, slotTrees_of_slotsOf hslots]
  | .slice _, _, h | .map .., _, h | .channel .., _, h | .interface _, _, h
  | .function _, _, h | .pointer _, _, h => by cases h

theorem slotTrees_of_slotsOf : ∀ {fields : List Field} {slots : List TargetType},
    slotsOf fields = .ok slots → slotTrees fields = slots
  | [], slots, h => Except.ok.inj h
  | ⟨names, type⟩ :: fields, slots, h => by
    rw [slotsOf] at h
    split at h
    · cases h
    · rename_i part hpart
      split at h
      · cases h
      · rename_i rest hrest
        obtain rfl := Except.ok.inj h
        rw [slotTrees_cons, tree_of_ofType hpart, slotTrees_of_slotsOf hrest]

end

/-- The whole text of a type tells the type. -/
theorem WordNamed.text_injective {t u : TargetType} (ht : t.WordNamed) (hu : u.WordNamed)
    (h : t.text = u.text) : t = u := by
  have hend : EndsWord [] := by
    intro c hc
    cases hc
  have hsame : t.text.toList ++ [] = u.text.toList ++ [] := by rw [h]
  exact (text_append_injective ht hu hend hend hsame).1

end TargetType

/-- Two types with identifiers for names have the same text exactly if they have the same tree. -/
theorem typeText_eq_iff {type other : TypeExpr} {text otherText : String}
    (hnames : ∀ name, type.Reaches (.named name) → isWordText name.toList)
    (hotherNames : ∀ name, other.Reaches (.named name) → isWordText name.toList)
    (htext : typeText type = .ok text) (hotherText : typeText other = .ok otherText) :
    text = otherText ↔ type.tree = other.tree := by
  obtain ⟨t, ht, rfl⟩ := typeText_eq_ok_iff.mp htext
  obtain ⟨u, hu, rfl⟩ := typeText_eq_ok_iff.mp hotherText
  rw [TargetType.tree_of_ofType ht, TargetType.tree_of_ofType hu]
  constructor
  · intro hsame
    have htwords : t.WordNamed := TargetType.wordNamed_of_ofType hnames ht
    have huwords : u.WordNamed := TargetType.wordNamed_of_ofType hotherNames hu
    exact htwords.text_injective huwords hsame
  · intro hsame
    rw [hsame]

/-- Two signed bytes, with both bytes in one group. -/
def groupedPairs : TypeExpr :=
  .array (.literal ⟨.int, "2"⟩)
    (.struct [⟨["low", "high"], .named "byte"⟩, ⟨[], .named "Signature"⟩])

/-- The same slots, each with a field of its own, one of them of a type that is declared elsewhere
under a name of the target language. -/
def separatePairs : TypeExpr :=
  .array (.literal ⟨.int, "0b1_0"⟩)
    (.struct [⟨["first"], .named "uint8"⟩, ⟨[], .named "u8"⟩,
      ⟨["second"], .qualified "bitcoin" "Signature"⟩])

theorem typeText_eq_iff_pairs :
    (∀ name, groupedPairs.Reaches (.named name) → isWordText name.toList) ∧
      (∀ name, separatePairs.Reaches (.named name) → isWordText name.toList) ∧
      typeText groupedPairs = .ok "[(u8, u8, [u8; 64]); 2]" ∧
      typeText separatePairs = .ok "[(u8, u8, [u8; 64]); 2]" ∧
      groupedPairs.tree = separatePairs.tree := by
  have hgrouped : ∀ name, groupedPairs.Reaches (.named name) → isWordText name.toList := by
    intro name hname
    have hbuiltIn : groupedPairs.IsBuiltIn := by
      refine .array _ (.struct (List.forall_mem_cons.mpr ⟨.named (by decide), ?_⟩))
      exact List.forall_mem_singleton.mpr (.named (by decide))
    exact hbuiltIn.isWordText hname
  have hseparate : ∀ name, separatePairs.Reaches (.named name) → isWordText name.toList := by
    intro name hname
    cases hname with
    | element hname =>
      cases hname with
      | field hf hname =>
        simp only [List.mem_cons, List.not_mem_nil, or_false] at hf
        rcases hf with rfl | rfl | rfl
        · cases hname
          decide
        · cases hname
          decide
        · cases hname
  have htext : typeText groupedPairs = .ok "[(u8, u8, [u8; 64]); 2]" := by decide
  have hother : typeText separatePairs = .ok "[(u8, u8, [u8; 64]); 2]" := by decide
  exact ⟨hgrouped, hseparate, htext, hother,
    (typeText_eq_iff hgrouped hseparate htext hother).mp rfl⟩

/-- A name that is no word can have the text of a struct. -/
example : typeText (.named "()") = typeText (.struct []) := rfl

end BoundedGo
