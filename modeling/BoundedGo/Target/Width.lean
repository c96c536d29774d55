import BoundedGo.Target.Type
import BoundedGo.Text.Blank

/-!
The width in bits of a target type, taken from its text alone. Arrays multiply, up to the largest
width there is; what is not known has no width.
-/
namespace BoundedGo.Width

/-- The largest width. -/
def most : Nat := 4294967295

def words : List (String × Nat) :=
  [("bool", 1), ("u1", 1), ("u2", 2), ("u4", 4), ("u8", 8), ("u16", 16), ("u32", 32),
   ("u64", 64), ("u128", 128), ("u256", 256), ("()", 0)]

/-- The parts of a text before and behind the last of the given characters. -/
def splitLast (c : Char) : List Char → Option (List Char × List Char)
  | [] => none
  | d :: cs =>
    match splitLast c cs with
    | some (before, behind) => some (d :: before, behind)
    | none => if d = c then some ([], cs) else none

/-- The text between square brackets. -/
def unbracketed : List Char → Option (List Char)
  | '[' :: cs => if cs.getLast? = some ']' then some cs.dropLast else none
  | _ => none

/-- The element and the count of an array's text. -/
def arrayParts (cs : List Char) : Option (List Char × Nat) :=
  match unbracketed cs with
  | none => none
  | some inner =>
    match splitLast ';' inner with
    | none => none
    | some (element, count) =>
      match Text.readBelow? (most + 1) 10 (Text.trimBlank count) with
      | some n => some (Text.trimBlank element, n)
      | none => none

theorem splitLast_length {c : Char} {cs before behind : List Char}
    (h : splitLast c cs = some (before, behind)) : before.length + behind.length < cs.length := by
  induction cs generalizing before with
  | nil => simp [splitLast] at h
  | cons d cs ih =>
    rw [splitLast] at h
    split at h
    · rename_i first _ hinner
      obtain ⟨rfl, rfl⟩ : d :: first = before ∧ _ = behind := by simpa using h
      have := ih hinner
      simp only [List.length_cons]
      omega
    · split at h
      · obtain ⟨rfl, rfl⟩ : [] = before ∧ cs = behind := by simpa using h
        simp
      · simp at h

theorem trimBlank_length_le (cs : List Char) : (Text.trimBlank cs).length ≤ cs.length := by
  have first := (List.dropWhile_sublist Text.isBlank (l := cs)).length_le
  have last := (List.dropWhile_sublist Text.isBlank
    (l := (cs.dropWhile Text.isBlank).reverse)).length_le
  simp only [Text.trimBlank, List.length_reverse] at last ⊢
  omega

theorem arrayParts_length {cs element : List Char} {n : Nat}
    (h : arrayParts cs = some (element, n)) : element.length < cs.length := by
  unfold arrayParts at h
  split at h
  · simp at h
  · rename_i inner hinner
    have bracket : inner.length ≤ cs.length := by
      unfold unbracketed at hinner
      split at hinner
      · split at hinner
        · rename_i tail _
          obtain rfl : tail.dropLast = inner := by simpa using hinner
          simp only [List.length_dropLast, List.length_cons]
          omega
        · simp at hinner
      · simp at hinner
    split at h
    · simp at h
    · rename_i first _ hsplit
      have := splitLast_length hsplit
      have := trimBlank_length_le first
      split at h
      · obtain ⟨rfl, _⟩ : Text.trimBlank first = element ∧ _ = n := by simpa using h
        omega
      · simp at h

/-- The width of a type with the given text. -/
def ofChars (cs : List Char) : Nat :=
  match words.lookup (String.ofList cs) with
  | some w => w
  | none =>
    match _h : arrayParts cs with
    | some (element, n) => min (ofChars element * n) most
    | none => 0
termination_by cs.length
decreasing_by exact arrayParts_length _h

end BoundedGo.Width

namespace BoundedGo

/-- The width in bits of a target type with the given text. -/
def bitWidth (target : String) : Nat :=
  Width.ofChars target.toList

end BoundedGo
