import BoundedGo.Text.Naming
import BoundedGo.Text.Uppercase
import Mathlib.Data.List.Basic

/-!
Which names get the same name. The small-letter style loses the case of the first letter, and it
spells a later capital out as an underscore with the small letter, which may as well have been
written; it loses nothing else. The style of constants is the upper case of that. It loses the case
of the letters of other alphabets besides, but nothing more of a name of ASCII characters.
Main statements: two names get the same small-letter name exactly if they are alike
(`snakeCase_eq_iff`), and names of ASCII characters get the same constant name exactly then
(`constantName_eq_iff`); different names in mixed case are never alike
(`keptApart_of_isMixedCase`).
-/
namespace BoundedGo.Text

/-- The name of a constant or of a witness in the program. -/
def constantName (name : String) : String := uppercase (snakeCase name)

/-- The same characters behind the first one, where a capital may be spelled out. -/
inductive AlikeBehind : List Char → List Char → Prop
  | nil : AlikeBehind [] []
  | same (c : Char) {cs ds : List Char} (h : AlikeBehind cs ds) : AlikeBehind (c :: cs) (c :: ds)
  | capital {c : Char} {cs ds : List Char} (hc : c.isUpper) (h : AlikeBehind cs ds) :
    AlikeBehind (c :: cs) ('_' :: c.toLower :: ds)
  | spelledOut {c : Char} {cs ds : List Char} (hc : c.isUpper) (h : AlikeBehind cs ds) :
    AlikeBehind ('_' :: c.toLower :: cs) (c :: ds)

/-- The same names, but for the case of the first letter and for how later capitals are written. -/
inductive Alike : List Char → List Char → Prop
  | nil : Alike [] []
  | cons {c d : Char} {cs ds : List Char} (hfirst : c.toLower = d.toLower)
    (h : AlikeBehind cs ds) : Alike (c :: cs) (d :: ds)

/-- What holds of the first 128 characters holds of every character of the ASCII alphabet. -/
theorem of_ascii {P : Char → Prop} (h : ∀ n < 128, P (Char.ofNat n)) {c : Char}
    (hc : c.toNat < 128) : P c := by
  have hn := h c.toNat hc
  rwa [Char.ofNat_toNat] at hn

theorem toNat_lt_of_isUpper {c : Char} (h : c.isUpper) : c.toNat < 128 := by
  have hle : c.val ≤ 'Z'.val := (of_decide_eq_true h).2
  have hhigh : c.toNat ≤ 90 := UInt32.le_iff_toNat_le.mp hle
  omega

theorem toLower_of_not_isUpper {c : Char} (h : ¬ c.isUpper) : c.toLower = c := by
  have hnot : ¬ (c.val ≥ 'A'.val ∧ c.val ≤ 'Z'.val) := fun hc => h (decide_eq_true hc)
  exact dif_neg hnot

/-- A small letter is no capital and no underscore, and its capital is known. -/
theorem toLower_facts {c : Char} (h : c.isUpper) :
    c.toLower.isUpper = false ∧ c.toLower ≠ '_' ∧ c.toLower.toUpper = c := by
  have hall : ∀ n < 128, (Char.ofNat n).isUpper → (Char.ofNat n).toLower.isUpper = false ∧
      (Char.ofNat n).toLower ≠ '_' ∧ (Char.ofNat n).toLower.toUpper = Char.ofNat n := by
    decide
  exact of_ascii (P := fun c => c.isUpper → c.toLower.isUpper = false ∧ c.toLower ≠ '_' ∧
    c.toLower.toUpper = c) hall (toNat_lt_of_isUpper h) h

theorem isUpper_toLower (c : Char) : c.toLower.isUpper = false := by
  by_cases h : c.isUpper
  · exact (toLower_facts h).1
  · rw [toLower_of_not_isUpper h]
    simpa using h

theorem snakeChar_of_isUpper {c : Char} (h : c.isUpper) : snakeChar c = ['_', c.toLower] :=
  if_pos h

theorem snakeChar_of_not_isUpper {c : Char} (h : ¬ c.isUpper) : snakeChar c = [c] :=
  if_neg h

theorem AlikeBehind.flatMap_eq {cs ds : List Char} (h : AlikeBehind cs ds) :
    cs.flatMap snakeChar = ds.flatMap snakeChar := by
  induction h with
  | nil => rfl
  | same c _ ih => rw [List.flatMap_cons, List.flatMap_cons, ih]
  | capital hc _ ih => simp [snakeChar, hc, toLower_facts hc, ih]
  | spelledOut hc _ ih => simp [snakeChar, hc, toLower_facts hc, ih]

/-- What is no underscore stands for itself. -/
theorem exists_cons_of_flatMap_eq {c : Char} {cs ds : List Char} (hc : c ≠ '_')
    (h : ds.flatMap snakeChar = c :: cs) :
    ∃ rest, ds = c :: rest ∧ rest.flatMap snakeChar = cs := by
  cases ds with
  | nil => cases h
  | cons d ds =>
    by_cases hd : d.isUpper
    · rw [List.flatMap_cons, snakeChar_of_isUpper hd] at h
      exact absurd (List.cons.inj h).1.symm hc
    · rw [List.flatMap_cons, snakeChar_of_not_isUpper hd] at h
      obtain ⟨rfl, hrest⟩ := List.cons.inj h
      exact ⟨ds, rfl, hrest⟩

theorem alikeBehind_of_flatMap_eq : ∀ {cs ds : List Char},
    cs.flatMap snakeChar = ds.flatMap snakeChar → AlikeBehind cs ds
  | [], [], _ => .nil
  | [], d :: ds, h => by
    by_cases hd : d.isUpper <;> simp [snakeChar, hd] at h
  | c :: cs, [], h => by
    by_cases hc : c.isUpper <;> simp [snakeChar, hc] at h
  | c :: cs, d :: ds, h => by
    rw [List.flatMap_cons, List.flatMap_cons] at h
    by_cases hc : c.isUpper
    · obtain ⟨-, hne, hupper⟩ := toLower_facts hc
      by_cases hd : d.isUpper
      · rw [snakeChar_of_isUpper hc, snakeChar_of_isUpper hd] at h
        obtain ⟨hlower, hrest⟩ := List.cons.inj (List.cons.inj h).2
        obtain rfl : c = d := by rw [← hupper, hlower, (toLower_facts hd).2.2]
        exact .same c (alikeBehind_of_flatMap_eq hrest)
      · rw [snakeChar_of_isUpper hc, snakeChar_of_not_isUpper hd] at h
        obtain ⟨rfl, hbehind⟩ := List.cons.inj h
        obtain ⟨rest, rfl, hrest⟩ := exists_cons_of_flatMap_eq hne hbehind.symm
        exact .capital hc (alikeBehind_of_flatMap_eq hrest.symm)
    · by_cases hd : d.isUpper
      · obtain ⟨-, hne, -⟩ := toLower_facts hd
        rw [snakeChar_of_not_isUpper hc, snakeChar_of_isUpper hd] at h
        obtain ⟨rfl, hbehind⟩ := List.cons.inj h
        obtain ⟨rest, rfl, hrest⟩ := exists_cons_of_flatMap_eq hne hbehind
        exact .spelledOut hd (alikeBehind_of_flatMap_eq hrest)
      · rw [snakeChar_of_not_isUpper hc, snakeChar_of_not_isUpper hd] at h
        obtain ⟨rfl, hrest⟩ := List.cons.inj h
        exact .same c (alikeBehind_of_flatMap_eq hrest)
termination_by cs ds => cs.length + ds.length

theorem snakeChars_eq_iff {cs ds : List Char} : snakeChars cs = snakeChars ds ↔ Alike cs ds := by
  constructor
  · intro h
    cases cs with
    | nil =>
      cases ds with
      | nil => exact .nil
      | cons d ds => cases h
    | cons c cs =>
      cases ds with
      | nil => cases h
      | cons d ds =>
        obtain ⟨hfirst, hrest⟩ := List.cons.inj h
        exact .cons hfirst (alikeBehind_of_flatMap_eq hrest)
  · rintro (_ | ⟨hfirst, h⟩)
    · rfl
    · rw [snakeChars, snakeChars, hfirst, h.flatMap_eq]

/-- Names get the same small-letter name exactly if they are alike. -/
theorem snakeCase_eq_iff {a b : String} :
    snakeCase a = snakeCase b ↔ Alike a.toList b.toList := by
  rw [snakeCase, snakeCase, String.ofList_inj, snakeChars_eq_iff]

/-- Behind the first character, what is written without underscores and capitals is written in no
other way. -/
theorem AlikeBehind.eq_of_small {cs ds : List Char} (h : AlikeBehind cs ds)
    (hds : ∀ d ∈ ds, d ≠ '_' ∧ d.isUpper = false) : cs = ds := by
  induction h with
  | nil => rfl
  | same c _ ih => rw [ih fun d hd => hds d (List.mem_cons_of_mem c hd)]
  | capital _ _ _ => exact absurd rfl (hds '_' List.mem_cons_self).1
  | spelledOut hc _ _ => exact absurd ((hds _ List.mem_cons_self).2.symm.trans hc) nofun

theorem AlikeBehind.eq_of_no_underscore {cs ds : List Char} (h : AlikeBehind cs ds)
    (hcs : '_' ∉ cs) (hds : '_' ∉ ds) : cs = ds := by
  induction h with
  | nil => rfl
  | same c _ ih =>
    rw [ih (fun hc => hcs (List.mem_cons_of_mem c hc)) fun hd => hds (List.mem_cons_of_mem c hd)]
  | capital _ _ _ => exact absurd List.mem_cons_self hds
  | spelledOut _ _ _ => exact absurd List.mem_cons_self hcs

/-- Names that begin with no capital and have no underscore. -/
def IsMixedCase (name : String) : Prop :=
  (∀ c ∈ name.toList.head?, c.isUpper = false) ∧ '_' ∉ name.toList

theorem Alike.eq_of_isMixedCase {a b : String} (h : Alike a.toList b.toList)
    (ha : IsMixedCase a) (hb : IsMixedCase b) : a = b := by
  obtain ⟨hfirst, hplain⟩ := ha
  obtain ⟨hfirst', hplain'⟩ := hb
  rw [← String.toList_inj]
  generalize a.toList = cs at *
  generalize b.toList = ds at *
  cases h with
  | nil => rfl
  | @cons c d cs ds hlower h =>
    have hc : c.toLower = c := toLower_of_not_isUpper (by simp [hfirst c rfl])
    have hd : d.toLower = d := toLower_of_not_isUpper (by simp [hfirst' d rfl])
    rw [hc, hd] at hlower
    rw [hlower, h.eq_of_no_underscore (fun hmem => hplain (List.mem_cons_of_mem _ hmem))
      fun hmem => hplain' (List.mem_cons_of_mem _ hmem)]

/-- The name `main` is given to itself and to its form with a capital. -/
theorem snakeCase_eq_main_iff {name : String} :
    snakeCase name = "main" ↔ name = "main" ∨ name = "Main" := by
  constructor
  · intro h
    have halike : Alike name.toList ['m', 'a', 'i', 'n'] := by
      have hmain : snakeCase "main" = "main" := by decide
      rwa [← hmain, snakeCase_eq_iff] at h
    generalize hname : name.toList = cs at halike
    rw [← String.ofList_toList (s := name), hname]
    cases halike with
    | @cons c _ cs _ hfirst hbehind =>
      obtain rfl := hbehind.eq_of_small (by simp)
      by_cases hc : c.isUpper
      · obtain rfl : c = 'M' := by
          rw [← (toLower_facts hc).2.2, hfirst]
          decide
        exact .inr rfl
      · obtain rfl : c = 'm' := by
          rw [← toLower_of_not_isUpper hc, hfirst]
          decide
        exact .inl rfl
  · rintro (rfl | rfl)
    · decide
    · decide

/-- No capital is left. -/
theorem not_isUpper_of_mem_snakeChars {cs : List Char} {c : Char} (h : c ∈ snakeChars cs) :
    c.isUpper = false := by
  cases cs with
  | nil => cases h
  | cons d ds =>
    rcases List.mem_cons.mp h with rfl | h
    · exact isUpper_toLower d
    · obtain ⟨e, -, he⟩ := List.mem_flatMap.mp h
      by_cases hupper : e.isUpper
      · rw [snakeChar_of_isUpper hupper] at he
        rcases List.mem_pair.mp he with rfl | rfl
        · rfl
        · exact isUpper_toLower e
      · rw [snakeChar_of_not_isUpper hupper, List.mem_singleton] at he
        rw [he]
        simpa using hupper

/-- Names of characters of the ASCII alphabet. -/
def IsAscii (name : String) : Prop := ∀ c ∈ name.toList, c.toNat < 128

instance (name : String) : Decidable (IsAscii name) :=
  decidable_of_iff (name.toList.all fun c => c.toNat < 128) (by simp [IsAscii])

theorem toNat_lt_of_mem_snakeChars {cs : List Char} (hcs : ∀ c ∈ cs, c.toNat < 128) {c : Char}
    (h : c ∈ snakeChars cs) : c.toNat < 128 := by
  have hlower : ∀ d : Char, d.toNat < 128 → d.toLower.toNat < 128 := fun d hd =>
    of_ascii (P := fun d => d.toLower.toNat < 128) (by decide) hd
  cases cs with
  | nil => cases h
  | cons d ds =>
    rcases List.mem_cons.mp h with rfl | h
    · exact hlower d (hcs d List.mem_cons_self)
    · obtain ⟨e, he, hc⟩ := List.mem_flatMap.mp h
      have he128 := hcs e (List.mem_cons_of_mem d he)
      by_cases hupper : e.isUpper
      · rw [snakeChar_of_isUpper hupper] at hc
        rcases List.mem_pair.mp hc with rfl | rfl
        · decide
        · exact hlower e he128
      · rw [snakeChar_of_not_isUpper hupper, List.mem_singleton] at hc
        rwa [hc]

/-- The upper case of ASCII characters that are no capitals can be undone. -/
theorem toLower_of_upperChar {c : Char} (hc : c.toNat < 128) (hupper : c.isUpper = false) :
    upperChar c = [c.toUpper] ∧ c.toUpper.toLower = c := by
  have hall : ∀ n < 128, (Char.ofNat n).isUpper = false →
      upperChar (Char.ofNat n) = [(Char.ofNat n).toUpper] ∧
        (Char.ofNat n).toUpper.toLower = Char.ofNat n := by
    decide +kernel
  exact of_ascii (P := fun c => c.isUpper = false →
    upperChar c = [c.toUpper] ∧ c.toUpper.toLower = c) hall hc hupper

theorem map_toLower_upperChars {cs : List Char}
    (hcs : ∀ c ∈ cs, c.toNat < 128 ∧ c.isUpper = false) :
    (upperChars cs).map Char.toLower = cs := by
  induction cs with
  | nil => rfl
  | cons c cs ih =>
    obtain ⟨⟨hc, hupper⟩, hcs⟩ := List.forall_mem_cons.mp hcs
    obtain ⟨hone, hback⟩ := toLower_of_upperChar hc hupper
    have hrest : (cs.flatMap upperChar).map Char.toLower = cs := ih hcs
    rw [upperChars, List.flatMap_cons, hone, List.singleton_append, List.map_cons, hback, hrest]

/-- Alike names get the same constant name, whatever characters they are of. -/
theorem Alike.constantName_eq {a b : String} (h : Alike a.toList b.toList) :
    constantName a = constantName b := by
  rw [constantName, constantName, snakeCase_eq_iff.mpr h]

/-- Names of ASCII characters get the same constant name exactly if they are alike. -/
theorem constantName_eq_iff {a b : String} (ha : IsAscii a) (hb : IsAscii b) :
    constantName a = constantName b ↔ Alike a.toList b.toList := by
  refine ⟨fun h => ?_, Alike.constantName_eq⟩
  have hback : ∀ {name : String}, IsAscii name →
      (constantName name).toList.map Char.toLower = snakeChars name.toList := by
    intro name hname
    simp only [constantName, uppercase, snakeCase, String.toList_ofList]
    exact map_toLower_upperChars fun c hc =>
      ⟨toNat_lt_of_mem_snakeChars hname hc, not_isUpper_of_mem_snakeChars hc⟩
  rw [← snakeChars_eq_iff, ← hback ha, ← hback hb, h]

/-- No two of the names are alike. -/
def KeptApart (names : List String) : Prop :=
  names.Pairwise fun a b => ¬ Alike a.toList b.toList

/-- Different names in mixed case are kept apart. -/
theorem keptApart_of_isMixedCase {names : List String} (hnodup : names.Nodup)
    (h : ∀ name ∈ names, IsMixedCase name) : KeptApart names :=
  hnodup.imp_of_mem fun ha hb hne halike => hne (halike.eq_of_isMixedCase (h _ ha) (h _ hb))

end BoundedGo.Text
