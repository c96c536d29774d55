import BoundedGo.Proofs.Names

/-!
Reading one token again in front of other text. Every reader stops where its token ends, because of
the character behind it or because it needs no more; white space stops all of them. So what a reader
has read as a token it reads as the same token wherever white space stands behind it. The readers
for the parts of a number are looked at one by one (`Scan.StopsAtBlank`), and a number is put
together from its parts (`Scan.Parts`). Of what stood behind a number any beginning may be kept
(`Scan.KeepsToken`).
Main statement: `isLexeme_of_scan`.
-/
namespace BoundedGo

/-- Text that white space begins, or no text. -/
def EndsToken (rest : List Char) : Prop :=
  ∀ c ∈ rest.head?, Text.isBlank c

namespace EndsToken

variable {kept rest rest' : List Char}

theorem endsSymbol (h : EndsToken rest) : EndsSymbol rest := by
  cases rest with
  | nil => nofun
  | cons c rest => exact endsSymbol_of_isBlank (h c rfl) rest

theorem continuesIdentifier (h : EndsToken rest) :
    ∀ c ∈ rest.head?, Scan.continuesIdentifier c = false :=
  fun c hc => continuesIdentifier_of_isBlank (h c hc)

theorem head_ne (h : EndsToken rest) {d : Char} (hd : Text.isBlank d = false) :
    ∀ c ∈ rest.head?, c ≠ d := by
  rintro c hc rfl
  rw [h c hc] at hd
  cases hd

/-- What no white space is does not stand at the front either when white space takes the place of
what stands behind `kept`. -/
theorem head_append (h : EndsToken rest') {P : Char → Prop} (hP : ∀ c, Text.isBlank c → P c)
    (hhead : ∀ c ∈ (kept ++ rest).head?, P c) : ∀ c ∈ (kept ++ rest').head?, P c := by
  cases kept with
  | nil => exact fun c hc => hP c (h c hc)
  | cons d kept => exact hhead

end EndsToken

namespace Scan

/-- A reader of a part of a number, which gives the text it reads and the text behind, reads the
same when white space takes the place of what stands behind `kept`. -/
def StopsAtBlank (read : List Char → List Char × List Char) : Prop :=
  ∀ {text kept rest rest' : List Char}, read (text ++ (kept ++ rest)) = (text, kept ++ rest) →
    EndsToken rest' → read (text ++ (kept ++ rest')) = (text, kept ++ rest')

/-- The characters of a stretch of one class. -/
def stretch (p : Char → Bool) (cs : List Char) : List Char × List Char :=
  (cs.takeWhile p, cs.dropWhile p)

theorem stopsAtBlank_stretch {p : Char → Bool} (hp : ∀ c, Text.isBlank c → p c = false) :
    StopsAtBlank (stretch p) := by
  intro text kept rest rest' h hrest
  obtain ⟨htake, hdrop⟩ := Prod.mk.inj h
  have htext : ∀ c ∈ text, p c := by
    intro c hc
    rw [← htake] at hc
    exact List.mem_takeWhile_imp hc
  have hhead : ∀ c ∈ (kept ++ rest).head?, p c = false := by
    intro c hc
    have hstop := List.head?_dropWhile_not p (text ++ (kept ++ rest))
    rw [hdrop, Option.mem_def.mp hc] at hstop
    simpa using hstop
  obtain ⟨htake', hdrop'⟩ := takeWhile_append_of_head htext (hrest.head_append hp hhead)
  exact Prod.ext htake' hdrop'

/-- The characters of white space are few. -/
theorem of_isBlank {P : Char → Prop} (h : ∀ n ∈ blankPoints, P (Char.ofNat n)) (c : Char)
    (hc : Text.isBlank c) : P c := by
  have hpoint := h c.toNat (mem_blankPoints_of_isBlank hc)
  rwa [Char.ofNat_toNat] at hpoint

theorem isDecimal_of_isBlank : ∀ c, Text.isBlank c → isDecimal c = false :=
  of_isBlank (by decide)

theorem isDigitOf_of_isBlank (base : Base) :
    ∀ c, Text.isBlank c → (base.hasDigit c || c = '_') = false :=
  of_isBlank (by cases base <;> decide)

theorem ne_of_isBlank {d : Char} (hd : Text.isBlank d = false) (c : Char) (h : Text.isBlank c) :
    c ≠ d := by
  rintro rfl
  rw [h] at hd
  cases hd

theorem fraction_of_head {cs : List Char} (h : ∀ c ∈ cs.head?, c ≠ '.') :
    fraction cs = ([], cs) := by
  unfold fraction
  split
  · exact absurd rfl (h '.' rfl)
  · rfl

theorem stopsAtBlank_fraction : StopsAtBlank fraction := by
  intro text kept rest rest' h hrest
  cases text with
  | nil =>
    have hhead : ∀ c ∈ (kept ++ rest).head?, c ≠ '.' := by
      intro c hc hpoint
      obtain ⟨cs, hcs⟩ := List.head?_eq_some_iff.mp (Option.mem_def.mp hc)
      rw [hpoint] at hcs
      rw [List.nil_append, hcs] at h
      cases h
    exact fraction_of_head (hrest.head_append (ne_of_isBlank (by decide)) hhead)
  | cons c digits =>
    have hpoint : c = '.' := by
      unfold fraction at h
      split at h
      · rename_i heq
        exact (List.cons.inj heq).1
      · cases h
    subst hpoint
    obtain ⟨hdigits, hbehind⟩ := Prod.mk.inj h
    have hstretch : stretch isDecimal (digits ++ (kept ++ rest)) = (digits, kept ++ rest) :=
      Prod.ext (List.cons.inj hdigits).2 hbehind
    have hagain := stopsAtBlank_stretch isDecimal_of_isBlank hstretch hrest
    obtain ⟨hdigits', hbehind'⟩ := Prod.mk.inj hagain
    exact Prod.ext (congrArg ('.' :: ·) hdigits') hbehind'

/-- A mark is missing, a letter, or a letter with a sign; it is as long as it can be. -/
inductive MarkOf : List Char → List Char → Prop
  | none {behind : List Char} (h : ∀ c ∈ behind.head?, ¬ (c = 'e' ∨ c = 'E')) : MarkOf [] behind
  | letter {c : Char} {behind : List Char} (hc : c = 'e' ∨ c = 'E')
    (h : ∀ s ∈ behind.head?, ¬ (s = '+' ∨ s = '-')) : MarkOf [c] behind
  | signed {c s : Char} {behind : List Char} (hc : c = 'e' ∨ c = 'E') (hs : s = '+' ∨ s = '-') :
    MarkOf [c, s] behind

theorem markOf_exponentMark (cs : List Char) : MarkOf (exponentMark cs).1 (exponentMark cs).2 := by
  unfold exponentMark
  split
  · rename_i c cs
    by_cases hc : c = 'e' ∨ c = 'E'
    · rw [if_pos hc]
      split
      · rename_i s ds
        by_cases hs : s = '+' ∨ s = '-'
        · rw [if_pos hs]
          exact .signed hc hs
        · rw [if_neg hs]
          exact .letter hc (by simpa using hs)
      · exact .letter hc nofun
    · rw [if_neg hc]
      exact .none (by simpa using hc)
  · exact .none nofun

theorem MarkOf.exponentMark_eq {mark behind : List Char} (h : MarkOf mark behind) :
    exponentMark (mark ++ behind) = (mark, behind) := by
  cases h with
  | none h =>
    cases behind with
    | nil => rfl
    | cons c behind => exact if_neg (h c rfl)
  | letter hc h =>
    rw [List.singleton_append]
    unfold exponentMark
    dsimp only
    rw [if_pos hc]
    cases behind with
    | nil => rfl
    | cons s behind => exact if_neg (h s rfl)
  | signed hc hs =>
    simp only [List.cons_append, List.nil_append]
    unfold exponentMark
    dsimp only
    rw [if_pos hc, if_pos hs]

theorem stopsAtBlank_exponentMark : StopsAtBlank exponentMark := by
  intro text kept rest rest' h hrest
  have hletter : ∀ c, Text.isBlank c → ¬ (c = 'e' ∨ c = 'E') := fun c hc =>
    not_or.mpr ⟨ne_of_isBlank (by decide) c hc, ne_of_isBlank (by decide) c hc⟩
  have hsign : ∀ c, Text.isBlank c → ¬ (c = '+' ∨ c = '-') := fun c hc =>
    not_or.mpr ⟨ne_of_isBlank (by decide) c hc, ne_of_isBlank (by decide) c hc⟩
  have hmark := markOf_exponentMark (text ++ (kept ++ rest))
  rw [h] at hmark
  apply MarkOf.exponentMark_eq
  cases hmark with
  | none h => exact .none (hrest.head_append hletter h)
  | letter hc h => exact .letter hc (hrest.head_append hsign h)
  | signed hc hs => exact .signed hc hs

theorem stopsAtBlank_exponentDigits (mark : List Char) : StopsAtBlank (exponentDigits mark) := by
  intro text kept rest rest' h hrest
  unfold exponentDigits at h ⊢
  split at h
  · rename_i hmark
    rw [if_pos hmark]
    obtain rfl := (Prod.mk.inj h).1
    rfl
  · rename_i hmark
    rw [if_neg hmark]
    exact stopsAtBlank_stretch isDecimal_of_isBlank h hrest

/-- The parts of a decimal number, each read in front of all that stands behind it. -/
structure Parts (whole point mark power behind : List Char) : Prop where
  readsWhole : stretch isDecimal (whole ++ (point ++ (mark ++ (power ++ behind)))) =
    (whole, point ++ (mark ++ (power ++ behind)))
  readsPoint : fraction (point ++ (mark ++ (power ++ behind))) =
    (point, mark ++ (power ++ behind))
  readsMark : exponentMark (mark ++ (power ++ behind)) = (mark, power ++ behind)
  readsPower : exponentDigits mark (power ++ behind) = (power, behind)

theorem exists_parts (cs : List Char) : ∃ whole point mark power behind,
    cs = whole ++ (point ++ (mark ++ (power ++ behind))) ∧
      Parts whole point mark power behind := by
  have hwhole : (stretch isDecimal cs).1 ++ (stretch isDecimal cs).2 = cs :=
    List.takeWhile_append_dropWhile
  rcases hreadsWhole : stretch isDecimal cs with ⟨whole, behindWhole⟩
  rw [hreadsWhole] at hwhole
  have hpoint := fraction_append behindWhole
  rcases hreadsPoint : fraction behindWhole with ⟨point, behindPoint⟩
  rw [hreadsPoint] at hpoint
  have hmark := exponentMark_append behindPoint
  rcases hreadsMark : exponentMark behindPoint with ⟨mark, behindMark⟩
  rw [hreadsMark] at hmark
  have hpower := exponentDigits_append mark behindMark
  rcases hreadsPower : exponentDigits mark behindMark with ⟨power, behind⟩
  rw [hreadsPower] at hpower
  subst hwhole hpoint hmark hpower
  exact ⟨whole, point, mark, power, behind, rfl, hreadsWhole, hreadsPoint, hreadsMark, hreadsPower⟩

namespace Parts

variable {whole point mark power kept rest rest' behind : List Char}

theorem exchange (h : Parts whole point mark power (kept ++ rest)) (hrest : EndsToken rest') :
    Parts whole point mark power (kept ++ rest') where
  readsWhole := by
    have hread : stretch isDecimal (whole ++ ((point ++ mark ++ power ++ kept) ++ rest))
        = (whole, (point ++ mark ++ power ++ kept) ++ rest) := by
      simpa only [List.append_assoc] using h.readsWhole
    have hagain := stopsAtBlank_stretch isDecimal_of_isBlank hread hrest
    simpa only [List.append_assoc] using hagain
  readsPoint := by
    have hread : fraction (point ++ ((mark ++ power ++ kept) ++ rest))
        = (point, (mark ++ power ++ kept) ++ rest) := by
      simpa only [List.append_assoc] using h.readsPoint
    have hagain := stopsAtBlank_fraction hread hrest
    simpa only [List.append_assoc] using hagain
  readsMark := by
    have hread : exponentMark (mark ++ ((power ++ kept) ++ rest))
        = (mark, (power ++ kept) ++ rest) := by
      simpa only [List.append_assoc] using h.readsMark
    have hagain := stopsAtBlank_exponentMark hread hrest
    simpa only [List.append_assoc] using hagain
  readsPower := stopsAtBlank_exponentDigits mark h.readsPower hrest

/-- What a decimal number is found to be is told by its parts and by the next character. -/
theorem decimal_eq (h : Parts whole point mark power behind) :
    decimal (whole ++ (point ++ (mark ++ (power ++ behind)))) =
      if !mark.isEmpty && power.isEmpty then
        ⟨.error .exponentDigitExpected, whole ++ point ++ mark ++ power, behind⟩
      else if behind.head? = some 'i' then
        ⟨.ok (.literal .imag), whole ++ point ++ mark ++ power ++ ['i'], behind.tail⟩
      else if !point.isEmpty || !mark.isEmpty then
        ⟨.ok (.literal .float), whole ++ point ++ mark ++ power, behind⟩
      else if isMisreadOctal (whole ++ point ++ mark ++ power) then
        ⟨.error .octalDigit, whole ++ point ++ mark ++ power, behind⟩
      else ⟨.ok (.literal .int), whole ++ point ++ mark ++ power, behind⟩ := by
  obtain ⟨htake, hdrop⟩ := Prod.mk.inj h.readsWhole
  simp only [decimal, htake, hdrop, h.readsPoint, h.readsMark, h.readsPower]
  by_cases hsuffix : behind.head? = some 'i'
  · obtain ⟨cs, rfl⟩ := List.head?_eq_some_iff.mp hsuffix
    rfl
  · rw [if_neg hsuffix]
    congr 1
    split
    · exact absurd rfl hsuffix
    · rfl

end Parts

/-- A reader that has found a token finds the same token when white space stands behind it. -/
def Settles (read : List Char → Scan) (cs : List Char) : Prop :=
  ∀ {k : TokenKind}, (read cs).outcome = .ok k → ∀ {rest' : List Char}, EndsToken rest' →
    read ((read cs).text ++ rest') = ⟨.ok k, (read cs).text, rest'⟩

/-- A reader that finds a token finds the same token when white space takes the place of what stands
behind `kept`. -/
def KeepsToken (read : List Char → Scan) : Prop :=
  ∀ {k : TokenKind} {text kept rest rest' : List Char},
    read (text ++ (kept ++ rest)) = ⟨.ok k, text, kept ++ rest⟩ → EndsToken rest' →
      read (text ++ (kept ++ rest')) = ⟨.ok k, text, kept ++ rest'⟩

namespace KeepsToken

variable {read : List Char → Scan} {cs : List Char} {k : TokenKind}

/-- White space behind the token. -/
theorem settles (h : KeepsToken read) (hall : (read cs).text ++ (read cs).rest = cs) :
    Settles read cs := by
  intro k hk rest' hrest
  have hread : read ((read cs).text ++ ([] ++ (read cs).rest))
      = ⟨.ok k, (read cs).text, [] ++ (read cs).rest⟩ := by
    rw [List.nil_append, hall, ← hk]
  exact h hread hrest

/-- White space behind all of the text. -/
theorem append (h : KeepsToken read) (hall : (read cs).text ++ (read cs).rest = cs)
    (hk : (read cs).outcome = .ok k) {tail : List Char} (htail : EndsToken tail) :
    read (cs ++ tail) = ⟨.ok k, (read cs).text, (read cs).rest ++ tail⟩ := by
  have hread : read ((read cs).text ++ ((read cs).rest ++ []))
      = ⟨.ok k, (read cs).text, (read cs).rest ++ []⟩ := by
    rw [List.append_nil, hall, ← hk]
  have hagain := h hread htail
  rwa [← List.append_assoc, hall] at hagain

end KeepsToken

theorem keepsToken_decimal : KeepsToken decimal := by
  intro k text kept rest rest' h hrest
  obtain ⟨whole, point, mark, power, behind, hcs, hparts⟩ := exists_parts (text ++ (kept ++ rest))
  rw [hcs, hparts.decimal_eq] at h
  by_cases hdigits : (!mark.isEmpty && power.isEmpty) = true
  · rw [if_pos hdigits] at h
    cases h
  rw [if_neg hdigits] at h
  by_cases hsuffix : behind.head? = some 'i'
  · obtain ⟨cs, rfl⟩ := List.head?_eq_some_iff.mp hsuffix
    rw [if_pos hsuffix] at h
    obtain ⟨hk, rfl, rfl⟩ := Scan.mk.inj h
    have hagain : Parts whole point mark power (('i' :: kept) ++ rest') := hparts.exchange hrest
    have hread := hagain.decimal_eq
    rw [if_neg hdigits, if_pos (by rfl)] at hread
    simpa [← hk] using hread
  · rw [if_neg hsuffix] at h
    have hplace : whole ++ point ++ mark ++ power = text ∧ behind = kept ++ rest := by
      split at h
      · exact (Scan.mk.inj h).2
      split at h
      · cases h
      · exact (Scan.mk.inj h).2
    obtain ⟨rfl, rfl⟩ := hplace
    have hread := (hparts.exchange hrest).decimal_eq
    have hsuffix' : (kept ++ rest').head? ≠ some 'i' := by
      have hnot := hrest.head_append (ne_of_isBlank (d := 'i') (by decide)) fun c hc heq =>
        hsuffix (by rw [← heq]; exact hc)
      exact fun hhead => hnot 'i' hhead rfl
    rw [if_neg hdigits, if_neg hsuffix'] at hread
    simp only [List.append_assoc] at h hread ⊢
    rw [hread]
    split at h
    · rename_i hfloat
      rw [if_pos hfloat, (Scan.mk.inj h).1]
    rename_i hwhole
    rw [if_neg hwhole]
    split at h
    · cases h
    · rename_i hoctal
      rw [if_neg hoctal, (Scan.mk.inj h).1]

/-- Behind the two characters that announce its base, an integer ends where its digits end. -/
theorem announced_again {base : Base} {intro cs text kept rest rest' : List Char} {k : TokenKind}
    (h : announced base intro cs = ⟨.ok k, text, kept ++ rest⟩) (hrest : EndsToken rest') :
    ∃ digits, text = intro ++ digits ∧
      announced base intro (digits ++ (kept ++ rest')) = ⟨.ok k, text, kept ++ rest'⟩ := by
  unfold announced at h
  obtain ⟨hk, rfl, hbehind⟩ := Scan.mk.inj h
  have hread : stretch (fun c => base.hasDigit c || c = '_')
      (cs.takeWhile (fun c => base.hasDigit c || c = '_') ++ (kept ++ rest))
      = (cs.takeWhile (fun c => base.hasDigit c || c = '_'), kept ++ rest) := by
    rw [← hbehind, List.takeWhile_append_dropWhile]
    rfl
  obtain ⟨htake, hdrop⟩ := Prod.mk.inj
    (stopsAtBlank_stretch (isDigitOf_of_isBlank base) hread hrest)
  refine ⟨_, rfl, ?_⟩
  unfold announced
  dsimp only
  rw [htake, hdrop, hk]

/-- White space is not among the first two characters if these are no white space. -/
theorem front_of_append {text rest' cs : List Char} {c d : Char} (hrest : EndsToken rest')
    (hc : Text.isBlank c = false) (hd : Text.isBlank d = false)
    (h : text ++ rest' = c :: d :: cs) : ∃ ds, text = c :: d :: ds := by
  cases text with
  | nil =>
    rw [List.nil_append] at h
    rw [h] at hrest
    exact absurd rfl (hrest.head_ne hc c rfl)
  | cons e text =>
    obtain ⟨rfl, htail⟩ := List.cons.inj h
    cases text with
    | nil =>
      have hfront : rest' = d :: cs := htail
      rw [hfront] at hrest
      exact absurd rfl (hrest.head_ne hd d rfl)
    | cons f text =>
      obtain ⟨rfl, -⟩ := List.cons.inj htail
      exact ⟨text, rfl⟩

theorem keepsToken_number : KeepsToken number := by
  intro k text kept rest rest' h hrest
  unfold number at h
  split at h
  case h_7 hx hX hb hB ho hO =>
    have hagain := keepsToken_decimal h hrest
    -- A letter that announces a base would be in the text that was read, or kept.
    have hnone : ∀ {d : Char} {ds : List Char}, Text.isBlank d = false →
        text ++ (kept ++ rest') = '0' :: d :: ds →
        ∃ ds', text ++ (kept ++ rest) = '0' :: d :: ds' := by
      intro d ds hd heq
      rw [← List.append_assoc] at heq
      obtain ⟨ds', hfront⟩ := front_of_append hrest (by decide) hd heq
      rw [← List.append_assoc, hfront]
      exact ⟨ds' ++ rest, rfl⟩
    unfold number
    split
    case h_7 => exact hagain
    all_goals
      rename_i heq
      obtain ⟨ds', hfront⟩ := hnone (by decide) heq
      simp_all
  all_goals
    obtain ⟨digits, htext, hagain⟩ := announced_again h hrest
    rw [htext] at hagain ⊢
    exact hagain

theorem settles_number (cs : List Char) : Settles number cs :=
  keepsToken_number.settles (number_text_append_rest cs)

theorem quoted_cons {quote c : Char} (hc : c ≠ '\\') (cs : List Char) :
    quoted quote (c :: cs) = if c = quote then (.closed, [c], cs)
      else if c = '\n' then (.unclosed, [c], cs)
      else ((quoted quote cs).1, c :: (quoted quote cs).2.1, (quoted quote cs).2.2) := by
  rw [quoted]
  · rintro rfl
    exact absurd rfl hc
  · rintro _ _ rfl
    exact absurd rfl hc

/-- A character that is read for itself is no backslash. -/
theorem ne_backslash {c : Char} {cs : List Char} (hend : c = '\\' → cs = [] → False)
    (hmore : ∀ d ds, c = '\\' → cs = d :: ds → False) : c ≠ '\\' := by
  intro hc
  cases cs with
  | nil => exact hend hc rfl
  | cons d ds => exact hmore d ds hc rfl

/-- What stands behind the closing quote is not looked at. -/
theorem quoted_again {quote : Char} {cs text rest : List Char}
    (h : quoted quote cs = (.closed, text, rest)) (rest' : List Char) :
    quoted quote (text ++ rest') = (.closed, text, rest') := by
  fun_induction quoted quote cs generalizing text with
  | case1 => cases h
  | case2 => cases h
  | case3 c cs ending inner rest₁ hinner ih =>
    obtain ⟨rfl, htext, rfl⟩ : ending = .closed ∧ '\\' :: c :: inner = text ∧ rest₁ = rest := by
      simpa using h
    subst htext
    have hagain := ih hinner
    rw [List.cons_append, List.cons_append, quoted, hagain]
  | case4 cs hend hmore =>
    obtain ⟨-, htext⟩ := Prod.mk.inj h
    obtain ⟨rfl, rfl⟩ := Prod.mk.inj htext
    rw [List.singleton_append, quoted_cons (ne_backslash hend hmore), if_pos rfl]
  | case5 => cases h
  | case6 c cs hend hmore hquote hline ending inner rest₁ hinner ih =>
    obtain ⟨rfl, htext, rfl⟩ : ending = .closed ∧ c :: inner = text ∧ rest₁ = rest := by
      simpa using h
    subst htext
    rw [List.cons_append, quoted_cons (ne_backslash hend hmore), if_neg hquote, if_neg hline,
      ih hinner]

theorem string_again {cs : List Char} {k : TokenKind} (hk : (string cs).outcome = .ok k)
    (rest' : List Char) :
    ∃ text, (string cs).text = '\x22' :: text ∧
      string (text ++ rest') = ⟨.ok k, '\x22' :: text, rest'⟩ := by
  unfold string at hk ⊢
  rcases hquoted : quoted '\x22' cs with ⟨ending, text, rest⟩
  rw [hquoted] at hk
  dsimp only at hk ⊢
  split at hk
  · refine ⟨text, rfl, ?_⟩
    rw [quoted_again hquoted, ← hk]
  · cases hk
  · cases hk

theorem rune_again {cs : List Char} {k : TokenKind} (hk : (rune cs).outcome = .ok k)
    (rest' : List Char) :
    ∃ text, (rune cs).text = '\x27' :: text ∧
      rune (text ++ rest') = ⟨.ok k, '\x27' :: text, rest'⟩ := by
  unfold rune at hk ⊢
  rcases hquoted : quoted '\x27' cs with ⟨ending, text, rest⟩
  rw [hquoted] at hk
  dsimp only at hk ⊢
  split at hk
  · refine ⟨text, rfl, ?_⟩
    rw [quoted_again hquoted, ← hk]
  · cases hk
  · cases hk

theorem rawString_again {cs : List Char} {k : TokenKind}
    (hk : (rawString cs).outcome = .ok k) (rest' : List Char) :
    ∃ text, (rawString cs).text = '\x60' :: text ∧
      rawString (text ++ rest') = ⟨.ok k, '\x60' :: text, rest'⟩ := by
  have hstop := List.head?_dropWhile_not (· != '\x60') cs
  unfold rawString at hk ⊢
  dsimp only at hk ⊢
  split at hk
  · cases hk
  · rename_i c rest hbehind
    rw [hbehind] at hstop
    have hbody : ∀ d ∈ cs.takeWhile (· != '\x60'), (d != '\x60') = true := by
      intro d hd
      have hinside := List.mem_takeWhile_imp hd
      exact hinside
    have hclose : ∀ d ∈ (c :: rest').head?, (d != '\x60') = false := by
      intro d hd
      obtain rfl := Option.some.inj hd
      simpa using hstop
    obtain ⟨htake, hdrop⟩ := takeWhile_append_of_head hbody hclose
    refine ⟨cs.takeWhile (· != '\x60') ++ [c], rfl, ?_⟩
    rw [List.append_assoc, List.singleton_append, htake, hdrop, ← hk]
    rfl

/-- A number that begins with a point has a digit behind it. -/
theorem startsNumber_again {c : Char} {cs ds rest' : List Char} (h : startsNumber c cs)
    (htext : (number (c :: cs)).text = c :: ds) : startsNumber c (ds ++ rest') := by
  rcases Bool.or_eq_true_iff.mp h with hdigit | hpoint
  · exact Bool.or_eq_true_iff.mpr (.inl hdigit)
  obtain ⟨hc, hhead⟩ := Bool.and_eq_true_iff.mp hpoint
  obtain rfl := of_decide_eq_true hc
  cases cs with
  | nil => cases hhead
  | cons d cs =>
    have hd : d.isDigit := hhead
    have hdecimal : number ('.' :: d :: cs) = decimal ('.' :: d :: cs) := rfl
    have hlong := decimal_text_length ('.' :: d :: cs)
    have hall := decimal_text_append_rest ('.' :: d :: cs)
    rw [hdecimal] at htext
    rw [htext] at hlong hall
    have hwhole : ('.' :: d :: cs).takeWhile isDecimal = [] := rfl
    have hpoint : ('.' :: d :: cs).dropWhile isDecimal = '.' :: d :: cs := rfl
    have hmore : isDecimal d := Bool.or_eq_true_iff.mpr (.inl hd)
    rw [hwhole, hpoint, fraction, List.takeWhile_cons_of_pos hmore] at hlong
    cases ds with
    | nil =>
      simp only [List.length_cons, List.length_nil] at hlong
      omega
    | cons e ds =>
      obtain ⟨rfl, -⟩ := List.cons.inj (List.cons.inj hall).2
      exact hd

theorem number_again {c : Char} {cs rest' : List Char} {k : TokenKind}
    (hc : ¬ startsIdentifier c) (hnumber : startsNumber c cs)
    (hk : (number (c :: cs)).outcome = .ok k) (hrest : EndsToken rest') :
    IsLexeme k (number (c :: cs)).text rest' := by
  have hall := number_text_append_rest (c :: cs)
  obtain ⟨d, ds, htext⟩ := List.exists_cons_of_ne_nil
    (List.ne_nil_of_length_pos (number_text_length_pos hnumber))
  have hagain := settles_number (c :: cs) hk hrest
  rw [htext] at hall hagain
  obtain ⟨rfl, -⟩ := List.cons.inj hall
  rw [htext]
  have hfirst : Text.isBlank d = false ∧ d ≠ '/' := by
    rcases Bool.or_eq_true_iff.mp hnumber with hdigit | hpoint
    · refine ⟨(digit_facts hdigit).1, ?_⟩
      rintro rfl
      cases hdigit
    · obtain rfl := of_decide_eq_true (Bool.and_eq_true_iff.mp hpoint).1
      exact ⟨by decide, by decide⟩
  refine ⟨d, ds, rfl, hfirst.1, opensComment_of_ne hfirst.2, ?_⟩
  rw [scan, if_neg hc, if_pos (startsNumber_again hnumber htext)]
  exact hagain

theorem symbol_again {c : Char} {cs rest' : List Char} {k : TokenKind}
    (hk : (symbol c cs).outcome = .ok k) (hrest : EndsToken rest') :
    IsLexeme k (symbol c cs).text rest' := by
  have htext := (symbol_sound c cs k hk).2
  obtain ⟨s, rfl⟩ : ∃ s, k = .symbol s := by
    unfold symbol at hk
    split at hk
    · exact ⟨_, (Except.ok.inj hk).symm⟩
    · cases hk
  rw [htext s rfl]
  by_cases hdot : s = .dot
  · subst hdot
    have hnumber : startsNumber '.' rest' = false := by
      cases rest' with
      | nil => rfl
      | cons d rest' =>
        have hdigit : d.isDigit = false :=
          of_isBlank (P := fun d => d.isDigit = false) (by decide) d (hrest d rfl)
        simp [startsNumber, hdigit]
    have hleading := Symbol.leading?_append (s := .dot)
      fun c hc => Symbol.extendedBy_eq_false (hrest.endsSymbol c hc) .dot
    refine ⟨'.', [], rfl, by decide, rfl, ?_⟩
    rw [List.nil_append, scan, if_neg (by decide), if_neg (by simp [hnumber]), if_neg (by decide),
      if_neg (by decide), if_neg (by decide), symbol]
    have hfound : Symbol.leading? ('.' :: rest') = some .dot := hleading
    rw [hfound]
    rfl
  · exact isLexeme_of_endsSymbol hdot hrest.endsSymbol

end Scan

open Scan in
/-- What is read as a token is read as the same token in front of white space. -/
theorem isLexeme_of_scan {c : Char} {cs rest' : List Char} {k : TokenKind}
    (h : (scan c cs).outcome = .ok k) (hrest : EndsToken rest') :
    IsLexeme k (scan c cs).text rest' := by
  unfold scan at h ⊢
  split at h
  · rename_i hc
    have hword : isWordText (word (c :: cs)).text := by
      simp [word, continuesIdentifier_of_startsIdentifier hc, isWordText, hc]
    obtain rfl := Except.ok.inj h
    rw [if_pos hc]
    exact isLexeme_word hword hrest.continuesIdentifier
  rename_i hc
  rw [if_neg hc]
  split at h
  · rename_i hnumber
    rw [if_pos hnumber]
    exact number_again hc hnumber h hrest
  rename_i hnumber
  rw [if_neg hnumber]
  split at h
  · rename_i hquote
    subst hquote
    obtain ⟨text, htext, hagain⟩ := string_again h rest'
    rw [if_pos rfl, htext]
    exact ⟨_, text, rfl, by decide, rfl, hagain⟩
  rename_i hquote
  rw [if_neg hquote]
  split at h
  · rename_i hraw
    subst hraw
    obtain ⟨text, htext, hagain⟩ := rawString_again h rest'
    rw [if_pos rfl, htext]
    exact ⟨_, text, rfl, by decide, rfl, hagain⟩
  rename_i hraw
  rw [if_neg hraw]
  split at h
  · rename_i hrune
    subst hrune
    obtain ⟨text, htext, hagain⟩ := rune_again h rest'
    rw [if_pos rfl, htext]
    exact ⟨_, text, rfl, by decide, rfl, hagain⟩
  · rename_i hrune
    rw [if_neg hrune]
    exact symbol_again h hrest

end BoundedGo
