import BoundedGo.Proofs.IntegerValues
import BoundedGo.Proofs.Rescanning

/-!
The forms of literals. An announced base and the mark of an exponent ask for digits, and a quoted
literal ends in its line. The readers count an underscore where they look whether there are any
digits, and a backslash takes a line feed with it like any other character. So three forms of
literals are read that are not well formed: a base and an exponent behind which nothing but
underscores stands, and a line feed behind a backslash between quotes.
Main statement: no other literal is malformed (`wellFormed_iff`).
-/
namespace BoundedGo

/-- The parts of a number with an exponent: what stands in front of its mark, the mark, a sign,
digits and the letter of an imaginary number. -/
structure IsExponential (front : List Char) (mark : Char) (sign power suffix : List Char) :
    Prop where
  unmarked : ∀ c ∈ front, c ≠ 'e' ∧ c ≠ 'E'
  marked : mark = 'e' ∨ mark = 'E'
  signed : sign = [] ∨ sign = ['+'] ∨ sign = ['-']
  digits : ∀ c ∈ power, Scan.isDecimal c
  someDigits : power ≠ []
  ended : suffix = [] ∨ suffix = ['i']

/-- A number has one exponent at most. -/
inductive IsDecimalText : List Char → Prop
  | unmarked {text : List Char} (h : ∀ c ∈ text, c ≠ 'e' ∧ c ≠ 'E') : IsDecimalText text
  | marked {front sign power suffix : List Char} {mark : Char}
    (h : IsExponential front mark sign power suffix) :
    IsDecimalText (front ++ mark :: (sign ++ (power ++ suffix)))

namespace Scan

theorem announced_form {base : Base} {intro cs : List Char} {form : LiteralKind}
    (h : (announced base intro cs).outcome = .ok (.literal form)) : form = .int := by
  unfold announced at h
  dsimp only at h
  split at h
  · cases h
  · exact (TokenKind.literal.inj (Except.ok.inj h)).symm

theorem decimal_form {cs : List Char} {form : LiteralKind}
    (h : (decimal cs).outcome = .ok (.literal form)) :
    form = .int ∨ form = .float ∨ form = .imag := by
  obtain ⟨whole, point, mark, power, behind, rfl, hparts⟩ := exists_parts cs
  rw [hparts.decimal_eq] at h
  repeat' split at h
  all_goals cases h
  all_goals decide

theorem number_form {cs : List Char} {form : LiteralKind}
    (h : (number cs).outcome = .ok (.literal form)) :
    form = .int ∨ form = .float ∨ form = .imag := by
  unfold number at h
  split at h
  case h_7 => exact decimal_form h
  all_goals exact .inl (announced_form h)

theorem isDecimal_iff {c : Char} : isDecimal c ↔ c.isDigit ∨ c = '_' := by
  simp [isDecimal]

theorem ne_mark_of_isDecimal {c : Char} (h : isDecimal c) : c ≠ 'e' ∧ c ≠ 'E' := by
  refine ⟨?_, ?_⟩
  · rintro rfl
    cases h
  · rintro rfl
    cases h

theorem isDecimal_of_mem_fraction {cs : List Char} {c : Char} (h : c ∈ (fraction cs).1) :
    c = '.' ∨ isDecimal c := by
  unfold fraction at h
  split at h
  · exact (List.mem_cons.mp h).imp_right List.mem_takeWhile_imp
  · cases h

theorem isDecimal_of_mem_exponentDigits {mark cs : List Char} {c : Char}
    (h : c ∈ (exponentDigits mark cs).1) : isDecimal c := by
  unfold exponentDigits at h
  split at h
  · cases h
  · exact List.mem_takeWhile_imp h

namespace Parts

variable {whole point mark power behind : List Char}

/-- In front of the mark there is no letter. -/
theorem unmarked (h : Parts whole point mark power behind) :
    ∀ c ∈ whole ++ point, c ≠ 'e' ∧ c ≠ 'E' := by
  intro c hc
  have hdigit : c = '.' ∨ isDecimal c := by
    rcases List.mem_append.mp hc with hwhole | hpoint
    · rw [← (Prod.mk.inj h.readsWhole).1] at hwhole
      exact .inr (List.mem_takeWhile_imp hwhole)
    · have hread : (fraction (point ++ (mark ++ (power ++ behind)))).1 = point :=
        congrArg Prod.fst h.readsPoint
      rw [← hread] at hpoint
      exact isDecimal_of_mem_fraction hpoint
  rcases hdigit with rfl | hdigit
  · decide
  · exact ne_mark_of_isDecimal hdigit

theorem digits (h : Parts whole point mark power behind) : ∀ c ∈ power, isDecimal c := by
  intro c hc
  have hread : (exponentDigits mark (power ++ behind)).1 = power :=
    congrArg Prod.fst h.readsPower
  rw [← hread] at hc
  exact isDecimal_of_mem_exponentDigits hc

theorem isDecimalText (h : Parts whole point mark power behind) {suffix : List Char}
    (hsuffix : suffix = [] ∨ suffix = ['i']) (hpower : mark ≠ [] → power ≠ []) :
    IsDecimalText (whole ++ point ++ mark ++ power ++ suffix) := by
  have hmark := markOf_exponentMark (mark ++ (power ++ behind))
  rw [h.readsMark] at hmark
  cases hmark with
  | none =>
    have hnone : power = [] := (Prod.mk.inj h.readsPower).1.symm
    refine .unmarked fun c hc => ?_
    rw [hnone, List.append_nil, List.append_nil, List.mem_append] at hc
    rcases hc with hfront | hend
    · exact h.unmarked c hfront
    · rcases hsuffix with rfl | rfl
      · cases hend
      · obtain rfl := List.mem_singleton.mp hend
        decide
  | @letter c _ hc =>
    have hparts : IsExponential (whole ++ point) c [] power suffix :=
      ⟨h.unmarked, hc, .inl rfl, h.digits, hpower (List.cons_ne_nil _ _), hsuffix⟩
    simpa using IsDecimalText.marked hparts
  | @signed c s _ hc hs =>
    have hsign : [s] = ['+'] ∨ [s] = ['-'] := by simpa using hs
    have hparts : IsExponential (whole ++ point) c [s] power suffix :=
      ⟨h.unmarked, hc, .inr hsign, h.digits, hpower (List.cons_ne_nil _ _), hsuffix⟩
    simpa using IsDecimalText.marked hparts

end Parts

theorem isDecimalText_of_decimal {cs : List Char} {k : TokenKind}
    (hk : (decimal cs).outcome = .ok k) : IsDecimalText (decimal cs).text := by
  obtain ⟨whole, point, mark, power, behind, rfl, hparts⟩ := exists_parts cs
  rw [hparts.decimal_eq] at hk ⊢
  split at hk
  · cases hk
  rename_i hdigits
  have hpower : mark ≠ [] → power ≠ [] := by simpa using hdigits
  have hplain := hparts.isDecimalText (.inl rfl) hpower
  rw [List.append_nil] at hplain
  rw [if_neg hdigits]
  split at hk
  · rename_i hsuffix
    rw [if_pos hsuffix]
    exact hparts.isDecimalText (.inr rfl) hpower
  rename_i hsuffix
  rw [if_neg hsuffix]
  repeat' split
  all_goals exact hplain

end Scan

open Scan in
theorem isDecimalText_of_scan {c : Char} {cs : List Char} {form : LiteralKind}
    (hk : (scan c cs).outcome = .ok (.literal form)) (hform : form = .float ∨ form = .imag) :
    IsDecimalText (scan c cs).text := by
  have hint : form ≠ .int := by
    rintro rfl
    exact hform.elim nofun nofun
  rcases scan_literal hk with ⟨-, -, hnumber⟩ | rfl | rfl
  · rw [hnumber] at hk ⊢
    unfold number at hk ⊢
    split at hk
    case h_7 => exact isDecimalText_of_decimal hk
    all_goals exact absurd (announced_form hk) hint
  · exact hform.elim nofun nofun
  · exact hform.elim nofun nofun

namespace IsExponential

variable {front sign power suffix : List Char} {mark : Char}

theorem notMem_behind (h : IsExponential front mark sign power suffix) {c : Char}
    (hc : c = 'e' ∨ c = 'E') : c ∉ sign ++ (power ++ suffix) := by
  simp only [List.mem_append, not_or]
  refine ⟨?_, fun hmem => ?_, ?_⟩
  · rcases h.signed with rfl | rfl | rfl <;> rcases hc with rfl | rfl <;> decide
  · obtain ⟨hlower, hupper⟩ := Scan.ne_mark_of_isDecimal (h.digits c hmem)
    exact hc.elim hlower hupper
  · rcases h.ended with rfl | rfl <;> rcases hc with rfl | rfl <;> decide

/-- There is one place where the text can be parted at the mark. -/
theorem behind_eq (h : IsExponential front mark sign power suffix) {front' behind : List Char}
    {mark' : Char} (hmark : mark' = 'e' ∨ mark' = 'E')
    (heq : front ++ mark :: (sign ++ (power ++ suffix)) = front' ++ mark' :: behind) :
    sign ++ (power ++ suffix) = behind := by
  have hfront : mark' ∉ front := fun hmem => by
    obtain ⟨hlower, hupper⟩ := h.unmarked mark' hmem
    exact hmark.elim hlower hupper
  exact ((List.append_cons_inj_of_notMem hfront (h.notMem_behind hmark)).mp heq).2.2

/-- The digits of an exponent stand in front of the last letter and behind the sign. -/
theorem exists_isDigit_iff (h : IsExponential front mark sign power suffix) :
    (∃ c ∈ sign ++ (power ++ suffix), c.isDigit) ↔ ∃ c ∈ power, c ≠ '_' := by
  have hsign : ∀ c ∈ sign, c.isDigit = false := by
    rcases h.signed with rfl | rfl | rfl
    · exact List.forall_mem_nil _
    · exact List.forall_mem_singleton.mpr rfl
    · exact List.forall_mem_singleton.mpr rfl
  have hsuffix : ∀ c ∈ suffix, c.isDigit = false := by
    rcases h.ended with rfl | rfl
    · exact List.forall_mem_nil _
    · exact List.forall_mem_singleton.mpr rfl
  refine ⟨?_, ?_⟩
  · rintro ⟨c, hmem, hdigit⟩
    simp only [List.mem_append] at hmem
    rcases hmem with hmem | hmem | hmem
    · rw [hsign c hmem] at hdigit
      cases hdigit
    · refine ⟨c, hmem, ?_⟩
      rintro rfl
      cases hdigit
    · rw [hsuffix c hmem] at hdigit
      cases hdigit
  · rintro ⟨c, hmem, hc⟩
    have hdigit := (Scan.isDecimal_iff.mp (h.digits c hmem)).resolve_right hc
    exact ⟨c, by simp [hmem], hdigit⟩

end IsExponential

namespace Scan

/-- Between quotes a line feed is only read behind a backslash. -/
theorem escaped_of_quoted {quote : Char} (hquote : quote ≠ '\n') {cs text rest : List Char}
    (h : quoted quote cs = (.closed, text, rest)) (hline : '\n' ∈ text) :
    ['\\', '\n'] <:+: text := by
  fun_induction quoted quote cs generalizing text with
  | case1 => cases h
  | case2 => cases h
  | case3 c cs ending inner rest₁ hinner ih =>
    obtain ⟨rfl, rfl, rfl⟩ : ending = .closed ∧ '\\' :: c :: inner = text ∧ rest₁ = rest := by
      simpa using h
    by_cases hc : c = '\n'
    · rw [hc]
      exact (List.prefix_append ['\\', '\n'] inner).isInfix
    · have hmem : '\n' ∈ inner := by simpa [Ne.symm hc] using hline
      exact (ih hinner hmem).trans (List.suffix_append ['\\', c] inner).isInfix
  | case4 cs hend hmore =>
    obtain ⟨-, htext⟩ := Prod.mk.inj h
    obtain ⟨rfl, rfl⟩ := Prod.mk.inj htext
    exact absurd (List.mem_singleton.mp hline).symm hquote
  | case5 => cases h
  | case6 c cs hend hmore hother hfeed ending inner rest₁ hinner ih =>
    obtain ⟨rfl, rfl, rfl⟩ : ending = .closed ∧ c :: inner = text ∧ rest₁ = rest := by
      simpa using h
    have hmem : '\n' ∈ inner := by simpa [Ne.symm hfeed] using hline
    exact (ih hinner hmem).trans (List.suffix_cons c inner).isInfix

theorem escaped_of_closed {quote : Char} (hquote : quote ≠ '\n') {cs : List Char}
    (hclosed : (quoted quote cs).1 = .closed) (hline : '\n' ∈ quote :: (quoted quote cs).2.1) :
    ['\\', '\n'] <:+: quote :: (quoted quote cs).2.1 := by
  rcases hquoted : quoted quote cs with ⟨ending, text, rest⟩
  rw [hquoted] at hclosed hline
  obtain rfl : ending = .closed := hclosed
  have hmem : '\n' ∈ text := (List.mem_cons.mp hline).resolve_left hquote.symm
  exact (escaped_of_quoted hquote hquoted hmem).trans (List.suffix_cons quote text).isInfix

theorem string_closed {cs : List Char} {k : TokenKind} (hk : (string cs).outcome = .ok k) :
    (quoted '\x22' cs).1 = .closed := by
  unfold string at hk
  dsimp only at hk
  split at hk
  · assumption
  · cases hk
  · cases hk

theorem rune_closed {cs : List Char} {k : TokenKind} (hk : (rune cs).outcome = .ok k) :
    (quoted '\x27' cs).1 = .closed := by
  unfold rune at hk
  dsimp only at hk
  split at hk
  · assumption
  · cases hk
  · cases hk

theorem rawString_head? (cs : List Char) : (rawString cs).text.head? = some '\x60' := by
  unfold rawString
  dsimp only
  split <;> rfl

/-- Which readers find strings and runes. -/
theorem scan_quote {c : Char} {cs : List Char} {form : LiteralKind}
    (h : (scan c cs).outcome = .ok (.literal form)) (hform : form = .string ∨ form = .char) :
    scan c cs = string cs ∨ scan c cs = rune cs ∨
      (scan c cs = rawString cs ∧ form = .string) := by
  unfold scan at h ⊢
  split at h
  · unfold word wordKind at h
    dsimp only at h
    split at h
    · cases h
    · cases h
  rename_i hword
  rw [if_neg hword]
  split at h
  · rcases number_form h with rfl | rfl | rfl
    all_goals exact hform.elim nofun nofun
  rename_i hnumber
  rw [if_neg hnumber]
  split
  · exact .inl rfl
  rename_i hquote
  rw [if_neg hquote] at h
  split
  · rename_i hraw
    rw [if_pos hraw] at h
    exact .inr (.inr ⟨rfl, TokenKind.literal.inj (rawString_only _ _ h)⟩)
  rename_i hraw
  rw [if_neg hraw] at h
  split
  · exact .inr (.inl rfl)
  · rename_i hrune
    rw [if_neg hrune] at h
    unfold symbol at h
    split at h
    · cases h
    · cases h

end Scan

open Scan in
theorem escaped_of_scan {c : Char} {cs : List Char} {form : LiteralKind}
    (hk : (scan c cs).outcome = .ok (.literal form))
    (hform : form = .char ∨ form = .string ∧ (scan c cs).text.head? = some '\x22')
    (hline : '\n' ∈ (scan c cs).text) : ['\\', '\n'] <:+: (scan c cs).text := by
  rcases scan_quote hk (hform.symm.imp_left And.left) with hread | hread | ⟨hread, rfl⟩
  · rw [hread] at hk hline ⊢
    exact escaped_of_closed (by decide) (string_closed hk) hline
  · rw [hread] at hk hline ⊢
    exact escaped_of_closed (by decide) (rune_closed hk) hline
  · obtain ⟨-, hhead⟩ := hform.resolve_left nofun
    rw [hread, rawString_head?] at hhead
    cases hhead

namespace Token

/-- A rune, or a string between double quotes. -/
def IsQuoted (t : Token) : Prop :=
  t.kind = .literal .char ∨ t.kind = .literal .string ∧ t.lexeme.toList.head? = some '\x22'

/-- What a literal has to be: a digit stands behind an announced base and in an exponent, and a
quoted literal is written in one line. -/
structure WellFormed (t : Token) : Prop where
  announced : ∀ (base : Base) (letter : Char) (digits : List Char), t.kind = .literal .int →
    letter ∈ base.letters → t.lexeme.toList = '0' :: letter :: digits →
      ∃ c ∈ digits, base.hasDigit c
  exponent : ∀ (front : List Char) (mark : Char) (behind : List Char),
    t.kind = .literal .float ∨ t.kind = .literal .imag → mark = 'e' ∨ mark = 'E' →
      t.lexeme.toList = front ++ mark :: behind → ∃ c ∈ behind, c.isDigit
  quoted : t.IsQuoted → '\n' ∉ t.lexeme.toList

/-- The forms of literals that are read without being well formed. -/
inductive Malformed (t : Token) : Prop
  | announced {base : Base} {letter : Char} {digits : List Char} (hkind : t.kind = .literal .int)
    (hletter : letter ∈ base.letters) (htext : t.lexeme.toList = '0' :: letter :: digits)
    (hsome : digits ≠ []) (hdigits : ∀ c ∈ digits, c = '_')
  | exponent {front sign power suffix : List Char} {mark : Char}
    (hkind : t.kind = .literal .float ∨ t.kind = .literal .imag)
    (htext : t.lexeme.toList = front ++ mark :: (sign ++ (power ++ suffix)))
    (hparts : IsExponential front mark sign power suffix) (hpower : ∀ c ∈ power, c = '_')
  | quoted (hquoted : t.IsQuoted) (hline : ['\\', '\n'] <:+: t.lexeme.toList)

/-- What the readers make sure of in the text of a literal. -/
structure IsRead (t : Token) : Prop where
  integer : t.kind = .literal .int → IsIntegerText t.lexeme.toList
  decimal : t.kind = .literal .float ∨ t.kind = .literal .imag → IsDecimalText t.lexeme.toList
  quoted : t.IsQuoted → '\n' ∈ t.lexeme.toList → ['\\', '\n'] <:+: t.lexeme.toList

theorem isRead_of_next {l : Lexer} {t : Token} (h : l.next.1 = .ok t) : t.IsRead where
  integer := isIntegerText_of_next h
  decimal := by
    refine Lexer.of_next (P := fun piece => piece.1 = .literal .float ∨ piece.1 = .literal .imag →
      IsDecimalText piece.2.toList) (fun _ => ⟨?_, ?_⟩) (fun c cs k hk hform => ?_) h
    · exact fun hform => hform.elim nofun nofun
    · exact fun hform => hform.elim nofun nofun
    · rw [String.toList_ofList]
      rcases hform with rfl | rfl
      · exact isDecimalText_of_scan hk (.inl rfl)
      · exact isDecimalText_of_scan hk (.inr rfl)
  quoted := by
    refine Lexer.of_next (P := fun piece => piece.1 = .literal .char ∨
      piece.1 = .literal .string ∧ piece.2.toList.head? = some '\x22' → '\n' ∈ piece.2.toList →
        ['\\', '\n'] <:+: piece.2.toList) (fun _ => ⟨?_, ?_⟩) (fun c cs k hk hform => ?_) h
    · exact fun hform => hform.elim nofun fun hform => nomatch hform.1
    · exact fun hform => hform.elim nofun fun hform => nomatch hform.1
    · rw [String.toList_ofList] at hform ⊢
      rcases hform with rfl | ⟨rfl, hhead⟩
      · exact escaped_of_scan hk (.inl rfl)
      · exact escaped_of_scan hk (.inr ⟨rfl, hhead⟩)

theorem WellFormed.not_malformed {t : Token} (h : t.WellFormed) : ¬ t.Malformed := by
  intro hmalformed
  cases hmalformed with
  | @announced base _ digits hkind hletter htext _ hdigits =>
    obtain ⟨c, hc, hdigit⟩ := h.announced base _ digits hkind hletter htext
    rw [hdigits c hc] at hdigit
    cases base <;> cases hdigit
  | exponent hkind htext hparts hpower =>
    obtain ⟨c, hc, hother⟩ :=
      hparts.exists_isDigit_iff.mp (h.exponent _ _ _ hkind hparts.marked htext)
    exact hother (hpower c hc)
  | quoted hquoted hline => exact h.quoted hquoted (hline.subset (by simp))

theorem IsRead.wellFormed {t : Token} (hread : t.IsRead) (h : ¬ t.Malformed) : t.WellFormed where
  announced := by
    intro base letter digits hkind hletter htext
    by_contra hnone
    have hform := hread.integer hkind
    rw [htext] at hform
    cases hform with
    | announced hletter' hdigits hsome =>
      obtain rfl := Base.eq_of_mem_letters hletter hletter'
      refine h (.announced hkind hletter htext hsome fun c hc => ?_)
      exact (hdigits c hc).resolve_left fun hdigit => hnone ⟨c, hc, hdigit⟩
    | plain _ hdigits =>
      have hdecimal := hdigits letter List.mem_cons_self
      rw [Base.isDecimal_of_mem_letters hletter] at hdecimal
      cases hdecimal
  exponent := by
    intro front mark behind hkind hmark htext
    have hform := hread.decimal hkind
    generalize hchars : t.lexeme.toList = chars at hform htext
    cases hform with
    | unmarked hnone =>
      obtain ⟨hlower, hupper⟩ := hnone mark (by rw [htext]; simp)
      exact absurd hmark (not_or.mpr ⟨hlower, hupper⟩)
    | marked hparts =>
      -- Wherever the text is parted at a mark, the same digits stand behind it.
      rw [← hparts.behind_eq hmark htext, hparts.exists_isDigit_iff]
      by_contra hnone
      refine h (.exponent hkind hchars hparts fun c hc => ?_)
      by_contra hother
      exact hnone ⟨c, hc, hother⟩
  quoted := fun hquoted hline => h (.quoted hquoted (hread.quoted hquoted hline))

end Token

/-- The literals of a source are well formed but for three forms: a base or an exponent behind which
nothing but underscores stands, and a line feed behind a backslash between quotes. -/
theorem wellFormed_iff {source : String} {ts : List Token} (h : tokenize source = .ok ts) :
    ∀ t ∈ ts, t.WellFormed ↔ ¬ t.Malformed := by
  intro t ht
  obtain ⟨l, hnext⟩ := Lexer.exists_next_of_mem h ht
  exact ⟨Token.WellFormed.not_malformed, (Token.isRead_of_next hnext).wellFormed⟩

/-- Literals of all the forms that are looked at, none of them malformed. -/
theorem wellFormed_iff_literals :
    ∃ ts, tokenize "0x_1F + 1_0.5e-3i + \"\\t\"" = .ok ts ∧
      ts.map Token.piece = [(.literal .int, "0x_1F"), (.symbol .plus, "+"),
        (.literal .imag, "1_0.5e-3i"), (.symbol .plus, "+"), (.literal .string, "\"\\t\""),
        (.symbol .semicolon, ""), (.eof, "")] ∧
      ∀ t ∈ ts, t.WellFormed ↔ ¬ t.Malformed := by
  have hpieces : (tokenize "0x_1F + 1_0.5e-3i + \"\\t\"").toOption.map (List.map Token.piece)
      = some [(.literal .int, "0x_1F"), (.symbol .plus, "+"),
        (.literal .imag, "1_0.5e-3i"), (.symbol .plus, "+"), (.literal .string, "\"\\t\""),
        (.symbol .semicolon, ""), (.eof, "")] := by
    decide +kernel
  obtain ⟨ts, hts, hpieces⟩ := exists_tokens_of_map hpieces
  exact ⟨ts, hts, hpieces, wellFormed_iff hts⟩

/-- A base and an exponent with an underscore instead of digits, and a string over two lines. -/
theorem malformed_literals_read :
    ∃ ts, tokenize "0x_ + 1e_ + \"\\\n\"" = .ok ts ∧
      ∀ piece ∈ [(.literal .int, "0x_"), (.literal .float, "1e_"), (.literal .string, "\"\\\n\"")],
        ∃ t ∈ ts, t.piece = piece ∧ ¬ t.WellFormed := by
  have hpieces : (tokenize "0x_ + 1e_ + \"\\\n\"").toOption.map (List.map Token.piece)
      = some [(.literal .int, "0x_"), (.symbol .plus, "+"), (.literal .float, "1e_"),
        (.symbol .plus, "+"), (.literal .string, "\"\\\n\""), (.symbol .semicolon, ""),
        (.eof, "")] := by
    decide +kernel
  obtain ⟨ts, hts, hpieces⟩ := exists_tokens_of_map hpieces
  refine ⟨ts, hts, fun piece hpiece => ?_⟩
  have hmem : piece ∈ ts.map Token.piece := by
    rw [hpieces]
    revert piece
    decide
  obtain ⟨t, ht, rfl⟩ := List.mem_map.mp hmem
  refine ⟨t, ht, rfl, fun hwell => hwell.not_malformed ?_⟩
  simp only [List.mem_cons, List.not_mem_nil, or_false] at hpiece
  rcases hpiece with hpiece | hpiece | hpiece
  · obtain ⟨hkind, htext⟩ := Prod.mk.inj hpiece
    exact @Token.Malformed.announced t .hex 'x' ['_'] hkind (by decide) (by rw [htext]; rfl)
      (by decide) (List.forall_mem_singleton.mpr rfl)
  · obtain ⟨hkind, htext⟩ := Prod.mk.inj hpiece
    have hparts : IsExponential ['1'] 'e' [] ['_'] [] := by
      refine ⟨?_, .inl rfl, .inl rfl, ?_, List.cons_ne_nil _ _, .inl rfl⟩
      · exact List.forall_mem_singleton.mpr (by decide)
      · exact List.forall_mem_singleton.mpr rfl
    exact .exponent (.inl hkind) (by rw [htext]; rfl) hparts (List.forall_mem_singleton.mpr rfl)
  · obtain ⟨hkind, htext⟩ := Prod.mk.inj hpiece
    have hquote : t.lexeme.toList = ['\x22', '\\', '\n', '\x22'] := by rw [htext]; rfl
    exact .quoted (.inr ⟨hkind, by rw [hquote]; rfl⟩) (by rw [hquote]; decide)

end BoundedGo
