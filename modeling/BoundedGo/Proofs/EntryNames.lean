import BoundedGo.Proofs.Respelling
import BoundedGo.Settings

/-!
The settings and the lexer on the name of the entry. The settings look at its characters only, in
the way the lexer looks at those of a word; but the lexer has reserved words among its words, and
the settings take these for names of functions.
Main statement: the settings accept what is read as one identifier and the reserved words, so they
agree with the lexer on all other texts (`check_iff_readsAsIdentifier`).
-/
namespace BoundedGo

/-- A text whose tokens are one identifier, which is the text, and the end of the source. -/
def ReadsAsIdentifier (text : String) : Prop :=
  ∃ ts, tokenize text = .ok ts ∧
    ts.map Token.piece = [(.ident, text), (.symbol .semicolon, ""), (.eof, "")]

namespace Scan

theorem wordKind_spelling (w : Keyword) : wordKind w.spelling.toList = .keyword w := by
  cases w <;> decide

/-- The words that are not reserved are identifiers. -/
theorem wordKind_eq_ident_iff {text : String} :
    wordKind text.toList = .ident ↔ ∀ w : Keyword, w.spelling ≠ text := by
  constructor
  · rintro hident w rfl
    rw [wordKind_spelling] at hident
    cases hident
  · intro hfree
    have hnone : Keyword.ofSpelling? text = none :=
      List.find?_eq_none.mpr fun w _ => by simpa using hfree w
    rw [wordKind, String.ofList_toList, hnone]

end Scan

/-- The reserved words have the form of names. -/
theorem isWordText_spelling (w : Keyword) : isWordText w.spelling.toList := by
  cases w <;> decide

/-- A word is read as one token. The end of the source ends a statement behind it or not. -/
theorem tokenize_word {text : String} (h : isWordText text.toList) :
    ∃ ts, tokenize text = .ok ts ∧ ts.map Token.piece = (Scan.wordKind text.toList, text) ::
      if (Scan.wordKind text.toList).endsStatement then [finalSemicolon, sourceEnd]
      else [sourceEnd] := by
  have hword : Lexes false ([] ++ text.toList) [(Scan.wordKind text.toList, text)]
      (Scan.wordKind text.toList).endsStatement [] :=
    .word [] text nofun h nofun
  have hend := fun position => Lexer.tokens_filler [] nofun position
    (Scan.wordKind text.toList).endsStatement
  have htokens := hword.tokens_append hend Position.origin
  rwa [List.nil_append, List.append_nil] at htokens

/-- What is read as one identifier is a word that is not reserved. -/
theorem readsAsIdentifier_iff {text : String} :
    ReadsAsIdentifier text ↔ isWordText text.toList ∧ ∀ w : Keyword, w.spelling ≠ text := by
  constructor
  · rintro ⟨ts, hts, hpieces⟩
    have hword : isWordText text.toList := by
      have hmem : (TokenKind.ident, text) ∈ ts.map Token.piece := by
        rw [hpieces]
        exact List.mem_cons_self
      obtain ⟨t, ht, hpiece⟩ := List.mem_map.mp hmem
      have hspelled := Lexer.isSpelled_tokens hts t ht
      rw [hpiece] at hspelled
      exact hspelled rfl
    obtain ⟨us, hus, hkind⟩ := tokenize_word hword
    obtain rfl := Except.ok.inj (hts.symm.trans hus)
    rw [hpieces] at hkind
    have hident : TokenKind.ident = Scan.wordKind text.toList :=
      congrArg Prod.fst (List.cons.inj hkind).1
    exact ⟨hword, Scan.wordKind_eq_ident_iff.mp hident.symm⟩
  · rintro ⟨hword, hfree⟩
    have htokens := tokenize_word hword
    rwa [Scan.wordKind_eq_ident_iff.mpr hfree] at htokens

/-- The settings ask for the characters of a word. -/
theorem Settings.check_eq_ok_iff (s : Settings) :
    s.check = .ok () ↔ isWordText s.entry.toList := by
  unfold check
  cases s.entry.toList with
  | nil => simp [isWordText]
  | cons c cs =>
    by_cases hword : isWordText (c :: cs)
    · exact iff_of_true (if_pos hword) hword
    · refine iff_of_false (fun h => ?_) hword
      cases (if_neg hword).symm.trans h

/-- The settings accept the texts that are read as one identifier, and the reserved words besides.
They agree with the lexer on a text exactly if it is no reserved word. -/
theorem check_iff_readsAsIdentifier (s : Settings) :
    (s.check = .ok () ↔ ReadsAsIdentifier s.entry ∨ ∃ w : Keyword, w.spelling = s.entry) ∧
    ((s.check = .ok () ↔ ReadsAsIdentifier s.entry) ↔ ∀ w : Keyword, w.spelling ≠ s.entry) := by
  rw [s.check_eq_ok_iff, readsAsIdentifier_iff]
  have hreserved : (∃ w : Keyword, w.spelling = s.entry) → isWordText s.entry.toList := by
    rintro ⟨w, hw⟩
    rw [← hw]
    exact isWordText_spelling w
  constructor
  · constructor
    · intro hword
      by_cases hfree : ∀ w : Keyword, w.spelling ≠ s.entry
      · exact .inl ⟨hword, hfree⟩
      · exact .inr (by simpa using hfree)
    · rintro (⟨hword, -⟩ | hword)
      · exact hword
      · exact hreserved hword
  · constructor
    · intro hagree w hw
      exact (hagree.mp (hreserved ⟨w, hw⟩)).2 w hw
    · intro hfree
      exact ⟨fun hword => ⟨hword, hfree⟩, And.left⟩

/-- The reserved word `func` is accepted as the name of the entry, and it is no identifier. -/
theorem check_func_not_identifier :
    (Settings.mk .simplicityHL "func" false .approximate).check = .ok () ∧
      (∃ ts, tokenize "func" = .ok ts ∧
        ts.map Token.piece = [(.keyword .func, "func"), (.eof, "")]) ∧
      ¬ReadsAsIdentifier "func" := by
  have hword : isWordText "func".toList := by decide
  refine ⟨by decide, tokenize_word hword, fun h => ?_⟩
  exact (readsAsIdentifier_iff.mp h).2 .func rfl

end BoundedGo
