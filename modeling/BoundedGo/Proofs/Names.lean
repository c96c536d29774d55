import BoundedGo.Proofs.Answers
import BoundedGo.Proofs.RegularTrees

/-!
What names are made of. A token that is an identifier begins with a letter or an underscore and goes
on with letters, underscores and numbers; so do all the names of a file that is read from a source.
None of these characters is white space or has a meaning in the program that is written.
-/
namespace BoundedGo

namespace Scan

theorem not_ident_of_findsLiteral {found : Scan} (h : found.FindsLiteral) :
    found.outcome ≠ .ok .ident := by
  intro hident
  obtain ⟨form, hform⟩ := h _ hident
  cases hform

end Scan

open Scan in
/-- Only words are read as identifiers. -/
theorem isWordText_of_scan {c : Char} {cs : List Char} (h : (scan c cs).outcome = .ok .ident) :
    isWordText (scan c cs).text := by
  unfold scan at h ⊢
  split at h
  · rename_i hc
    simp [word, continuesIdentifier_of_startsIdentifier hc, isWordText, hc]
  split at h
  · exact absurd h (not_ident_of_findsLiteral (number_literal _))
  split at h
  · exact absurd h (not_ident_of_findsLiteral (string_only _).findsLiteral)
  split at h
  · exact absurd h (not_ident_of_findsLiteral (rawString_only _).findsLiteral)
  split at h
  · exact absurd h (not_ident_of_findsLiteral (rune_only _).findsLiteral)
  · unfold symbol at h
    split at h
    · cases h
    · cases h

/-- Whether an identifier is spelled as one. Of other pieces nothing is asked. -/
def IsSpelled (piece : Piece) : Prop := piece.1 = .ident → isWordText piece.2.toList

namespace Lexer

/-- What holds of the marks of an end, and of all that the reader of an element finds, holds of
every token that a lexer answers. -/
theorem of_next {P : Piece → Prop} (hend : ∀ text, P (.eof, text) ∧ P (.symbol .semicolon, text))
    (hscan : ∀ c cs k, (scan c cs).outcome = .ok k → P (k, String.ofList (scan c cs).text))
    {l : Lexer} {t : Token} (h : l.next.1 = .ok t) : P t.piece := by
  unfold next at h
  dsimp only at h
  split at h
  · obtain rfl := Except.ok.inj h
    exact (hend _).2
  · cases h
  · split at h
    · obtain rfl := Except.ok.inj h
      dsimp only [Token.piece, atEnd]
      split
      · exact (hend _).2
      · exact (hend _).1
    · rename_i c cs _
      unfold element at h
      dsimp only at h
      split at h
      · rename_i kind houtcome
        obtain rfl := Except.ok.inj h
        exact hscan c cs kind houtcome
      · cases h

/-- Every token of a text is answered by a lexer. -/
theorem exists_next_of_mem {l : Lexer} {ts : List Token} {t : Token} (h : l.tokens = .ok ts)
    (ht : t ∈ ts) : ∃ l' : Lexer, l'.next.1 = .ok t := by
  fun_induction Lexer.tokens l generalizing ts with
  | case1 => cases h
  | case2 l _ _ hnext _ =>
    obtain rfl := Except.ok.inj h
    obtain rfl := List.mem_singleton.mp ht
    exact ⟨l, by rw [hnext]⟩
  | case3 l _ _ hnext _ rest hrest ih =>
    obtain rfl := Except.ok.inj h
    rcases List.mem_cons.mp ht with rfl | ht
    · exact ⟨l, by rw [hnext]⟩
    · exact ih hrest ht
  | case4 => cases h

theorem of_tokens {P : Piece → Prop}
    (hend : ∀ text, P (.eof, text) ∧ P (.symbol .semicolon, text))
    (hscan : ∀ c cs k, (scan c cs).outcome = .ok k → P (k, String.ofList (scan c cs).text))
    {l : Lexer} {ts : List Token} (h : l.tokens = .ok ts) : ∀ t ∈ ts, P t.piece := by
  intro t ht
  obtain ⟨l', hnext⟩ := exists_next_of_mem h ht
  exact of_next hend hscan hnext

theorem isSpelled_tokens {l : Lexer} {ts : List Token} (h : l.tokens = .ok ts) :
    ∀ t ∈ ts, IsSpelled t.piece := by
  refine of_tokens (fun _ => ⟨nofun, nofun⟩) (fun c cs k hk hident => ?_) h
  obtain rfl : k = .ident := hident
  simpa using isWordText_of_scan hk

end Lexer

/-- All names of a source file are spelled as identifiers are. -/
theorem spelled_of_parseFile {source : String} {file : File} (h : parseFile source = .ok file) :
    ∀ d ∈ file.decls, d.Regular IsSpelled := by
  obtain ⟨us, eof, s, hts, -⟩ := Parse.exists_run_of_parseFile h
  exact regular_of_parseFile h hts (Lexer.isSpelled_tokens hts)

end BoundedGo
