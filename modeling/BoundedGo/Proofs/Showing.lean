import BoundedGo.Proofs.Spellings
import Mathlib.Data.List.Forall2

/-!
What tokens show. Of a name or a literal the text counts, of a symbol or a keyword only the kind:
a semicolon is a semicolon, whether it is written or stands for the end of a line. Where the
tokens stand does not count either. So a list of pieces stands for many lists of tokens, which no
parser tells apart.
-/
namespace BoundedGo

/-- The kinds of tokens whose text counts. -/
def TokenKind.hasText : TokenKind → Bool
  | .ident | .literal _ => true
  | _ => false

structure Token.Shows (t : Token) (p : Piece) : Prop where
  kind_eq : t.kind = p.1
  lexeme_eq : p.1.hasText → t.lexeme = p.2

/-- Tokens that show pieces one by one. -/
abbrev Shows (ts : List Token) (ps : List Piece) : Prop := List.Forall₂ Token.Shows ts ps

theorem Token.shows_piece (t : Token) : t.Shows t.piece := ⟨rfl, fun _ => rfl⟩

/-- A token with the text of a piece, at the start of the source. -/
def Token.ofPiece (p : Piece) : Token := ⟨p.1, p.2, ⟨Position.origin, Position.origin⟩⟩

namespace Shows

variable {ts : List Token} {p : Piece} {ps qs : List Piece}

theorem of_pieces (h : ts.map Token.piece = ps) : Shows ts ps := by
  subst h
  rw [Shows, List.forall₂_map_right_iff]
  exact List.forall₂_same.mpr fun t _ => t.shows_piece

theorem ofPieces (ps : List Piece) : Shows (ps.map Token.ofPiece) ps := by
  refine of_pieces ?_
  rw [List.map_map]
  exact List.map_id ps

theorem eq_nil (h : Shows ts []) : ts = [] := List.forall₂_nil_right_iff.mp h

theorem exists_cons (h : Shows ts (p :: ps)) :
    ∃ t rest, ts = t :: rest ∧ t.Shows p ∧ Shows rest ps := by
  obtain ⟨t, rest, ht, hrest, rfl⟩ := List.forall₂_cons_right_iff.mp h
  exact ⟨t, rest, rfl, ht, hrest⟩

theorem exists_single (h : Shows ts [p]) : ∃ t, ts = [t] ∧ t.Shows p := by
  obtain ⟨t, rest, rfl, ht, hrest⟩ := h.exists_cons
  obtain rfl := hrest.eq_nil
  exact ⟨t, rfl, ht⟩

theorem exists_append (h : Shows ts (ps ++ qs)) :
    ∃ us vs, ts = us ++ vs ∧ Shows us ps ∧ Shows vs qs := by
  induction ps generalizing ts with
  | nil => exact ⟨[], ts, rfl, .nil, h⟩
  | cons p ps ih =>
    obtain ⟨t, rest, rfl, ht, hrest⟩ := h.exists_cons
    obtain ⟨us, vs, rfl, hus, hvs⟩ := ih hrest
    exact ⟨t :: us, vs, rfl, .cons ht hus, hvs⟩

end Shows

end BoundedGo
