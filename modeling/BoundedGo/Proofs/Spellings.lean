import BoundedGo.Proofs.Lexemes
import BoundedGo.Token.Lexer

/-!
Texts that are read as given tokens. Between the tokens stands white space, without a line feed
where that would end a statement. What a token is read from does not depend on the text behind it,
as long as that text does not go on with the token; so the tokens of a text are those of its
stretches, one after the other.
Main statements: texts that are read in a row are read as their tokens in a row (`Lexes.trans`),
and a text that is read up to its end has these tokens (`Lexes.tokenize`).
-/
namespace BoundedGo

/-- A token without its place in the source. -/
abbrev Piece := TokenKind × String

def Token.piece (t : Token) : Piece := (t.kind, t.lexeme)

def Symbol.piece (s : Symbol) : Piece := (.symbol s, s.spelling)

def Keyword.piece (w : Keyword) : Piece := (.keyword w, w.spelling)

/-- The semicolon that stands for the end of a line. -/
def lineEnd : Piece := (.symbol .semicolon, "\n")

/-- White space that ends no statement. -/
def IsFiller (pending : Bool) (cs : List Char) : Prop :=
  ∀ c ∈ cs, Text.isBlank c ∧ (pending → c ≠ '\n')

instance (pending : Bool) (cs : List Char) : Decidable (IsFiller pending cs) :=
  List.decidableBAll (fun c => Text.isBlank c ∧ (pending → c ≠ '\n')) cs

theorem gap_filler {pending : Bool} {filler : List Char} (h : IsFiller pending filler)
    (cs : List Char) : gap pending (filler ++ cs) = (gap pending cs).after filler := by
  induction filler with
  | nil => simp [Gap.after]
  | cons c filler ih =>
    obtain ⟨hblank, hline⟩ := h c List.mem_cons_self
    have hrest := ih fun d hd => h d (List.mem_cons_of_mem _ hd)
    have hslash : c ≠ '/' := by
      rintro rfl
      exact absurd hblank (by decide)
    rw [List.cons_append, gap.eq_def]
    split
    · rename_i heq
      cases heq
    · rename_i heq
      obtain ⟨rfl, rfl⟩ := List.cons.inj heq
      have hpending : pending = false := by
        cases pending
        · rfl
        · exact absurd rfl (hline rfl)
      subst hpending
      rw [if_neg Bool.false_ne_true, hrest]
      rfl
    · rename_i heq
      exact absurd (List.cons.inj heq).1 hslash
    · rename_i heq
      exact absurd (List.cons.inj heq).1 hslash
    · rename_i heq
      obtain ⟨rfl, rfl⟩ := List.cons.inj heq
      rw [if_pos hblank, hrest]
      rfl

theorem gap_nil (pending : Bool) : gap pending [] = ⟨.element, [], []⟩ := by
  rw [gap.eq_def]

theorem gap_line (cs : List Char) : gap true ('\n' :: cs) = ⟨.line, ['\n'], cs⟩ := by
  rw [gap.eq_def]
  rfl

theorem gap_element {pending : Bool} {c : Char} {cs : List Char} (hblank : Text.isBlank c = false)
    (hcomment : opensComment (c :: cs) = false) :
    gap pending (c :: cs) = ⟨.element, [], c :: cs⟩ := by
  rw [gap.eq_def]
  split
  · rename_i heq
    cases heq
  · rename_i heq
    obtain ⟨rfl, rfl⟩ := List.cons.inj heq
    exact absurd hblank (by decide)
  · rename_i heq
    rw [heq] at hcomment
    cases hcomment
  · rename_i heq
    rw [heq] at hcomment
    cases hcomment
  · rename_i heq
    obtain ⟨rfl, rfl⟩ := List.cons.inj heq
    rw [if_neg (by simp [hblank])]

namespace Lexer

theorem next_of_element {l : Lexer} {skipped text rest cs : List Char} {c : Char} {k : TokenKind}
    (hgap : gap l.pending l.rest = ⟨.element, skipped, c :: cs⟩)
    (hscan : scan c cs = ⟨.ok k, text, rest⟩) :
    l.next = (.ok ⟨k, String.ofList text, ⟨l.position.advance skipped,
        (l.position.advance skipped).advance text⟩⟩,
      ⟨rest, (l.position.advance skipped).advance text, k.endsStatement⟩) := by
  simp only [next, hgap, past, element, hscan]

theorem next_of_line {l : Lexer} {skipped rest : List Char}
    (hgap : gap l.pending l.rest = ⟨.line, skipped, rest⟩) :
    l.next = (.ok ⟨.symbol .semicolon, "\n", ⟨l.position.advance skipped,
        l.position.advance skipped⟩⟩, ⟨rest, l.position.advance skipped, false⟩) := by
  simp only [next, hgap, past]

/-- The tokens of the next answers, none of which is the end of the source. -/
inductive Emits : Lexer → List Token → Lexer → Prop
  | nil (l : Lexer) : Emits l [] l
  | cons {l l' l'' : Lexer} {t : Token} {ts : List Token} (h : l.next = (.ok t, l'))
    (ht : t.kind ≠ .eof) (hrest : Emits l' ts l'') : Emits l (t :: ts) l''

theorem Emits.append {l l' l'' : Lexer} {ts us : List Token} (h : Emits l ts l')
    (h' : Emits l' us l'') : Emits l (ts ++ us) l'' := by
  induction h with
  | nil => exact h'
  | cons hnext ht _ ih => exact .cons hnext ht (ih h')

theorem Emits.tokens_append {l l' : Lexer} {ts us : List Token} (h : Emits l ts l')
    (hrest : l'.tokens = .ok us) : l.tokens = .ok (ts ++ us) := by
  induction h with
  | nil => exact hrest
  | cons hnext hne _ ih =>
    rw [Lexer.tokens]
    split
    · rename_i heq
      rw [hnext] at heq
      cases heq
    · rename_i heq
      rw [hnext] at heq
      obtain ⟨htoken, rfl⟩ := Prod.mk.inj heq
      obtain rfl := Except.ok.inj htoken
      rw [dif_neg hne, ih hrest]
      rfl

theorem tokens_of_eof {l : Lexer} {t : Token} (hlast : l.next.1 = .ok t) (ht : t.kind = .eof) :
    l.tokens = .ok [t] := by
  rw [Lexer.tokens]
  split
  · rename_i heq
    rw [heq] at hlast
    cases hlast
  · rename_i heq
    rw [heq] at hlast
    obtain rfl := Except.ok.inj hlast
    rw [dif_pos ht]

/-- Where only white space is left, the source ends; a statement that is pending ends before. -/
theorem next_of_filler {pending : Bool} (filler : List Char) (h : IsFiller pending filler)
    (position : Position) : (Lexer.mk filler position pending).next =
      (.ok (Lexer.mk [] (position.advance filler) pending).atEnd.1,
        (Lexer.mk [] (position.advance filler) pending).atEnd.2) := by
  have hgap : gap pending filler = ⟨.element, filler, []⟩ := by
    have hfront := gap_filler h []
    rw [List.append_nil, gap_nil] at hfront
    simpa [Gap.after] using hfront
  simp only [next, hgap, past]

end Lexer

/-- In front of `rest`, and with a statement pending or not, the text is read as the given tokens,
and behind it a statement is pending or not. -/
def Lexes (pending : Bool) (text : List Char) (ps : List Piece) (pending' : Bool)
    (rest : List Char) : Prop :=
  ∀ position, ∃ ts position', ts.map Token.piece = ps ∧
    Lexer.Emits ⟨text ++ rest, position, pending⟩ ts ⟨rest, position', pending'⟩

namespace Lexes

variable {p q r : Bool} {text text' rest filler : List Char} {ps qs : List Piece}

theorem trans (h : Lexes p text ps q (text' ++ rest)) (h' : Lexes q text' qs r rest) :
    Lexes p (text ++ text') (ps ++ qs) r rest := by
  intro position
  obtain ⟨ts, position', hts, hemits⟩ := h position
  obtain ⟨us, position'', hus, hemits'⟩ := h' position'
  refine ⟨ts ++ us, position'', by rw [List.map_append, hts, hus], ?_⟩
  rw [List.append_assoc]
  exact hemits.append hemits'

theorem cons {piece : Piece} (h : Lexes p text [piece] q (text' ++ rest))
    (h' : Lexes q text' ps r rest) : Lexes p (text ++ text') (piece :: ps) r rest :=
  h.trans h'

/-- White space and the token behind it. -/
theorem token {k : TokenKind} {lexeme : String} (hfiller : IsFiller p filler)
    (h : IsLexeme k lexeme.toList rest) (hk : k ≠ .eof) :
    Lexes p (filler ++ lexeme.toList) [(k, lexeme)] k.endsStatement rest := by
  obtain ⟨c, cs, htext, hblank, hcomment, hscan⟩ := h
  obtain rfl : lexeme = String.ofList (c :: cs) := by
    rw [← htext, String.ofList_toList]
  rw [htext] at hcomment hscan ⊢
  intro position
  have hgap : gap p (filler ++ c :: cs ++ rest) = ⟨.element, filler, c :: (cs ++ rest)⟩ := by
    have helement : gap p (c :: (cs ++ rest)) = ⟨.element, [], c :: (cs ++ rest)⟩ :=
      gap_element hblank hcomment
    rw [List.append_assoc, gap_filler hfiller, List.cons_append, helement]
    simp [Gap.after]
  have hnext := Lexer.next_of_element (l := ⟨filler ++ c :: cs ++ rest, position, p⟩) hgap hscan
  exact ⟨_, _, rfl, .cons hnext hk (.nil _)⟩

/-- The end of a line that ends a statement. -/
theorem line (filler : List Char) (hfiller : IsFiller true filler) :
    Lexes true (filler ++ ['\n']) [lineEnd] false rest := by
  intro position
  have hgap : gap true (filler ++ ['\n'] ++ rest) = ⟨.line, filler ++ ['\n'], rest⟩ := by
    rw [List.append_assoc, gap_filler hfiller]
    simp [gap_line, Gap.after]
  have hnext := Lexer.next_of_line (l := ⟨filler ++ ['\n'] ++ rest, position, true⟩) hgap
  exact ⟨_, _, rfl, .cons hnext (by simp) (.nil _)⟩

/-- A text that ends with the end of a line is read as its tokens. -/
theorem tokenize (h : Lexes false text ps false []) :
    ∃ ts t, BoundedGo.tokenize (String.ofList text) = .ok (ts ++ [t]) ∧
      ts.map Token.piece = ps ∧ t.kind = .eof := by
  obtain ⟨ts, position, hts, hemits⟩ := h Position.origin
  have hfiller : IsFiller false [] := nofun
  have hnext := Lexer.next_of_filler [] hfiller position
  rw [List.append_nil] at hemits
  refine ⟨ts, ⟨.eof, "", ⟨position, position⟩⟩, ?_, hts, rfl⟩
  rw [BoundedGo.tokenize, String.toList_ofList]
  exact hemits.tokens_append (Lexer.tokens_of_eof (by rw [hnext]; rfl) rfl)

end Lexes

/-- White space and the word behind it. -/
theorem Lexes.word {p : Bool} {rest : List Char} (filler : List Char) (w : String)
    (hfiller : IsFiller p filler) (hw : isWordText w.toList)
    (hrest : ∀ c ∈ rest.head?, Scan.continuesIdentifier c = false) :
    Lexes p (filler ++ w.toList) [(Scan.wordKind w.toList, w)]
      (Scan.wordKind w.toList).endsStatement rest := by
  refine token hfiller (isLexeme_word hw hrest) ?_
  unfold Scan.wordKind
  split <;> simp

/-- Some of the symbols that no longer symbol begins with. -/
def Symbol.isWhole : Symbol → Bool
  | .parenOpen | .parenClose | .braceOpen | .braceClose | .define => true
  | _ => false

theorem Lexes.whole {p : Bool} {rest : List Char} (filler : List Char) (s : Symbol)
    (hfiller : IsFiller p filler) (hs : s.isWhole) :
    Lexes p (filler ++ s.spelling.toList) [s.piece] (TokenKind.symbol s).endsStatement rest := by
  refine token hfiller ?_ (by simp)
  have hdot : s ≠ .dot := by
    rintro rfl
    cases hs
  cases s with
  | parenOpen | parenClose | braceOpen | braceClose | define =>
    exact isLexeme_symbol hdot (fun _ _ => rfl) rfl
  | _ => cases hs

theorem endsSymbol_filler {pending : Bool} {filler rest : List Char} (h : IsFiller pending filler)
    (hrest : EndsSymbol rest) : EndsSymbol (filler ++ rest) := by
  cases filler with
  | nil => exact hrest
  | cons c filler => exact endsSymbol_of_isBlank (h c List.mem_cons_self).1 _

/-- A text of tokens, each with white space in front, and white space at the end. -/
inductive Spells : Bool → List Piece → List Char → Prop
  | nil {pending : Bool} {filler : List Char} (h : IsFiller pending filler) :
    Spells pending [] filler
  | cons {pending : Bool} {filler text : List Char} {k : TokenKind} {lexeme : String}
    {ps : List Piece} (h : IsFiller pending filler) (hrest : Spells k.endsStatement ps text) :
    Spells pending ((k, lexeme) :: ps) (filler ++ lexeme.toList ++ text)

/-- More white space in front changes nothing. -/
theorem Spells.blank {ps : List Piece} {text : List Char} (h : Spells false ps text) {c : Char}
    (hc : Text.isBlank c) : Spells false ps (c :: text) := by
  have hfiller : ∀ {filler : List Char}, IsFiller false filler → IsFiller false (c :: filler) := by
    intro filler hfiller d hd
    rcases List.mem_cons.mp hd with rfl | hd
    · exact ⟨hc, by simp⟩
    · exact hfiller d hd
  cases h with
  | nil h => exact .nil (hfiller h)
  | cons h hrest => exact .cons (hfiller h) hrest

end BoundedGo
