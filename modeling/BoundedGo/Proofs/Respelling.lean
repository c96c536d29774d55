import BoundedGo.Proofs.Punctuation
import BoundedGo.Proofs.Rescanning

/-!
A source that is written again from its tokens, with one space between a lexeme and the next. Each
lexeme is the same token again, since a space stands behind it, and a line feed that ended a
statement ends it again. Nothing else ends a statement: where no line feed is written, the spaces
are no end of a line.
Main statement: the new text has the kinds and the lexemes of the source (`tokenize_respelled`).
-/
namespace BoundedGo

/-- Whether the text of a piece is read as this piece wherever white space stands behind it. -/
def IsStable (piece : Piece) : Prop :=
  ∀ rest, EndsToken rest → IsLexeme piece.1 piece.2.toList rest

/-- The semicolon at the end of a source that ends a statement there. -/
def finalSemicolon : Piece := (.symbol .semicolon, "")

/-- The pieces of a source from a place on, where a statement is pending or not: those that are
written there, and the marks of the ends of lines and of the source. -/
inductive Respellable : Bool → List Piece → Prop
  | written {pending : Bool} {piece : Piece} {ps : List Piece} (hkind : piece.1 ≠ .eof)
    (h : IsStable piece) (hrest : Respellable piece.1.endsStatement ps) :
    Respellable pending (piece :: ps)
  | line {ps : List Piece} (h : Respellable false ps) : Respellable true (lineEnd :: ps)
  | finish : Respellable true [finalSemicolon, sourceEnd]
  | eof : Respellable false [sourceEnd]

namespace Lexer

theorem isStable_of_next {l : Lexer} {k : TokenKind} {text : List Char} {span : Span}
    (h : l.next.1 = .ok ⟨k, String.ofList text, span⟩) (hk : Scan.Fits k text) :
    IsStable (k, String.ofList text) := by
  by_cases hsemicolon : k = .symbol .semicolon
  · subst hsemicolon
    intro rest hrest
    rw [String.toList_ofList, hk.2 .semicolon rfl]
    exact isLexeme_of_endsSymbol (by decide) hrest.endsSymbol
  have hread := of_next (P := fun piece => piece.1 = .eof ∨ piece.1 = .symbol .semicolon ∨
    IsStable piece) (fun _ => ⟨.inl rfl, .inr (.inl rfl)⟩) (fun c cs k hk => .inr (.inr ?_)) h
  · exact (hread.resolve_left hk.1).resolve_left hsemicolon
  · intro rest hrest
    rw [String.toList_ofList]
    exact isLexeme_of_scan hk hrest

/-- Where only white space is left, the source ends. -/
theorem tokens_filler (filler : List Char) (h : IsFiller true filler) (position : Position)
    (pending : Bool) : ∃ us, (Lexer.mk filler position pending).tokens = .ok us ∧
      us.map Token.piece = if pending then [finalSemicolon, sourceEnd] else [sourceEnd] := by
  have hend : ∀ filler : List Char, IsFiller true filler → ∀ position,
      ∃ t, (Lexer.mk filler position false).tokens = .ok [t] ∧ t.piece = sourceEnd := by
    intro filler h position
    have hfiller : IsFiller false filler := fun c hc => ⟨(h c hc).1, nofun⟩
    have hnext := next_of_filler filler hfiller position
    exact ⟨_, tokens_of_eof (by rw [hnext]) rfl, rfl⟩
  cases pending with
  | false =>
    obtain ⟨t, ht, hpiece⟩ := hend filler h position
    exact ⟨[t], ht, congrArg (fun piece => [piece]) hpiece⟩
  | true =>
    have hnext := next_of_filler filler h position
    obtain ⟨t, ht, hpiece⟩ := hend [] nofun (position.advance filler)
    have hemits := Emits.cons hnext nofun (.nil _)
    refine ⟨_, hemits.tokens_append ht, ?_⟩
    rw [List.map_append, List.map_singleton, List.map_singleton, hpiece]
    rfl

theorem respellable_tokens {l : Lexer} {ts : List Token} (h : l.tokens = .ok ts) :
    Respellable l.pending (ts.map Token.piece) := by
  fun_induction tokens l generalizing ts with
  | case1 => cases h
  | case2 l t l' hnext heof =>
    obtain rfl := Except.ok.inj h
    have hstep := l.step_next
    rw [hnext] at hstep
    generalize ha : (Except.ok t : Except LexError Token) = a at hstep
    cases hstep with
    | token _ _ _ _ hk =>
      obtain rfl := Except.ok.inj ha
      exact absurd heof hk.1
    | fault => cases ha
    | line =>
      obtain rfl := Except.ok.inj ha
      cases heof
    | finish =>
      obtain rfl := Except.ok.inj ha
      cases heof
    | eof _ hpending =>
      obtain rfl := Except.ok.inj ha
      rw [hpending]
      exact .eof
  | case3 l t l' hnext heof us hus ih =>
    obtain rfl := Except.ok.inj h
    have hstep := l.step_next
    have hanswer : l.next.1 = .ok t := by rw [hnext]
    rw [hnext] at hstep
    generalize ha : (Except.ok t : Except LexError Token) = a at hstep
    cases hstep with
    | @token skipped text rest k hrest hskipped hline htext hk =>
      obtain rfl := Except.ok.inj ha
      exact .written hk.1 (isStable_of_next hanswer hk) (ih hus)
    | fault => cases ha
    | line hrest hskipped hpending hline =>
      obtain rfl := Except.ok.inj ha
      rw [hpending]
      exact .line (ih hus)
    | finish hrest hpending hline =>
      obtain rfl := Except.ok.inj ha
      obtain ⟨vs, hvs, hpieces⟩ := tokens_filler []
        (List.forall_mem_nil _) (l.position.advance l.rest) false
      obtain rfl := Except.ok.inj (hus.symm.trans hvs)
      rw [hpending, List.map_cons, hpieces]
      exact .finish
    | eof =>
      obtain rfl := Except.ok.inj ha
      exact absurd rfl heof
  | case4 => cases h

end Lexer

/-- What is read in front of the rest comes before the tokens of the rest. -/
theorem Lexes.tokens_append {p q : Bool} {text rest : List Char} {ps qs : List Piece}
    (h : Lexes p text ps q rest)
    (hrest : ∀ position, ∃ us, (Lexer.mk rest position q).tokens = .ok us ∧
      us.map Token.piece = qs) (position : Position) :
    ∃ us, (Lexer.mk (text ++ rest) position p).tokens = .ok us ∧
      us.map Token.piece = ps ++ qs := by
  obtain ⟨ts, position', hts, hemits⟩ := h position
  obtain ⟨us, hus, hpieces⟩ := hrest position'
  exact ⟨ts ++ us, hemits.tokens_append hus, by rw [List.map_append, hts, hpieces]⟩

/-- A text of pieces with white space between them, but no more ends of lines than the pieces tell.
-/
inductive Spaced : List Piece → List Char → Prop
  | nil {filler : List Char} (h : IsFiller true filler) : Spaced [] filler
  | cons {filler rest : List Char} {piece : Piece} {ps : List Piece} (h : IsFiller true filler)
    (hend : EndsToken rest) (hrest : Spaced ps rest) :
    Spaced (piece :: ps) (filler ++ (piece.2.toList ++ rest))

namespace Spaced

variable {ps : List Piece} {text : List Char}

theorem space (h : Spaced ps text) : Spaced ps (' ' :: text) := by
  have hfiller : ∀ {filler : List Char}, IsFiller true filler → IsFiller true (' ' :: filler) :=
    fun hfiller => List.forall_mem_cons.mpr ⟨by decide, hfiller⟩
  cases h with
  | nil h => exact .nil (hfiller h)
  | cons h hend hrest => exact .cons (hfiller h) hend hrest

theorem tokens {pending : Bool} (hps : Respellable pending ps)
    (h : Spaced (ps.filter (·.2 ≠ "")) text) (position : Position) :
    ∃ us, (Lexer.mk text position pending).tokens = .ok us ∧ us.map Token.piece = ps := by
  induction hps generalizing text position with
  | @written pending piece ps hkind hstable _ ih =>
    obtain ⟨k, lexeme⟩ := piece
    have hlexeme : lexeme ≠ "" := by
      rintro rfl
      obtain ⟨c, cs, htext, -⟩ := hstable [] nofun
      cases htext
    rw [List.filter_cons_of_pos (by simpa using hlexeme)] at h
    cases h with
    | @cons filler rest _ _ hfiller hend hrest =>
      have hread := Lexes.token (p := pending) (fun c hc => ⟨(hfiller c hc).1, fun _ =>
        (hfiller c hc).2 rfl⟩) (hstable rest hend) hkind
      rw [← List.append_assoc]
      exact hread.tokens_append (ih hrest) position
  | @line ps _ ih =>
    rw [List.filter_cons_of_pos (by decide)] at h
    cases h with
    | @cons filler rest _ _ hfiller hend hrest =>
      have hread : Lexes true (filler ++ ['\n']) [lineEnd] false rest := .line filler hfiller
      rw [← List.append_assoc]
      exact hread.tokens_append (ih hrest) position
  | finish =>
    cases h with
    | nil h => exact Lexer.tokens_filler _ h position true
  | eof =>
    cases h with
    | nil h => exact Lexer.tokens_filler _ h position false

end Spaced

theorem spaced_intercalate (ps : List Piece) :
    Spaced (ps.filter (·.2 ≠ "")) (" ".intercalate (ps.map (·.2))).toList := by
  induction ps with
  | nil => exact .nil nofun
  | cons piece ps ih =>
    have hrest : ∃ rest, (" ".intercalate ((piece :: ps).map (·.2))).toList
        = piece.2.toList ++ rest ∧ EndsToken rest ∧ Spaced (ps.filter (·.2 ≠ "")) rest := by
      cases ps with
      | nil => exact ⟨[], by simp, nofun, ih⟩
      | cons next ps =>
        refine ⟨' ' :: (" ".intercalate ((next :: ps).map (·.2))).toList, ?_, ?_, ih.space⟩
        · simp only [List.map_cons, String.intercalate_cons_cons, String.toList_append]
          rw [List.append_assoc]
          rfl
        · rintro c hc
          obtain rfl := Option.some.inj hc
          decide
    obtain ⟨rest, htext, hend, hspaced⟩ := hrest
    rw [htext]
    by_cases hempty : piece.2 = ""
    · rw [List.filter_cons_of_neg (by simpa using hempty), hempty]
      exact hspaced
    · rw [List.filter_cons_of_pos (by simpa using hempty)]
      have hpieces : Spaced (piece :: _) ([] ++ (piece.2.toList ++ rest)) :=
        .cons nofun hend hspaced
      exact hpieces

/-- The lexemes of tokens with one space between a lexeme and the next. -/
def respelled (ts : List Token) : String :=
  " ".intercalate (ts.map (·.lexeme))

/-- A source that is written again from its tokens, with or without the empty lexemes of the marks
at its end, has the same tokens. -/
theorem tokenize_respelled {source : String} {ts : List Token} (h : tokenize source = .ok ts) :
    (∃ us, tokenize (respelled ts) = .ok us ∧ us.map Token.piece = ts.map Token.piece) ∧
      ∃ us, tokenize (respelled (ts.filter (·.lexeme ≠ ""))) = .ok us ∧
        us.map Token.piece = ts.map Token.piece := by
  have hpieces : Respellable false (ts.map Token.piece) := Lexer.respellable_tokens h
  have hread : ∀ {us : List Token}, (us.map Token.piece).filter (·.2 ≠ "")
      = (ts.map Token.piece).filter (·.2 ≠ "") →
      ∃ vs, tokenize (respelled us) = .ok vs ∧ vs.map Token.piece = ts.map Token.piece := by
    intro us hus
    have hspaced := spaced_intercalate (us.map Token.piece)
    rw [hus, List.map_map] at hspaced
    exact hspaced.tokens hpieces Position.origin
  refine ⟨hread rfl, hread ?_⟩
  rw [List.filter_map, List.filter_map]
  have hkept : ∀ p : Token → Bool, (ts.filter p).filter p = ts.filter p := by simp
  exact congrArg (List.map Token.piece) (hkept fun t => t.lexeme ≠ "")

/-- A comment is not written again, but the end of its line is; in a raw string it is text. -/
theorem tokenize_respelled_comment :
    ∃ ts, tokenize "low := .5e+3 // half\nnote(`a // b`, '\\'')" = .ok ts ∧
      respelled ts = "low := .5e+3 \n note ( `a // b` , '\\'' )  " ∧
      (∃ us, tokenize (respelled ts) = .ok us ∧ us.map Token.piece = ts.map Token.piece) ∧
      ∃ us, tokenize (respelled (ts.filter (·.lexeme ≠ ""))) = .ok us ∧
        us.map Token.piece = ts.map Token.piece := by
  have hread : (tokenize "low := .5e+3 // half\nnote(`a // b`, '\\'')").toOption.map respelled
      = some "low := .5e+3 \n note ( `a // b` , '\\'' )  " := by
    decide +kernel
  cases hts : tokenize "low := .5e+3 // half\nnote(`a // b`, '\\'')" with
  | error e =>
    rw [hts] at hread
    cases hread
  | ok ts =>
    rw [hts] at hread
    exact ⟨ts, rfl, Option.some.inj hread, tokenize_respelled hts⟩

end BoundedGo
