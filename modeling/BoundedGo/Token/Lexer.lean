import BoundedGo.Token.Gap
import BoundedGo.Token.Scan

/-!
The tokens of a source, one after the other. The lexer knows the text that is left, where that
text stands, and whether a line feed would end a statement; a semicolon is inserted there, and at
the end of the source. After a fault the lexer goes on behind the text it has read.
Main statement: every answer but the end of the source makes progress (`next_measure_lt`), which
is why reading all tokens ends.
-/
namespace BoundedGo

structure Lexer where
  rest : List Char
  position : Position
  pending : Bool

namespace Lexer

def ofText (cs : List Char) : Lexer := ⟨cs, Position.origin, false⟩

/-- The lexer behind a stretch of text. -/
def past (l : Lexer) (text rest : List Char) (pending : Bool) : Lexer :=
  ⟨rest, l.position.advance text, pending⟩

/-- The answer where no text is left: the semicolon that a pending statement needs, then the end
of the source. -/
def atEnd (l : Lexer) : Token × Lexer :=
  let kind := if l.pending then .symbol .semicolon else .eof
  (⟨kind, "", ⟨l.position, l.position⟩⟩, { l with pending := false })

/-- The answer for the element that the text `c :: cs` begins with. -/
def element (l : Lexer) (c : Char) (cs : List Char) : Except LexError Token × Lexer :=
  let found := scan c cs
  let span := ⟨l.position, l.position.advance found.text⟩
  match found.outcome with
  | .ok kind =>
    (.ok ⟨kind, String.ofList found.text, span⟩,
      l.past found.text found.rest kind.endsStatement)
  | .error fault => (.error ⟨fault, span⟩, l.past found.text found.rest l.pending)

/-- The next token or fault, and the lexer behind it. -/
def next (l : Lexer) : Except LexError Token × Lexer :=
  let g := gap l.pending l.rest
  let l := l.past g.skipped g.rest l.pending
  match g.stop with
  | .line =>
    (.ok ⟨.symbol .semicolon, "\n", ⟨l.position, l.position⟩⟩, { l with pending := false })
  | .openComment =>
    (.error ⟨.openComment, ⟨l.position, l.position.advance l.rest⟩⟩,
      l.past l.rest [] l.pending)
  | .element =>
    match l.rest with
    | [] => let (token, l) := l.atEnd; (.ok token, l)
    | c :: cs => l.element c cs

/-- What is left to answer: characters, and a semicolon that may still be due. -/
def measure (l : Lexer) : Nat :=
  2 * l.rest.length + l.pending.toNat

theorem measure_element_lt (l : Lexer) (c : Char) (cs : List Char) (h : l.rest = c :: cs) :
    (l.element c cs).2.measure < l.measure := by
  have all := congrArg List.length (scan_text_append_rest c cs)
  have pos := scan_text_length_pos c cs
  simp only [List.length_append, List.length_cons] at all
  have hrest : (l.element c cs).2.rest = (scan c cs).rest := by
    unfold element
    dsimp only
    split <;> rfl
  have hbool := Bool.toNat_le (l.element c cs).2.pending
  have hlen := congrArg List.length h
  simp only [measure, hrest, List.length_cons] at hlen ⊢
  omega

/-- Every answer but the end of the source leaves less to answer. -/
theorem next_measure_lt (l : Lexer) {t : Token} (h : l.next.1 = .ok t) (ht : t.kind ≠ .eof) :
    l.next.2.measure < l.measure := by
  have all := congrArg List.length (gap_skipped_append_rest l.pending l.rest)
  have line := gap_skipped_length_pos l.pending l.rest
  simp only [List.length_append] at all
  unfold next at h ⊢
  dsimp only at h ⊢
  cases hstop : (gap l.pending l.rest).stop with
  | line =>
    have := line hstop
    simp only [measure, past, Bool.toNat_false]
    omega
  | openComment => simp [hstop] at h
  | element =>
    simp only [hstop, past] at h ⊢
    cases hrest : (gap l.pending l.rest).rest with
    | nil =>
      simp only [hrest, atEnd, Except.ok.injEq] at h ⊢
      cases hpending : l.pending with
      | true =>
        simp only [measure, hpending, Bool.toNat_true, Bool.toNat_false, List.length_nil]
        omega
      | false => simp [hpending, ← h] at ht
    | cons c cs =>
      simp only []
      refine Nat.lt_of_lt_of_le (measure_element_lt _ c cs rfl) ?_
      simp only [measure, hrest] at all ⊢
      omega

/-- All tokens up to the end of the source, or the first fault. -/
def tokens (l : Lexer) : Except LexError (List Token) :=
  match _h : l.next with
  | (.error e, _) => .error e
  | (.ok t, l') =>
    if _ht : t.kind = .eof then .ok [t]
    else
      match tokens l' with
      | .ok ts => .ok (t :: ts)
      | .error e => .error e
termination_by l.measure
decreasing_by
  have := next_measure_lt l (t := t) (by rw [_h]) _ht
  rwa [_h] at this

/-- The first answers of a lexer, faults among them. -/
def answers (l : Lexer) : Nat → List (Except LexError Token)
  | 0 => []
  | n + 1 => l.next.1 :: answers l.next.2 n

end Lexer

/-- The tokens of a source text. -/
def tokenize (source : String) : Except LexError (List Token) :=
  (Lexer.ofText source.toList).tokens

end BoundedGo
