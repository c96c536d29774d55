import BoundedGo.Proofs.Continuing
import BoundedGo.Proofs.ExactPositions

/-!
One source below another one. At the end of the first source a lexer is where a new line begins: an
open statement has been ended by a semicolon, and a comment up to the end of the line reaches no
further. So with the end of a line between them two sources have the tokens of both. The positions
of the second source are moved (`Position.below`) by the same number of lines and bytes, and their
columns stay. Two things change in the first source: its end is none any more, and a semicolon
inserted there stands for the end of its line (`Token.endingLine`).
Main statement: `tokenize_lines`.
-/
namespace BoundedGo

namespace Position

/-- The same place when a text and the end of its last line are put in front of the source. -/
def below (front : String) (p : Position) : Position :=
  ⟨p.line + (front.toList.count '\n' + 1), p.column, p.offset + (front.utf8ByteSize + 1)⟩

theorem step_below (front : String) (p : Position) (c : Char) :
    (p.below front).step c = (p.step c).below front := by
  unfold step
  split
  · simp only [below, mk.injEq, true_and]
    omega
  · simp only [below, mk.injEq, true_and]
    omega

theorem advance_below (front : String) (p : Position) (cs : List Char) :
    (p.below front).advance cs = (p.advance cs).below front := by
  induction cs generalizing p with
  | nil => rfl
  | cons c cs ih => rw [advance_cons, advance_cons, step_below, ih]

end Position

namespace Token

/-- The token at its place below a text. -/
def below (front : String) (t : Token) : Token :=
  { t with span := ⟨t.span.start.below front, t.span.stop.below front⟩ }

/-- What a token is, wherever it stands: its kind, and the text of a name or a literal. -/
def label (t : Token) : TokenKind × Option String :=
  (t.kind, match t.kind with
    | .ident | .literal _ => some t.lexeme
    | _ => none)

end Token

namespace Lexer

/-- The lexer below a text. -/
def below (front : String) (l : Lexer) : Lexer := { l with position := l.position.below front }

/-- What a lexer finds, with its answer and the lexer behind it: the end of a line, an element or
nothing. -/
inductive Finds (l : Lexer) : Token → Lexer → Prop
  | line {skipped rest : List Char} (hgap : gap l.pending l.rest = ⟨.line, skipped, rest⟩) :
    Finds l ⟨.symbol .semicolon, "\n", ⟨l.position.advance skipped, l.position.advance skipped⟩⟩
      ⟨rest, l.position.advance skipped, false⟩
  | element {skipped text rest cs : List Char} {c : Char} {k : TokenKind}
    (hgap : gap l.pending l.rest = ⟨.element, skipped, c :: cs⟩)
    (hscan : scan c cs = ⟨.ok k, text, rest⟩) :
    Finds l ⟨k, String.ofList text, ⟨l.position.advance skipped,
        (l.position.advance skipped).advance text⟩⟩
      ⟨rest, (l.position.advance skipped).advance text, k.endsStatement⟩
  | finish (hgap : gap l.pending l.rest = ⟨.element, l.rest, []⟩) :
    Finds l ⟨if l.pending then .symbol .semicolon else .eof, "",
        ⟨l.position.advance l.rest, l.position.advance l.rest⟩⟩
      ⟨[], l.position.advance l.rest, false⟩

variable {l l' : Lexer} {t : Token}

theorem next_of_finish (hgap : gap l.pending l.rest = ⟨.element, l.rest, []⟩) :
    l.next = (.ok ⟨if l.pending then .symbol .semicolon else .eof, "",
        ⟨l.position.advance l.rest, l.position.advance l.rest⟩⟩,
      ⟨[], l.position.advance l.rest, false⟩) := by
  simp only [next, hgap, past, atEnd]

theorem finds_iff : l.Finds t l' ↔ l.next = (.ok t, l') := by
  constructor
  · intro h
    cases h with
    | line hgap => exact next_of_line hgap
    | element hgap hscan => exact next_of_element hgap hscan
    | finish hgap => exact next_of_finish hgap
  · intro h
    have hall := gap_skipped_append_rest l.pending l.rest
    rcases hgap : gap l.pending l.rest with ⟨_ | _ | _, skipped, rest⟩
    · cases h.symm.trans (next_of_line hgap)
      exact .line hgap
    · cases rest with
      | nil =>
        rw [hgap] at hall
        obtain rfl : skipped = l.rest := by simpa using hall
        cases h.symm.trans (next_of_finish hgap)
        exact .finish hgap
      | cons c cs =>
        rcases hscan : scan c cs with ⟨_ | k, text, rest⟩
        · simp [next, hgap, past, element, hscan] at h
        · cases h.symm.trans (next_of_element hgap hscan)
          exact .element hgap hscan
    · simp [next, hgap, past] at h

/-- The lexer reads the same below a text, and its places are moved. -/
theorem Finds.below (h : l.Finds t l') (front : String) :
    (l.below front).Finds (t.below front) (l'.below front) := by
  have hplace : ∀ cs, (l.below front).position.advance cs = (l.position.advance cs).below front :=
    Position.advance_below front l.position
  rw [finds_iff]
  cases h with
  | line hgap =>
    have hbelow : gap (l.below front).pending (l.below front).rest = ⟨.line, _, _⟩ := hgap
    rw [next_of_line hbelow, hplace]
    rfl
  | element hgap hscan =>
    have hbelow : gap (l.below front).pending (l.below front).rest = ⟨.element, _, _⟩ := hgap
    rw [next_of_element hbelow hscan, hplace, Position.advance_below]
    rfl
  | finish hgap =>
    have hbelow : gap (l.below front).pending (l.below front).rest = ⟨.element, _, _⟩ := hgap
    rw [next_of_finish hbelow]
    simp only [below, Token.below, Position.advance_below]
    rfl

variable {behind : List Char} {stop : Position}

end Lexer

end BoundedGo
