import BoundedGo.Token

/-!
A sequence of tokens with a place in it. The end of the source stands behind the last token
however often it is read, and going on from there stays there.
Main statement: going on changes the place and not the tokens (`tokens_advance`).
-/
namespace BoundedGo

structure Stream where
  /-- The tokens that lie behind, the last one first. -/
  seen : List Token
  /-- The tokens that lie ahead, the end of the source not counted. -/
  rest : List Token
  /-- Where the source ends. -/
  finish : Span
  /-- Whether a brace behind the name of a type opens a composite literal. -/
  literals : Bool

namespace Stream

/-- A stream at the first of the tokens. Where they lack the end of the source, it is added
behind the last of them. -/
def ofTokens (ts : List Token) : Stream :=
  match ts.getLast? with
  | none => ⟨[], [], ⟨Position.origin, Position.origin⟩, true⟩
  | some t =>
    if t.kind = .eof then ⟨[], ts.dropLast, t.span, true⟩
    else ⟨[], ts, ⟨t.span.stop, t.span.stop⟩, true⟩

/-- The token that stands for the end of the source. -/
def eof (s : Stream) : Token := ⟨.eof, "", s.finish⟩

def current (s : Stream) : Token :=
  match s.rest with
  | [] => s.eof
  | t :: _ => t

/-- The kind of the token `n` places ahead. -/
def kindAt (s : Stream) (n : Nat) : TokenKind :=
  match s.rest[n]? with
  | some t => t.kind
  | none => .eof

def advance (s : Stream) : Stream :=
  match s.rest with
  | [] => s
  | t :: rest => { s with seen := t :: s.seen, rest := rest }

/-- How many tokens lie behind. -/
def cursor (s : Stream) : Nat := s.seen.length

/-- All tokens, wherever the place among them. -/
def tokens (s : Stream) : List Token :=
  s.seen.reverse ++ s.rest ++ [s.eof]

theorem tokens_advance (s : Stream) : s.advance.tokens = s.tokens := by
  unfold advance
  split
  · rfl
  · rename_i hrest
    simp [tokens, hrest, eof]

/-- Goes on over all semicolons. -/
def skipSemicolons (s : Stream) : Stream :=
  { s with
    seen := (s.rest.takeWhile (·.kind = .symbol .semicolon)).reverse ++ s.seen
    rest := s.rest.dropWhile (·.kind = .symbol .semicolon) }

theorem tokens_skipSemicolons (s : Stream) : s.skipSemicolons.tokens = s.tokens := by
  simp [tokens, skipSemicolons, eof]

end Stream

end BoundedGo
