import BoundedGo.Proofs.Trivia
import BoundedGo.Token.Lexer
import Mathlib.Data.String.Basic

/-!
The answers of a lexer, one at a time. An answer passes over a trivial stretch of text and over the
text it covers, which is empty where a semicolon is inserted and at the end of the source. What an
answer can be is said once, by cases (`Lexer.Step`); where it stands in the source is said by the
text before it, and the offset of a position is the number of bytes of that text.
Main statement: every answer is one of these steps (`Lexer.step_next`).
-/
namespace BoundedGo

namespace Position

theorem offset_advance (p : Position) (cs : List Char) :
    (p.advance cs).offset = p.offset + String.utf8Len cs := by
  induction cs generalizing p with
  | nil => rfl
  | cons c cs ih =>
    have hstep : (p.step c).offset = p.offset + c.utf8Size := by
      unfold step
      split
      · rfl
      · rfl
    rw [advance_cons, ih, hstep, String.utf8Len_cons]
    omega

/-- The offset behind the text at the beginning of a source. -/
theorem offset_origin_advance (cs : List Char) :
    (origin.advance cs).offset = String.utf8Len cs := by
  rw [offset_advance]
  exact Nat.zero_add _

/-- The text of a source from one position to another. -/
def between (source : String) (p q : Position) : List Char :=
  (String.Pos.Raw.extract source ⟨p.offset⟩ ⟨q.offset⟩).toList

/-- Whether a position lies between two characters of a source, or at one of its ends. -/
def IsBoundary (source : String) (p : Position) : Prop :=
  String.Pos.Raw.IsValid source ⟨p.offset⟩

variable {source : String} {before text after : List Char}

theorem between_advance (h : source.toList = before ++ text ++ after) :
    between source (origin.advance before) (origin.advance (before ++ text)) = text := by
  have hsource : source = String.ofList (before ++ text ++ after) := by
    rw [← h, String.ofList_toList]
  rw [between, offset_origin_advance, offset_origin_advance, String.utf8Len_append, hsource,
    String.extract_of_valid, String.toList_ofList]

theorem isBoundary_advance (h : source.toList = before ++ after) :
    IsBoundary source (origin.advance before) := by
  apply String.Pos.Raw.isValid_iff_exists_append.mpr
  refine ⟨String.ofList before, String.ofList after, ?_, ?_⟩
  · rw [← String.ofList_append, ← h, String.ofList_toList]
  · rw [String.rawEndPos_ofList, offset_origin_advance]

end Position

namespace Token

/-- The semicolons that stand for the end of a line or of the source. -/
def IsInserted (t : Token) : Prop :=
  t.kind = .symbol .semicolon ∧ (t.lexeme = "\n" ∨ t.lexeme = "")

/-- The tokens that are written in the source. -/
def IsWritten (t : Token) : Prop :=
  t.kind ≠ .eof ∧ ¬ t.IsInserted

end Token

namespace Scan

/-- Whether tokens of a kind can have a text. -/
def Fits (k : TokenKind) (text : List Char) : Prop :=
  k ≠ .eof ∧ ∀ s, k = .symbol s → text = s.spelling.toList

/-- Whether the kind that a reader found fits the text it has read. -/
def Sound (found : Scan) : Prop :=
  ∀ k, found.outcome = .ok k → Fits k found.text

/-- Whether a reader finds nothing but literals. -/
def FindsLiteral (found : Scan) : Prop :=
  ∀ k, found.outcome = .ok k → ∃ form, k = .literal form

/-- Whether a reader finds nothing but literals of one form. -/
def FindsOnly (form : LiteralKind) (found : Scan) : Prop :=
  ∀ k, found.outcome = .ok k → k = .literal form

theorem FindsOnly.findsLiteral {form : LiteralKind} {found : Scan} (h : found.FindsOnly form) :
    found.FindsLiteral :=
  fun k hk => ⟨form, h k hk⟩

theorem FindsLiteral.sound {found : Scan} (h : found.FindsLiteral) : found.Sound := by
  intro k hk
  obtain ⟨form, rfl⟩ := h k hk
  exact ⟨nofun, nofun⟩

theorem word_sound (cs : List Char) : (word cs).Sound := by
  intro k hk
  obtain rfl := Except.ok.inj hk
  unfold wordKind
  split
  · exact ⟨nofun, nofun⟩
  · exact ⟨nofun, nofun⟩

theorem announced_literal (base : Base) (intro cs : List Char) :
    (announced base intro cs).FindsLiteral := by
  intro k hk
  unfold announced at hk
  dsimp only at hk
  split at hk
  · cases hk
  · exact ⟨_, (Except.ok.inj hk).symm⟩

theorem decimal_literal (cs : List Char) : (decimal cs).FindsLiteral := by
  intro k hk
  unfold decimal at hk
  dsimp only at hk
  split at hk
  · cases hk
  split at hk
  · exact ⟨_, (Except.ok.inj hk).symm⟩
  split at hk
  · exact ⟨_, (Except.ok.inj hk).symm⟩
  split at hk
  · cases hk
  · exact ⟨_, (Except.ok.inj hk).symm⟩

theorem number_literal (cs : List Char) : (number cs).FindsLiteral := by
  unfold number
  split
  case h_7 => exact decimal_literal _
  all_goals exact announced_literal _ _ _

theorem string_only (cs : List Char) : (string cs).FindsOnly .string := by
  intro k hk
  unfold string at hk
  dsimp only at hk
  split at hk
  · exact (Except.ok.inj hk).symm
  · cases hk
  · cases hk

theorem rawString_only (cs : List Char) : (rawString cs).FindsOnly .string := by
  intro k hk
  unfold rawString at hk
  dsimp only at hk
  split at hk
  · cases hk
  · exact (Except.ok.inj hk).symm

theorem rune_only (cs : List Char) : (rune cs).FindsOnly .char := by
  intro k hk
  unfold rune at hk
  dsimp only at hk
  split at hk
  · split at hk
    · cases hk
    · exact (Except.ok.inj hk).symm
  · cases hk
  · cases hk

theorem symbol_sound (c : Char) (cs : List Char) : (symbol c cs).Sound := by
  unfold symbol
  cases hleading : Symbol.leading? (c :: cs) with
  | none => exact nofun
  | some s =>
    have hfound := hleading
    unfold Symbol.leading? at hfound
    have hbegins := List.find?_some hfound
    obtain ⟨behind, hbehind⟩ := List.isPrefixOf_iff_prefix.mp hbegins
    intro k hk
    obtain rfl := Except.ok.inj hk
    refine ⟨nofun, fun s' hs => ?_⟩
    obtain rfl := TokenKind.symbol.inj hs
    dsimp only
    rw [← hbehind, ← String.length_toList, List.take_left]

end Scan

open Scan in
theorem scan_sound (c : Char) (cs : List Char) : (scan c cs).Sound := by
  unfold scan
  split
  · exact word_sound _
  split
  · exact (number_literal _).sound
  split
  · exact (string_only _).findsLiteral.sound
  split
  · exact (rawString_only _).findsLiteral.sound
  split
  · exact (rune_only _).findsLiteral.sound
  · exact symbol_sound _ _

open Scan in
/-- What is read as a literal is a number, unless it is a string or a rune. -/
theorem scan_literal {c : Char} {cs : List Char} {form : LiteralKind}
    (h : (scan c cs).outcome = .ok (.literal form)) :
    (¬ startsIdentifier c ∧ startsNumber c cs ∧ scan c cs = number (c :: cs)) ∨
      form = .string ∨ form = .char := by
  unfold scan at h ⊢
  split at h
  · unfold word wordKind at h
    dsimp only at h
    split at h
    · cases h
    · cases h
  · rename_i hword
    rw [if_neg hword]
    split at h
    · rename_i hnumber
      exact .inl ⟨hword, hnumber, if_pos hnumber⟩
    split at h
    · exact .inr (.inl (TokenKind.literal.inj (string_only _ _ h)))
    split at h
    · exact .inr (.inl (TokenKind.literal.inj (rawString_only _ _ h)))
    split at h
    · exact .inr (.inr (TokenKind.literal.inj (rune_only _ _ h)))
    · unfold symbol at h
      split at h
      · cases h
      · cases h

namespace Lexer

/-- The span of the text behind what is skipped. -/
def spanBehind (l : Lexer) (skipped text : List Char) : Span :=
  ⟨l.position.advance skipped, l.position.advance (skipped ++ text)⟩

/-- What the next answer of a lexer can be, and the lexer behind it: a token or a fault with its
text, a semicolon for the end of a line, and at the end of the source a semicolon for a statement
that is pending there, or the end itself. -/
inductive Step (l : Lexer) : Except LexError Token → Lexer → Prop
  | token {skipped text rest : List Char} {k : TokenKind}
    (hrest : l.rest = skipped ++ text ++ rest) (hskipped : IsTrivia skipped)
    (hline : l.pending → '\n' ∉ skipped) (htext : text ≠ []) (hk : Scan.Fits k text) :
    Step l (.ok ⟨k, String.ofList text, l.spanBehind skipped text⟩)
      (l.past (skipped ++ text) rest k.endsStatement)
  | fault {skipped text rest : List Char} {fault : LexFault}
    (hrest : l.rest = skipped ++ text ++ rest) (hskipped : IsTrivia skipped) (htext : text ≠ []) :
    Step l (.error ⟨fault, l.spanBehind skipped text⟩) (l.past (skipped ++ text) rest l.pending)
  | line {skipped rest : List Char} (hrest : l.rest = skipped ++ rest)
    (hskipped : IsTrivia skipped) (hpending : l.pending) (hline : '\n' ∈ skipped) :
    Step l (.ok ⟨.symbol .semicolon, "\n", l.spanBehind skipped []⟩) (l.past skipped rest false)
  | finish (hrest : IsTrivia l.rest) (hpending : l.pending) (hline : '\n' ∉ l.rest) :
    Step l (.ok ⟨.symbol .semicolon, "", l.spanBehind l.rest []⟩) (l.past l.rest [] false)
  | eof (hrest : IsTrivia l.rest) (hpending : l.pending = false) :
    Step l (.ok ⟨.eof, "", l.spanBehind l.rest []⟩) (l.past l.rest [] false)

theorem spanBehind_nil (l : Lexer) (skipped : List Char) :
    l.spanBehind skipped [] = ⟨l.position.advance skipped, l.position.advance skipped⟩ := by
  rw [spanBehind, List.append_nil]

theorem past_past (l : Lexer) (skipped text rest rest' : List Char) (p q : Bool) :
    (l.past skipped rest p).past text rest' q = l.past (skipped ++ text) rest' q := by
  simp only [past, Position.advance_append]

/-- Every answer is a step. -/
theorem step_next (l : Lexer) : Step l l.next.1 l.next.2 := by
  have hall := gap_skipped_append_rest l.pending l.rest
  have hskipped := isTrivia_skipped l.pending l.rest
  have hline : (gap l.pending l.rest).stop ≠ .line → l.pending →
      '\n' ∉ (gap l.pending l.rest).skipped := by
    intro hstop hpending
    rw [hpending] at hstop ⊢
    exact newline_not_mem_skipped hstop
  unfold next
  dsimp only
  cases hstop : (gap l.pending l.rest).stop with
  | line =>
    obtain ⟨hpending, hnewline⟩ := newline_mem_of_line hstop
    have hstep := Step.line hall.symm hskipped hpending hnewline
    rw [spanBehind_nil] at hstep
    exact hstep
  | openComment =>
    obtain ⟨inside, hrest, -⟩ := exists_rest_of_openComment hstop
    have hopen : (gap l.pending l.rest).rest ≠ [] := by
      rw [hrest]
      exact List.cons_ne_nil _ _
    have hwhole : l.rest = (gap l.pending l.rest).skipped ++ (gap l.pending l.rest).rest ++ [] := by
      rw [hall, List.append_nil]
    have hstep : Step l (.error ⟨.openComment, _⟩) _ := .fault hwhole hskipped hopen
    rw [spanBehind, Position.advance_append, ← past_past] at hstep
    exact hstep
  | element =>
    have hquiet := hline (by rw [hstop]; nofun)
    dsimp only [past]
    cases hrest : (gap l.pending l.rest).rest with
    | nil =>
      rw [hrest, List.append_nil] at hall
      rw [hall] at hskipped hquiet ⊢
      dsimp only [atEnd]
      cases hpending : l.pending with
      | true =>
        have hstep := Step.finish hskipped hpending (hquiet hpending)
        rw [spanBehind_nil] at hstep
        exact hstep
      | false =>
        have hstep := Step.eof hskipped hpending
        rw [spanBehind_nil] at hstep
        exact hstep
    | cons c cs =>
      have htext : (scan c cs).text ≠ [] := List.ne_nil_of_length_pos (scan_text_length_pos c cs)
      have hwhole : l.rest
          = (gap l.pending l.rest).skipped ++ (scan c cs).text ++ (scan c cs).rest := by
        rw [List.append_assoc, scan_text_append_rest, ← hrest, hall]
      dsimp only [element]
      cases houtcome : (scan c cs).outcome with
      | ok k =>
        have hstep := Step.token hwhole hskipped hquiet htext (scan_sound c cs k houtcome)
        rw [spanBehind, Position.advance_append, ← past_past] at hstep
        exact hstep
      | error fault =>
        have hstep : Step l (.error ⟨fault, _⟩) _ := .fault hwhole hskipped htext
        rw [spanBehind, Position.advance_append, ← past_past] at hstep
        exact hstep

end Lexer

/-- A source of whose tokens something is told has tokens. -/
theorem exists_tokens_of_map {α : Type} {source : String} {f : List Token → α} {a : α}
    (h : (tokenize source).toOption.map f = some a) :
    ∃ ts, tokenize source = .ok ts ∧ f ts = a := by
  cases hts : tokenize source with
  | error e =>
    rw [hts] at h
    cases h
  | ok ts =>
    rw [hts] at h
    exact ⟨ts, rfl, Option.some.inj h⟩

end BoundedGo
