import BoundedGo.Proofs.Answers

/-!
The answers of a lexer lie side by side in the source, faults among them. Each covers a stretch of
text behind the stretch of the one before, with trivial text between the two; what is covered is
not empty, unless a semicolon is inserted or the source has ended. There are not more answers than
characters before the end is answered, but for one semicolon that is inserted there.
Main statement: the first answers of a lexer tile the source, however many are asked for
(`answers_tiled`).
-/
namespace BoundedGo

namespace Lexer

def spanOf : Except LexError Token → Span
  | .ok t => t.span
  | .error e => e.span

/-- What an answer can be, by the text that it covers. -/
inductive Covers : List Char → Except LexError Token → Prop
  | written {t : Token} {text : List Char} (ht : t.IsWritten) (htext : text ≠ [])
    (hlexeme : t.lexeme = String.ofList text) : Covers text (.ok t)
  | inserted {t : Token} (ht : t.IsInserted) : Covers [] (.ok t)
  | eof {t : Token} (ht : t.kind = .eof) (hlexeme : t.lexeme = "") : Covers [] (.ok t)
  | fault {e : LexError} {text : List Char} (htext : text ≠ []) : Covers text (.error e)

/-- The lexer stands in the source behind the text `before`. -/
structure StandsBehind (source before : List Char) (l : Lexer) : Prop where
  position : l.position = Position.origin.advance before
  text : source = before ++ l.rest

/-- The answers cover the source from behind `before` on, with trivial text in front of each. -/
inductive Tiles (source : List Char) : List Char → List (Except LexError Token) → Prop
  | nil (before : List Char) : Tiles source before []
  | cons {before skipped text rest : List Char} {a : Except LexError Token}
    {as : List (Except LexError Token)} (hsource : source = before ++ skipped ++ text ++ rest)
    (hskipped : IsTrivia skipped) (hspan : spanOf a =
      ⟨Position.origin.advance (before ++ skipped),
        Position.origin.advance (before ++ skipped ++ text)⟩)
    (ha : Covers text a) (h : Tiles source (before ++ skipped ++ text) as) :
    Tiles source before (a :: as)

variable {source before : List Char} {l l' : Lexer} {a : Except LexError Token}
  {as : List (Except LexError Token)}

theorem standsBehind_ofText (cs : List Char) : StandsBehind cs [] (ofText cs) := ⟨rfl, rfl⟩

theorem StandsBehind.past (h : StandsBehind source before l) {text rest : List Char}
    (hrest : l.rest = text ++ rest) (pending : Bool) :
    StandsBehind source (before ++ text) (l.past text rest pending) := by
  constructor
  · rw [Lexer.past, h.position, Position.advance_append]
  · rw [h.text, hrest, Lexer.past, List.append_assoc]

theorem StandsBehind.spanBehind (h : StandsBehind source before l) (skipped text : List Char) :
    l.spanBehind skipped text = ⟨Position.origin.advance (before ++ skipped),
      Position.origin.advance (before ++ skipped ++ text)⟩ := by
  rw [Lexer.spanBehind, h.position, List.append_assoc, Position.advance_append _ before,
    Position.advance_append _ before]

theorem isWritten_of_fits {k : TokenKind} {text : List Char} (h : Scan.Fits k text)
    (span : Span) : Token.IsWritten ⟨k, String.ofList text, span⟩ := by
  obtain ⟨hk, htext⟩ := h
  refine ⟨hk, fun hinserted => ?_⟩
  obtain ⟨hsemicolon, hlexeme⟩ := hinserted
  have hspelling : String.ofList text = ";" := by
    rw [htext _ hsemicolon, String.ofList_toList]
    rfl
  have hsame : ";" = "\n" ∨ ";" = "" := hspelling ▸ hlexeme
  exact absurd hsame (by decide)

/-- One answer covers the stretch of text that the lexer goes over, but for trivial text. -/
theorem Step.covers (h : Step l a l') (hl : StandsBehind source before l) :
    ∃ skipped text, source = before ++ skipped ++ text ++ l'.rest ∧ IsTrivia skipped ∧
      spanOf a = ⟨Position.origin.advance (before ++ skipped),
        Position.origin.advance (before ++ skipped ++ text)⟩ ∧
      Covers text a ∧ StandsBehind source (before ++ skipped ++ text) l' := by
  cases h with
  | @token skipped text rest k hrest hskipped hline htext hk =>
    have hl' := hl.past hrest k.endsStatement
    rw [← List.append_assoc] at hl'
    exact ⟨skipped, text, hl'.text, hskipped, hl.spanBehind skipped text,
      .written (isWritten_of_fits hk _) htext rfl, hl'⟩
  | @fault skipped text rest fault hrest hskipped htext =>
    have hl' := hl.past hrest l.pending
    rw [← List.append_assoc] at hl'
    exact ⟨skipped, text, hl'.text, hskipped, hl.spanBehind skipped text, .fault htext, hl'⟩
  | @line skipped rest hrest hskipped hpending hline =>
    have hl' := hl.past hrest false
    rw [← List.append_nil (before ++ skipped)] at hl'
    exact ⟨skipped, [], hl'.text, hskipped, hl.spanBehind skipped [],
      .inserted ⟨rfl, .inl rfl⟩, hl'⟩
  | finish hrest hpending hline =>
    have hl' := hl.past (List.append_nil l.rest).symm false
    rw [← List.append_nil (before ++ l.rest)] at hl'
    exact ⟨l.rest, [], hl'.text, hrest, hl.spanBehind l.rest [], .inserted ⟨rfl, .inr rfl⟩, hl'⟩
  | eof hrest hpending =>
    have hl' := hl.past (List.append_nil l.rest).symm false
    rw [← List.append_nil (before ++ l.rest)] at hl'
    exact ⟨l.rest, [], hl'.text, hrest, hl.spanBehind l.rest [], .eof rfl rfl, hl'⟩

theorem tiles_answers (hl : StandsBehind source before l) (n : Nat) :
    Tiles source before (l.answers n) := by
  induction n generalizing l before with
  | zero => exact .nil before
  | succ n ih =>
    obtain ⟨skipped, text, hsource, hskipped, hspan, hcovers, hl'⟩ := l.step_next.covers hl
    exact .cons hsource hskipped hspan hcovers (ih hl')

namespace Tiles

/-- Where an answer lies, and what it covers. -/
theorem exists_place (h : Tiles source before as) (ha : a ∈ as) :
    ∃ front text rest, source = before ++ front ++ text ++ rest ∧
      spanOf a = ⟨Position.origin.advance (before ++ front),
        Position.origin.advance (before ++ front ++ text)⟩ ∧ Covers text a := by
  induction h with
  | nil => cases ha
  | @cons before skipped text rest b as hsource _ hspan hb _ ih =>
    rw [List.mem_cons] at ha
    by_cases hab : a = b
    · rw [hab]
      exact ⟨skipped, text, rest, hsource, hspan, hb⟩
    · obtain ⟨front, text', rest', hsource', hspan', hcovers⟩ := ih (ha.resolve_left hab)
      refine ⟨skipped ++ text ++ front, text', rest', ?_, ?_, hcovers⟩
      · simpa only [List.append_assoc] using hsource'
      · simpa only [List.append_assoc] using hspan'

theorem start_le_stop (h : Tiles source before as) (ha : a ∈ as) :
    (spanOf a).start.offset ≤ (spanOf a).stop.offset := by
  obtain ⟨front, text, rest, -, hspan, -⟩ := h.exists_place ha
  rw [hspan, Position.offset_origin_advance, Position.offset_origin_advance,
    String.utf8Len_append _ text]
  exact Nat.le_add_right _ _

/-- Every span lies behind the text before the first one. -/
theorem le_start (h : Tiles source before as) (ha : a ∈ as) :
    (Position.origin.advance before).offset ≤ (spanOf a).start.offset := by
  obtain ⟨front, text, rest, -, hspan, -⟩ := h.exists_place ha
  rw [hspan, Position.offset_origin_advance, Position.offset_origin_advance,
    String.utf8Len_append]
  exact Nat.le_add_right _ _

theorem pairwise (h : Tiles source before as) :
    as.Pairwise fun a b => (spanOf a).stop.offset ≤ (spanOf b).start.offset := by
  induction h with
  | nil => exact .nil
  | @cons before skipped text rest a as hsource _ hspan _ hrest ih =>
    refine .cons (fun b hb => ?_) ih
    rw [hspan]
    exact hrest.le_start hb

variable {text : String}

theorem isTrivia_front (h : Tiles text.toList before as) {a : Except LexError Token}
    (ha : a ∈ as.head?) :
    IsTrivia (Position.between text (Position.origin.advance before) (spanOf a).start) := by
  cases h with
  | nil => cases ha
  | @cons _ skipped covered rest b as hsource hskipped hspan _ _ =>
    obtain rfl := Option.some.inj ha
    have hplace : text.toList = before ++ skipped ++ (covered ++ rest) := by
      rw [hsource, List.append_assoc]
    rw [hspan, Position.between_advance hplace]
    exact hskipped

/-- Between two answers in a row stands trivial text. -/
theorem isTrivia_between (h : Tiles text.toList before as) {k : Nat} {a b : Except LexError Token}
    (ha : as[k]? = some a) (hb : as[k + 1]? = some b) :
    IsTrivia (Position.between text (spanOf a).stop (spanOf b).start) := by
  induction h generalizing k with
  | nil => cases ha
  | @cons before skipped covered rest c as _ _ hspan _ hrest ih =>
    cases k with
    | zero =>
      obtain rfl : c = a := by simpa using ha
      rw [hspan]
      refine hrest.isTrivia_front ?_
      rw [List.head?_eq_getElem?]
      exact hb
    | succ k => exact ih ha hb

end Tiles

/-- How many answers can come before the end of the source. -/
def answersLeft (l : Lexer) : Nat :=
  if l.rest = [] ∧ l.pending = false then 0 else l.rest.length + 1

theorem answersLeft_le (l : Lexer) : l.answersLeft ≤ l.rest.length + 1 := by
  unfold answersLeft
  split
  · exact Nat.zero_le _
  · exact Nat.le_refl _

theorem answersLeft_past_lt {text rest : List Char} (htext : text ≠ [])
    (hrest : l.rest = text ++ rest) (pending : Bool) : (l.past text rest pending).answersLeft < l.answersLeft := by
  have hpos := List.length_pos_of_ne_nil htext
  have hlength : l.rest.length = text.length + rest.length := by
    rw [hrest, List.length_append]
  have hle : (l.past text rest pending).answersLeft ≤ rest.length + 1 := answersLeft_le _
  have hne : l.rest ≠ [] := by
    rw [hrest]
    exact List.append_ne_nil_of_left_ne_nil htext rest
  have hleft : l.answersLeft = l.rest.length + 1 := if_neg fun h => hne h.1
  omega

/-- Every answer but the end of the source leaves fewer answers. -/
theorem Step.answersLeft_lt (h : Step l a l') (ha : ∀ t, a = .ok t → t.kind ≠ .eof) :
    l'.answersLeft < l.answersLeft := by
  cases h with
  | token hrest _ _ htext _ =>
    exact answersLeft_past_lt (List.append_ne_nil_of_right_ne_nil _ htext) hrest _
  | fault hrest _ htext =>
    exact answersLeft_past_lt (List.append_ne_nil_of_right_ne_nil _ htext) hrest _
  | line hrest _ _ hline => exact answersLeft_past_lt (List.ne_nil_of_mem hline) hrest _
  | finish _ hpending _ =>
    have hleft : l.answersLeft = l.rest.length + 1 := if_neg fun h => by simp [hpending] at h
    have hnone : (l.past l.rest [] false).answersLeft = 0 := if_pos ⟨rfl, rfl⟩
    omega
  | eof _ _ => exact absurd rfl (ha _ rfl)

/-- The end of a source as an answer. -/
def finalAnswer (source : List Char) : Except LexError Token :=
  .ok ⟨.eof, "", ⟨Position.origin.advance source, Position.origin.advance source⟩⟩

/-- The end of the source is answered behind all of the text, and nothing is left behind it. -/
theorem Step.eq_finalAnswer (h : Step l a l') (hl : StandsBehind source before l) {t : Token}
    (ha : a = .ok t) (ht : t.kind = .eof) : a = finalAnswer source ∧ l'.answersLeft = 0 := by
  cases h with
  | token _ _ _ _ hk =>
    obtain rfl := Except.ok.inj ha
    exact absurd ht hk.1
  | fault => cases ha
  | line =>
    obtain rfl := Except.ok.inj ha
    cases ht
  | finish =>
    obtain rfl := Except.ok.inj ha
    cases ht
  | eof _ _ =>
    refine ⟨?_, if_pos ⟨rfl, rfl⟩⟩
    rw [hl.spanBehind, List.append_nil, ← hl.text]
    rfl

theorem eq_finalAnswer_of_mem_drop (hl : StandsBehind source before l) {n k : Nat}
    (hk : l.answersLeft ≤ k) (ha : a ∈ (l.answers n).drop k) : a = finalAnswer source := by
  induction n generalizing l before k with
  | zero =>
    rw [answers, List.drop_nil] at ha
    cases ha
  | succ n ih =>
    have hstep := l.step_next
    obtain ⟨skipped, text, -, -, -, -, hl'⟩ := hstep.covers hl
    rw [answers] at ha
    by_cases heof : ∃ t, l.next.1 = .ok t ∧ t.kind = .eof
    · obtain ⟨t, ht, hkind⟩ := heof
      obtain ⟨hfinal, hnone⟩ := hstep.eq_finalAnswer hl ht hkind
      cases k with
      | zero =>
        rw [List.drop_zero, List.mem_cons] at ha
        by_cases hfirst : a = l.next.1
        · rw [hfirst, hfinal]
        · exact ih hl' (Nat.le_of_eq hnone) (k := 0) (ha.resolve_left hfirst)
      | succ k => exact ih hl' (by omega) ha
    · have hlt := hstep.answersLeft_lt fun t ht hkind => heof ⟨t, ht, hkind⟩
      cases k with
      | zero => omega
      | succ k => exact ih hl' (by omega) ha

/-- The answers of a lexer in a source: their spans are in order and lie between characters, what
stands between them is trivial, tokens have the text that they cover, and the end of the source is
all that is answered when there are more answers than characters. -/
structure Tiled (source : String) (as : List (Except LexError Token)) : Prop where
  boundaries : ∀ a ∈ as, Position.IsBoundary source (spanOf a).start ∧
    Position.IsBoundary source (spanOf a).stop
  forward : ∀ a ∈ as, (spanOf a).start.offset ≤ (spanOf a).stop.offset
  ordered : as.Pairwise fun a b => (spanOf a).stop.offset ≤ (spanOf b).start.offset
  front : ∀ a ∈ as.head?, IsTrivia (Position.between source .origin (spanOf a).start)
  between : ∀ (k : Nat) a b, as[k]? = some a → as[k + 1]? = some b →
    IsTrivia (Position.between source (spanOf a).stop (spanOf b).start)
  lexemes : ∀ t, .ok t ∈ as → t.lexeme.toList = Position.between source t.span.start t.span.stop ∨
    t.kind = .symbol .semicolon ∧ t.lexeme = "\n" ∧ t.span.start = t.span.stop
  progress : ∀ a ∈ as, (∃ t, a = .ok t ∧ (t.kind = .eof ∨ t.IsInserted)) ∨
    (spanOf a).start.offset < (spanOf a).stop.offset
  ends : ∀ a ∈ as.drop (source.length + 1), ∃ p : Position, p.offset = source.utf8ByteSize ∧
    a = .ok ⟨.eof, "", ⟨p, p⟩⟩

namespace Tiles

variable {text : String}

theorem isBoundary (h : Tiles text.toList [] as) (ha : a ∈ as) :
    Position.IsBoundary text (spanOf a).start ∧ Position.IsBoundary text (spanOf a).stop := by
  obtain ⟨front, covered, rest, hsource, hspan, -⟩ := h.exists_place ha
  have hstart : text.toList = front ++ (covered ++ rest) := by
    rw [hsource, List.append_assoc]
    rfl
  rw [hspan]
  exact ⟨Position.isBoundary_advance hstart, Position.isBoundary_advance hsource⟩

theorem lexeme_eq (h : Tiles text.toList [] as) {t : Token} (ha : .ok t ∈ as) :
    t.lexeme.toList = Position.between text t.span.start t.span.stop ∨
      t.kind = .symbol .semicolon ∧ t.lexeme = "\n" ∧ t.span.start = t.span.stop := by
  obtain ⟨front, covered, rest, hsource, hspan, hcovers⟩ := h.exists_place ha
  have htext : Position.between text t.span.start t.span.stop = covered := by
    rw [show t.span = _ from hspan]
    exact Position.between_advance hsource
  rw [htext]
  cases hcovers with
  | written ht hne hlexeme =>
    left
    rw [hlexeme, String.toList_ofList]
  | eof ht hlexeme =>
    left
    rw [hlexeme]
    rfl
  | inserted ht =>
    obtain ⟨hkind, hline | hend⟩ := ht
    · right
      refine ⟨hkind, hline, ?_⟩
      rw [show t.span = _ from hspan, List.append_nil]
    · left
      rw [hend]
      rfl

theorem start_lt_stop (h : Tiles text.toList [] as) (ha : a ∈ as) :
    (∃ t, a = .ok t ∧ (t.kind = .eof ∨ t.IsInserted)) ∨
      (spanOf a).start.offset < (spanOf a).stop.offset := by
  obtain ⟨front, covered, rest, -, hspan, hcovers⟩ := h.exists_place ha
  have hlt : covered ≠ [] → (spanOf a).start.offset < (spanOf a).stop.offset := by
    intro hne
    obtain ⟨c, cs, rfl⟩ := List.exists_cons_of_ne_nil hne
    have hsize := Char.utf8Size_pos c
    rw [hspan, Position.offset_origin_advance, Position.offset_origin_advance,
      String.utf8Len_append _ (c :: cs), String.utf8Len_cons]
    omega
  cases hcovers with
  | written ht hne _ => exact .inr (hlt hne)
  | fault hne => exact .inr (hlt hne)
  | inserted ht => exact .inl ⟨_, rfl, .inr ht⟩
  | eof ht _ => exact .inl ⟨_, rfl, .inl ht⟩

end Tiles

/-- However many answers are asked for, they tile the source. -/
theorem answers_tiled (source : String) (n : Nat) :
    Tiled source ((ofText source.toList).answers n) := by
  have hstands := standsBehind_ofText source.toList
  have htiles := tiles_answers hstands n
  refine ⟨fun a => htiles.isBoundary, fun a => htiles.start_le_stop, htiles.pairwise,
    fun a => htiles.isTrivia_front, fun k a b => htiles.isTrivia_between,
    fun t => htiles.lexeme_eq, fun a => htiles.start_lt_stop, fun a ha => ?_⟩
  have hleft : (ofText source.toList).answersLeft ≤ source.length + 1 := by
    rw [← String.length_toList]
    exact answersLeft_le _
  refine ⟨Position.origin.advance source.toList, ?_, eq_finalAnswer_of_mem_drop hstands hleft ha⟩
  rw [Position.offset_origin_advance, ← String.utf8ByteSize_ofList, String.ofList_toList]

end Lexer

end BoundedGo
