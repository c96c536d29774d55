import BoundedGo.Parse.Source

/-!
Parsers that succeed. A parser reads a stretch of tokens in front of others when it gives its
result and leaves the stream behind the stretch, whatever lies behind it and ahead of it. What is
read by parsers in a row is what they read, one after the other; a loop reads what its steps read,
as long as each of them goes on by a token (`Loops.reads`, `Collects.reads`).
-/
namespace BoundedGo.Parse

variable {α β : Type} {l : Bool} {ts us post : List Token}

/-- With literals of named types allowed or not, the parser gives `a` and goes on over `ts`, if
`post` follows. -/
def Reads (l : Bool) (p : Parse α) (ts post : List Token) (a : α) : Prop :=
  ∀ seen finish, p ⟨seen, ts ++ post, finish, l⟩ = .ok a ⟨ts.reverse ++ seen, post, finish, l⟩

/-- The kind of the first token; the end of the source stands behind the last one. -/
def headKind : List Token → TokenKind
  | [] => .eof
  | t :: _ => t.kind

@[simp] theorem headKind_nil : headKind [] = .eof := rfl

@[simp] theorem headKind_cons (t : Token) (ts : List Token) : headKind (t :: ts) = t.kind := rfl

theorem current_kind (s : Stream) : s.current.kind = headKind s.rest := by
  unfold Stream.current headKind
  split <;> simp_all [Stream.eof]

theorem bind_ok {p : Parse α} {f : α → Parse β} {s t : Stream} {a : α} (h : p s = .ok a t) :
    (p >>= f) s = f a t := by
  change EStateM.bind p f s = f a t
  rw [EStateM.bind, h]

theorem bind_error {p : Parse α} {f : α → Parse β} {s t : Stream} {e : SyntaxError}
    (h : p s = .error e t) : (p >>= f) s = .error e t := by
  change EStateM.bind p f s = .error e t
  rw [EStateM.bind, h]

theorem kind_eq (s : Stream) : kind s = .ok (headKind s.rest) s := by
  rw [← current_kind]
  rfl

theorem isAt_eq (k : TokenKind) (s : Stream) :
    isAt k s = .ok (decide (headKind s.rest = k)) s := by
  rw [← current_kind]
  rfl

theorem accept_none {k : TokenKind} {s : Stream} (h : headKind s.rest ≠ k) :
    accept k s = .ok false s := by
  rw [accept, bind_ok (isAt_eq k s), if_neg (by simpa using h)]
  rfl

/-- Tokens in front of the end of the source. -/
theorem ofTokens_append_eof {eof : Token} (heof : eof.kind = .eof) (ts : List Token) :
    Stream.ofTokens (ts ++ [eof]) = ⟨[], ts, eof.span, true⟩ := by
  simp [Stream.ofTokens, heof]

namespace Reads

theorem pure (a : α) : Reads l (Pure.pure a : Parse α) [] post a := fun _ _ => rfl

theorem bind {p : Parse α} {f : α → Parse β} {a : α} {b : β} (hp : Reads l p ts (us ++ post) a)
    (hf : Reads l (f a) us post b) : Reads l (p >>= f) (ts ++ us) post b := by
  intro seen finish
  change EStateM.bind p f _ = _
  rw [EStateM.bind, List.append_assoc, hp]
  simp only [List.reverse_append, List.append_assoc]
  exact hf _ _

/-- A parser that only looks ahead. -/
theorem peek {p : Parse α} {f : α → Parse β} {a : α} {b : β} (hp : Reads l p [] (us ++ post) a)
    (hf : Reads l (f a) us post b) : Reads l (p >>= f) us post b :=
  bind hp hf

/-- A parser that goes on by one token. -/
theorem step {p : Parse α} {f : α → Parse β} {a : α} {b : β} {t : Token}
    (hp : Reads l p [t] (us ++ post) a) (hf : Reads l (f a) us post b) :
    Reads l (p >>= f) (t :: us) post b :=
  bind hp hf

/-- A parser behind which nothing more is read. -/
theorem last {p : Parse α} {f : α → Parse β} {a : α} {b : β} (hp : Reads l p ts post a)
    (hf : Reads l (f a) [] post b) : Reads l (p >>= f) ts post b := by
  rw [← List.append_nil ts]
  exact bind hp hf

theorem kind : Reads l Parse.kind [] post (headKind post) := fun _ _ => by
  simp [Parse.kind, current_kind]

theorem current (t : Token) : Reads l Parse.current [] (t :: post) t := fun _ _ => rfl

theorem kindAt_one (t : Token) : Reads l (Parse.kindAt 1) [] (t :: post) (headKind post) := by
  intro seen finish
  cases post <;> rfl

theorem skip (t : Token) : Reads l Parse.skip [t] post () := fun _ _ => rfl

theorem isAt (k : TokenKind) : Reads l (Parse.isAt k) [] post (headKind post = k) :=
  last kind (pure _)

theorem accept {k : TokenKind} {t : Token} (h : t.kind = k) :
    Reads l (Parse.accept k) [t] post true := by
  have hk : headKind ([t] ++ post) = k := h
  refine peek (isAt k) ?_
  rw [if_pos (decide_eq_true hk)]
  exact step (skip t) (pure true)

theorem accept_other {k : TokenKind} (h : headKind post ≠ k) :
    Reads l (Parse.accept k) [] post false := by
  refine peek (isAt k) ?_
  rw [if_neg (by simpa using h)]
  exact pure false

theorem expectSymbol {s : Symbol} {t : Token} (h : t.kind = .symbol s) :
    Reads l (Parse.expectSymbol s) [t] post () :=
  last (accept h) (pure ())

theorem expectKeyword {w : Keyword} {t : Token} (h : t.kind = .keyword w) :
    Reads l (Parse.expectKeyword w) [t] post () :=
  last (accept h) (pure ())

theorem identifier {t : Token} (h : t.kind = .ident) :
    Reads l Parse.identifier [t] post t.lexeme := by
  refine peek (current t) ?_
  rw [if_pos h]
  exact step (skip t) (pure t.lexeme)

/-- A semicolon at the end of a statement is read. -/
theorem statementEnd {t : Token} (h : t.kind = .symbol .semicolon) :
    Reads l Parse.statementEnd [t] post () := by
  refine peek kind ?_
  rw [show headKind ([t] ++ post) = .symbol .semicolon from h]
  exact skip t

/-- Where no semicolon stands there is none to skip. -/
theorem skipSemicolons (h : headKind post ≠ .symbol .semicolon) :
    Reads l Parse.skipSemicolons [] post () := by
  intro seen finish
  cases post with
  | nil => rfl
  | cons t post =>
    have ht : t.kind ≠ .symbol .semicolon := h
    simp [Parse.skipSemicolons, Stream.skipSemicolons, ht]

/-- Inside and outside of `withLiterals` other literals may be allowed. -/
theorem withLiterals {p : Parse α} {a : α} {allowed : Bool} (h : Reads allowed p ts post a) :
    Reads l (Parse.withLiterals allowed p) ts post a := by
  intro seen finish
  simp only [Parse.withLiterals, h seen finish]

end Reads

/-- The steps of a loop from `x` to `y`, each of which goes on by a token; then a step gives
nothing. -/
inductive Loops (l : Bool) (step : α → Parse (Option α)) : α → List Token → List Token → α → Prop
  | stop {x : α} {post : List Token} (h : Reads l (step x) [] post none) : Loops l step x [] post x
  | next {x y z : α} {t : Token} {ts us post : List Token}
    (hstep : Reads l (step x) (t :: ts) (us ++ post) (some y)) (h : Loops l step y us post z) :
    Loops l step x (t :: ts ++ us) post z

theorem Loops.readsN {step : α → Parse (Option α)} {x y : α} (h : Loops l step x ts post y)
    {n : Nat} (hn : ts.length < n) : Reads l (iterateN step n x) ts post y := by
  induction h generalizing n with
  | stop h =>
    obtain ⟨n, rfl⟩ := Nat.exists_eq_add_of_lt hn
    exact .peek h (.pure _)
  | next hstep _ ih =>
    cases n with
    | zero => exact absurd hn (Nat.not_lt_zero _)
    | succ n =>
      refine .bind hstep (ih ?_)
      simp only [List.length_append, List.length_cons] at hn
      omega

/-- The tokens ahead are enough fuel. -/
theorem Loops.reads {step : α → Parse (Option α)} {x y : α} (h : Loops l step x ts post y) :
    Reads l (iterate step x) ts post y := by
  intro seen finish
  refine h.readsN ?_ seen finish
  simp only [List.length_append]
  omega

/-- The steps that collect values, each of which goes on by a token; the last step gives nothing,
but may read what closes the values. -/
inductive Collects (l : Bool) (step : Parse (Option α)) :
    List Token → List Token → List α → Prop
  | stop {ts post : List Token} (h : Reads l step ts post none) : Collects l step ts post []
  | next {x : α} {xs : List α} {t : Token} {ts us post : List Token}
    (hstep : Reads l step (t :: ts) (us ++ post) (some x)) (h : Collects l step us post xs) :
    Collects l step (t :: ts ++ us) post (x :: xs)

theorem Collects.readsN {step : Parse (Option α)} {xs : List α} (h : Collects l step ts post xs)
    {n : Nat} (hn : ts.length < n) : Reads l (collectN step n) ts post xs := by
  induction h generalizing n with
  | stop h =>
    obtain ⟨n, rfl⟩ := Nat.exists_eq_add_of_lt hn
    exact .last h (.pure [])
  | next hstep _ ih =>
    cases n with
    | zero => exact absurd hn (Nat.not_lt_zero _)
    | succ n =>
      refine .bind hstep (.last (ih ?_) (.pure _))
      simp only [List.length_append, List.length_cons] at hn
      omega

theorem Collects.reads {step : Parse (Option α)} {xs : List α} (h : Collects l step ts post xs) :
    Reads l (collect step) ts post xs := by
  intro seen finish
  refine h.readsN ?_ seen finish
  simp only [List.length_append]
  omega

/-- The step of the loop over items behind the first one. -/
def commaStep (close : Symbol) (item : Parse α) : Parse (Option α) := do
  if ← accept Symbol.comma then
    if ← isAt close then return none else return some (← item)
  else return none

namespace Reads

variable {close : Symbol} {item : Parse α} {t : Token}

theorem commaClosed_nil (ht : t.kind = .symbol close) :
    Reads l (commaClosed close item) [t] post [] := by
  have hclose : headKind ([t] ++ post) = .symbol close := ht
  refine peek (isAt close) ?_
  dsimp only
  rw [if_pos (decide_eq_true hclose)]
  exact peek (pure []) (step (expectSymbol ht) (pure []))

theorem commaClosed_cons {x : α} {xs : List α} (ht : t.kind = .symbol close)
    (hstart : headKind (ts ++ (us ++ t :: post)) ≠ .symbol close)
    (hx : Reads l item ts (us ++ t :: post) x)
    (hxs : Collects l (commaStep close item) us (t :: post) xs) :
    Reads l (commaClosed close item) (ts ++ (us ++ [t])) post (x :: xs) := by
  have hrest : us ++ [t] ++ post = us ++ t :: post := by simp
  refine peek (isAt close) ?_
  dsimp only
  rw [List.append_assoc ts, hrest, if_neg (by simpa using hstart)]
  refine bind (a := x) ?_ ?_
  · rw [hrest]
    exact hx
  · exact bind hxs.reads (peek (pure _) (last (expectSymbol ht) (pure _)))

end Reads

end BoundedGo.Parse
