import BoundedGo.Proofs.Reading

/-!
What the successes of a parser have in common. A parser ensures a property in front of some tokens
if the property holds of every value that it gives there and of the tokens that it leaves. How it
fails does not count, and neither do the tokens behind it nor the literals that are allowed. To
parsers in a row the rules apply from the first one on; a loop ensures what its rounds keep
(`Ensures.iterate`, `Ensures.collect`).
-/
namespace BoundedGo

theorem UnaryOp.symbol_eq_of_ofSymbol? {s : Symbol} {op : UnaryOp} (h : ofSymbol? s = some op) :
    op.symbol = s := by
  cases s <;> simp_all [ofSymbol?] <;> subst h <;> rfl

namespace Parse

variable {α β : Type} {p : Parse α} {f : α → Parse β} {r : List Token}

theorem exists_cons_of_headKind {k : TokenKind} (h : headKind r = k) (hk : k ≠ .eof) :
    ∃ t r', r = t :: r' ∧ t.kind = k := by
  cases r with
  | nil => exact absurd h.symm hk
  | cons t r' => exact ⟨t, r', rfl, h⟩

/-- Where no token stands for the end of the source, it is ahead only behind all tokens. -/
theorem eq_nil_of_headKind (h : ∀ t ∈ r, t.kind ≠ .eof) (hr : headKind r = .eof) : r = [] := by
  cases r with
  | nil => rfl
  | cons t r => exact absurd hr (h t List.mem_cons_self)

/-- Whatever the parser gives in front of `r`, `Q` holds of it and of the tokens that are left. -/
def Ensures (p : Parse α) (r : List Token) (Q : α → List Token → Prop) : Prop :=
  ∀ ⦃s a t⦄, s.rest = r → p s = .ok a t → Q a t.rest

/-- What holds behind a round of a loop: `S` if the round gives nothing, `J` if it gives a value. -/
def AfterRound (S : List Token → Prop) (J : α → List Token → Prop) :
    Option α → List Token → Prop
  | none, r => S r
  | some y, r => J y r

namespace Ensures

variable {Q Q' : α → List Token → Prop} {R : β → List Token → Prop}

theorem mono (h : Ensures p r Q) (hQ : ∀ a r', Q a r' → Q' a r') : Ensures p r Q' :=
  fun _ _ _ hs hp => hQ _ _ (h hs hp)

theorem and (h : Ensures p r Q) (h' : Ensures p r Q') : Ensures p r fun a r' => Q a r' ∧ Q' a r' :=
  fun _ _ _ hs hp => ⟨h hs hp, h' hs hp⟩

theorem pure {a : α} (h : Q a r) : Ensures (Pure.pure a) r Q := by
  rintro s _ _ rfl ⟨⟩
  exact h

theorem fail (fault : SyntaxFault) : Ensures (Parse.fail fault) r Q := nofun

theorem refuse (wanted : Expectation) : Ensures (Parse.refuse wanted) r Q := nofun

theorem bind (h : Ensures p r fun a r' => Ensures (f a) r' R) : Ensures (p >>= f) r R := by
  intro s b t hs hb
  change EStateM.bind p f s = _ at hb
  unfold EStateM.bind at hb
  split at hb
  · rename_i a u ha
    exact h hs ha rfl hb
  · cases hb

/-- A parser of whose value nothing has to be known. -/
theorem bind_any (h : ∀ a r', Ensures (f a) r' R) : Ensures (p >>= f) r R :=
  bind fun _ _ _ _ _ => h _ _

theorem map {g : α → β} (h : Ensures p r fun a r' => R (g a) r') : Ensures (g <$> p) r R :=
  bind (f := fun a => Pure.pure (g a)) (h.mono fun _ _ => pure)

theorem skip {Q : Unit → List Token → Prop} (h : Q () r.tail) : Ensures Parse.skip r Q := by
  rintro s _ _ rfl ⟨⟩
  have hrest : s.advance.rest = s.rest.tail := by
    unfold Stream.advance
    split <;> simp_all
  rwa [hrest]

theorem skipSemicolons {Q : Unit → List Token → Prop}
    (h : Q () (r.dropWhile (·.kind = .symbol .semicolon))) : Ensures Parse.skipSemicolons r Q := by
  rintro s _ _ rfl ⟨⟩
  exact h

theorem kind_bind {f : TokenKind → Parse β} (h : Ensures (f (headKind r)) r R) :
    Ensures (Parse.kind >>= f) r R := by
  refine bind ?_
  rintro s _ _ rfl ⟨⟩
  rwa [current_kind]

/-- The token ahead, which at the end is the end of the source. -/
theorem current_bind {f : Token → Parse β}
    (h : ∀ t : Token, t.kind = headKind r → (∀ u ∈ r.head?, t = u) → Ensures (f t) r R) :
    Ensures (Parse.current >>= f) r R := by
  refine bind ?_
  rintro s _ _ rfl ⟨⟩
  refine h _ (current_kind s) fun u hu => ?_
  obtain ⟨rest, hrest⟩ := List.head?_eq_some_iff.mp hu
  rw [Stream.current, hrest]

/-- The kind of one of the tokens ahead. -/
theorem kindAt_bind {n : Nat} {f : TokenKind → Parse β}
    (h : ∀ k, (k = .eof ∨ ∃ t ∈ r, t.kind = k) → Ensures (f k) r R) :
    Ensures (Parse.kindAt n >>= f) r R := by
  refine bind ?_
  rintro s _ _ rfl ⟨⟩
  refine h _ ?_
  unfold Stream.kindAt
  split
  · rename_i t ht
    exact .inr ⟨t, List.mem_of_getElem? ht, rfl⟩
  · exact .inl rfl

theorem literalsAllowed_bind {f : Bool → Parse β} (h : ∀ b, Ensures (f b) r R) :
    Ensures (Parse.literalsAllowed >>= f) r R := by
  refine bind ?_
  rintro s _ _ rfl ⟨⟩
  exact h _

theorem isAt_bind {k : TokenKind} {f : Bool → Parse β}
    (hyes : headKind r = k → Ensures (f true) r R) (hno : headKind r ≠ k → Ensures (f false) r R) :
    Ensures (Parse.isAt k >>= f) r R := by
  refine bind (kind_bind (pure ?_))
  by_cases hk : headKind r = k
  · rw [decide_eq_true hk]
    exact hyes hk
  · rw [decide_eq_false hk]
    exact hno hk

theorem accept_bind {k : TokenKind} {f : Bool → Parse β}
    (hyes : headKind r = k → Ensures (f true) r.tail R)
    (hno : headKind r ≠ k → Ensures (f false) r R) : Ensures (Parse.accept k >>= f) r R := by
  refine bind (isAt_bind (fun hk => ?_) fun hk => ?_)
  · exact bind (skip (pure (hyes hk)))
  · exact pure (hno hk)

theorem expectSymbol_bind {s : Symbol} {f : Unit → Parse β}
    (h : headKind r = .symbol s → Ensures (f ()) r.tail R) :
    Ensures (Parse.expectSymbol s >>= f) r R :=
  bind (accept_bind (fun hk => pure (h hk)) fun _ => refuse _)

theorem expectKeyword_bind {w : Keyword} {f : Unit → Parse β}
    (h : headKind r = .keyword w → Ensures (f ()) r.tail R) :
    Ensures (Parse.expectKeyword w >>= f) r R :=
  bind (accept_bind (fun hk => pure (h hk)) fun _ => refuse _)

theorem withLiterals {allowed : Bool} (h : Ensures p r Q) :
    Ensures (Parse.withLiterals allowed p) r Q := by
  rintro s a t rfl ht
  unfold Parse.withLiterals at ht
  split at ht
  · rename_i u hu
    cases ht
    have hinside : Q a u.rest := h (s := { s with literals := allowed }) rfl hu
    exact hinside
  · cases ht

/-- A loop that keeps `J` and stops with `S`. -/
theorem iterate {step : α → Parse (Option α)} {J S : α → List Token → Prop}
    (h : ∀ x r, J x r → Ensures (step x) r (AfterRound (S x) J))
    {x : α} (hx : J x r) : Ensures (Parse.iterate step x) r S := by
  have hrounds : ∀ n x r, J x r → Ensures (iterateN step n x) r S := by
    intro n
    induction n with
    | zero => exact fun _ _ _ => fail _
    | succ n ih =>
      refine fun x r hx => bind ((h x r hx).mono fun o r' ho => ?_)
      cases o with
      | none => exact pure ho
      | some y => exact ih y r' ho
  exact fun s _ _ hs ht => hrounds (s.rest.length + 1) x r hx hs ht

/-- A loop that collects values: what holds of its end, and is carried from behind a round to the
front of it, holds of the whole. -/
theorem collect {step : Parse (Option α)} {I : List Token → List α → List Token → Prop}
    (h : ∀ r, Ensures step r
      (AfterRound (I r []) fun x r' => ∀ xs r'', I r' xs r'' → I r (x :: xs) r''))
    (r : List Token) : Ensures (Parse.collect step) r (I r) := by
  have hrounds : ∀ n r, Ensures (collectN step n) r (I r) := by
    intro n
    induction n with
    | zero => exact fun _ => fail _
    | succ n ih =>
      refine fun r => bind ((h r).mono fun o r' ho => ?_)
      cases o with
      | none => exact pure ho
      | some x => exact bind ((ih r').mono fun xs r'' hxs => pure (ho xs r'' hxs))
  exact fun s _ _ hs ht => hrounds (s.rest.length + 1) r hs ht

/-- An operator in front of an operand stays ahead until it is skipped. -/
theorem unaryOp? : Ensures Parse.unaryOp? r fun o r' =>
    r' = r ∧ ∀ op ∈ o, headKind r = .symbol op.symbol := by
  refine .kind_bind ?_
  split
  · rename_i hk
    refine .kindAt_bind fun k _ => ?_
    split
    · exact .pure ⟨rfl, nofun⟩
    · refine .pure ⟨rfl, ?_⟩
      rintro _ ⟨⟩
      exact hk
  · rename_i s _ hk
    refine .pure ⟨rfl, fun op hop => ?_⟩
    rw [hk, UnaryOp.symbol_eq_of_ofSymbol? hop]
  · exact .pure ⟨rfl, nofun⟩

/-- So does an operator between two operands, and wherever there is one it is found. -/
theorem binaryOp? : Ensures Parse.binaryOp? r fun o r' =>
    r' = r ∧ ∀ op, op ∈ o ↔ headKind r = .symbol op.symbol := by
  refine .kind_bind ?_
  split
  · rename_i s hk
    refine .pure ⟨rfl, fun op => ⟨fun hop => ?_, fun hop => ?_⟩⟩
    · rw [hk, BinaryOp.symbol_eq_of_ofSymbol? hop]
    · obtain rfl := TokenKind.symbol.inj (hk.symm.trans hop)
      exact BinaryOp.ofSymbol?_symbol op
  · rename_i hk
    exact .pure ⟨rfl, fun op => ⟨nofun, fun hop => absurd hop (hk _)⟩⟩

end Ensures

end Parse

end BoundedGo
