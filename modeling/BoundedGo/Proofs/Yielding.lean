import BoundedGo.Proofs.Outcomes
import BoundedGo.Proofs.Spellings

/-!
What the values of a parser have in common, if something is known of the tokens ahead. A property
of pieces that holds of all tokens ahead holds of all tokens that a parser leaves, since it leaves
tokens that were ahead; so it is known in front of every parser in a row. A parser yields `F` if
`F` holds of every value that it gives in front of such tokens.
-/
namespace BoundedGo.Parse

variable {α β : Type} {W : Piece → Prop} {p : Parse α} {f : α → Parse β} {F F' : α → Prop}
  {G : β → Prop} {k : TokenKind}

/-- In front of tokens whose pieces have `W` the parser gives values with `F` only, and it leaves
tokens whose pieces have `W`. -/
def Yields (W : Piece → Prop) (p : Parse α) (F : α → Prop) : Prop :=
  ∀ r, (∀ t ∈ r, W t.piece) → Ensures p r fun a r' => F a ∧ ∀ t ∈ r', W t.piece

/-- The same in front of a token of the given kind. -/
def YieldsAt (k : TokenKind) (W : Piece → Prop) (p : Parse α) (F : α → Prop) : Prop :=
  ∀ r, headKind r = k → (∀ t ∈ r, W t.piece) →
    Ensures p r fun a r' => F a ∧ ∀ t ∈ r', W t.piece

theorem YieldsAt.of (h : Yields W p F) : YieldsAt k W p F := fun r _ => h r

theorem YieldsAt.mono (h : YieldsAt k W p F) (hF : ∀ a, F a → F' a) : YieldsAt k W p F' :=
  fun r hk hr => (h r hk hr).mono fun a _ ha => ⟨hF a ha.1, ha.2⟩

namespace Yields

theorem mono (h : Yields W p F) (hF : ∀ a, F a → F' a) : Yields W p F' :=
  fun r hr => (h r hr).mono fun a _ ha => ⟨hF a ha.1, ha.2⟩

theorem of_at (h : ∀ k, YieldsAt k W p F) : Yields W p F := fun r hr => h _ r rfl hr

theorem pure {a : α} (h : F a) : Yields W (Pure.pure a) F := fun _ hr => .pure ⟨h, hr⟩

theorem fail (fault : SyntaxFault) : Yields W (Parse.fail fault) F := fun _ _ => .fail fault

theorem refuse (wanted : Expectation) : Yields W (Parse.refuse wanted) F :=
  fun _ _ => .refuse wanted

theorem bind (hp : Yields W p F) (hf : ∀ a, F a → Yields W (f a) G) : Yields W (p >>= f) G :=
  fun r hr => .bind ((hp r hr).mono fun a r' ha => hf a ha.1 r' ha.2)

/-- Only the kind of the token ahead is known behind a look at it. -/
theorem kind_bind {f : TokenKind → Parse β} (h : ∀ k, YieldsAt k W (f k) G) :
    Yields W (Parse.kind >>= f) G :=
  fun r hr => .kind_bind (h _ r rfl hr)

theorem kindAt_bind {n : Nat} {f : TokenKind → Parse β} (h : ∀ k, Yields W (f k) G) :
    Yields W (Parse.kindAt n >>= f) G :=
  fun r hr => .kindAt_bind fun k _ => h k r hr

theorem literalsAllowed_bind {f : Bool → Parse β} (h : ∀ b, Yields W (f b) G) :
    Yields W (Parse.literalsAllowed >>= f) G :=
  fun r hr => .literalsAllowed_bind fun b => h b r hr

theorem isAt_bind {f : Bool → Parse β} (hyes : YieldsAt k W (f true) G)
    (hno : Yields W (f false) G) : Yields W (Parse.isAt k >>= f) G :=
  fun r hr => .isAt_bind (fun hk => hyes r hk hr) fun _ => hno r hr

theorem withLiterals {allowed : Bool} (h : Yields W p F) :
    Yields W (Parse.withLiterals allowed p) F :=
  fun r hr => .withLiterals (h r hr)

end Yields

namespace YieldsAt

theorem skip_bind {f : Unit → Parse β} (h : Yields W (f ()) G) :
    YieldsAt k W (Parse.skip >>= f) G :=
  fun r _ hr => .bind (.skip (h r.tail fun t ht => hr t (List.mem_of_mem_tail ht)))

theorem kind_bind {f : TokenKind → Parse β} (h : YieldsAt k W (f k) G) :
    YieldsAt k W (Parse.kind >>= f) G := by
  rintro r rfl hr
  exact .kind_bind (h r rfl hr)

/-- The end of the source is not among the tokens. -/
theorem current_bind {f : Token → Parse β}
    (h : ∀ t : Token, t.kind = k → (k ≠ .eof → W (k, t.lexeme)) → YieldsAt k W (f t) G) :
    YieldsAt k W (Parse.current >>= f) G := by
  refine fun r hk hr => .current_bind fun t ht hhead => h t (ht.trans hk) (fun hne => ?_) r hk hr
  obtain ⟨u, r, rfl, hu⟩ := exists_cons_of_headKind hk hne
  obtain rfl := hhead u rfl
  rw [← hu]
  exact hr t List.mem_cons_self

theorem isAt_bind {k' : TokenKind} {f : Bool → Parse β} (hyes : YieldsAt k W (f true) G)
    (hno : YieldsAt k W (f false) G) : YieldsAt k W (Parse.isAt k' >>= f) G :=
  fun r hk hr => .isAt_bind (fun _ => hyes r hk hr) fun _ => hno r hk hr

theorem accept_bind {k' : TokenKind} {f : Bool → Parse β} (hyes : Yields W (f true) G)
    (hno : YieldsAt k W (f false) G) : YieldsAt k W (Parse.accept k' >>= f) G :=
  fun r hk hr => .accept_bind
    (fun _ => hyes r.tail fun t ht => hr t (List.mem_of_mem_tail ht)) fun _ => hno r hk hr

end YieldsAt

namespace Yields

theorem accept_bind {f : Bool → Parse β} (hyes : Yields W (f true) G)
    (hno : Yields W (f false) G) : Yields W (Parse.accept k >>= f) G :=
  .of_at fun _ => .accept_bind hyes (.of hno)

theorem skip_bind {f : Unit → Parse β} (h : Yields W (f ()) G) : Yields W (Parse.skip >>= f) G :=
  .of_at fun _ => .skip_bind h

theorem expectSymbol (s : Symbol) : Yields W (Parse.expectSymbol s) fun _ => True :=
  accept_bind (pure trivial) (refuse _)

theorem expectKeyword (w : Keyword) : Yields W (Parse.expectKeyword w) fun _ => True :=
  accept_bind (pure trivial) (refuse _)

theorem identifier : Yields W Parse.identifier fun name => W (.ident, name) := by
  refine .of_at fun k => .current_bind fun t ht hword => ?_
  rw [ht]
  split
  · rename_i hk
    subst hk
    exact .skip_bind (pure (hword nofun))
  · exact .of (refuse _)

/-- Behind semicolons that are skipped there is no other one. -/
theorem skipSemicolons_bind {f : Unit → Parse β}
    (h : ∀ k, k ≠ .symbol .semicolon → YieldsAt k W (f ()) G) :
    Yields W (Parse.skipSemicolons >>= f) G := by
  refine fun r hr => .bind (.skipSemicolons (h _ ?_ _ rfl fun t ht => ?_))
  · induction r with
    | nil => nofun
    | cons t r ih =>
      rw [List.dropWhile_cons]
      split
      · exact ih fun u hu => hr u (List.mem_cons_of_mem t hu)
      · rename_i hk
        simpa using hk
  · exact hr t ((List.dropWhile_suffix _).mem ht)

theorem statementEnd : Yields W Parse.statementEnd fun _ => True := by
  refine kind_bind fun k => ?_
  split
  · exact fun r _ hr => .skip ⟨trivial, fun t ht => hr t (List.mem_of_mem_tail ht)⟩
  · exact .of (pure trivial)
  · exact .of (pure trivial)
  · exact .of (pure trivial)
  · exact .of (refuse _)

/-- A loop whose steps keep a property yields it. -/
theorem iterate {step : α → Parse (Option α)} (h : ∀ x, F x → Yields W (step x) (∀ y ∈ ·, F y))
    {x : α} (hx : F x) : Yields W (Parse.iterate step x) F := by
  refine fun r hr => .iterate (J := fun y r' => F y ∧ ∀ t ∈ r', W t.piece)
    (fun y r' hy => ((h y hy.1) r' hy.2).mono fun o r'' ho => ?_) ⟨hx, hr⟩
  cases o with
  | none => exact ⟨hy.1, ho.2⟩
  | some z => exact ⟨ho.1 z rfl, ho.2⟩

theorem collect {step : Parse (Option α)} (h : Yields W step (∀ x ∈ ·, F x)) :
    Yields W (Parse.collect step) (∀ x ∈ ·, F x) := by
  refine fun r hr => (Ensures.collect (I := fun r xs r' => (∀ t ∈ r, W t.piece) →
    (∀ x ∈ xs, F x) ∧ ∀ t ∈ r', W t.piece) (fun r s o t hs ho => ?_) r).mono fun _ _ hxs => hxs hr
  cases o with
  | none => exact fun hr => ⟨nofun, (h r hr hs ho).2⟩
  | some x =>
    intro xs r'' hxs hr
    obtain ⟨hx, hrest⟩ := h r hr hs ho
    obtain ⟨hall, hleft⟩ := hxs hrest
    exact ⟨List.forall_mem_cons.mpr ⟨hx x rfl, hall⟩, hleft⟩

theorem some_pure {a : α} (h : F a) : Yields W (Pure.pure (some a)) (∀ x ∈ ·, F x) := by
  refine pure ?_
  rintro _ ⟨⟩
  exact h

theorem none_pure : Yields W (Pure.pure none) (∀ x ∈ ·, F x) := pure nofun

theorem map {g : α → β} (h : Yields W p F) (hg : ∀ a, F a → G (g a)) : Yields W (g <$> p) G :=
  fun r hr => .map ((h r hr).mono fun a _ ha => ⟨hg a ha.1, ha.2⟩)

theorem some_map (h : Yields W p F) : Yields W (some <$> p) (∀ x ∈ ·, F x) := by
  refine h.map ?_
  rintro a ha _ ⟨⟩
  exact ha

theorem commaSeparated (h : Yields W p F) :
    Yields W (Parse.commaSeparated p) fun xs => xs ≠ [] ∧ ∀ x ∈ xs, F x := by
  refine bind h fun first hfirst => bind (collect (F := F) ?_) fun others hothers => pure ?_
  · exact accept_bind (bind h fun x hx => some_pure hx) none_pure
  · exact ⟨nofun, List.forall_mem_cons.mpr ⟨hfirst, hothers⟩⟩

theorem commaClosed (close : Symbol) (h : Yields W p F) :
    Yields W (Parse.commaClosed close p) (∀ x ∈ ·, F x) := by
  have hend : ∀ xs : List α, (∀ x ∈ xs, F x) →
      Yields W (do Parse.expectSymbol close; return xs) (∀ x ∈ ·, F x) :=
    fun xs hxs => bind (expectSymbol close) fun _ _ => pure hxs
  refine isAt_bind (.of (bind (pure (F := (· = [])) rfl) fun xs hxs => hend xs (hxs ▸ nofun))) ?_
  refine bind h fun first hfirst => bind (collect (F := F) ?_) fun others hothers => ?_
  · exact accept_bind (isAt_bind (.of none_pure) (bind h fun x hx => some_pure hx)) none_pure
  · exact bind (pure rfl) fun xs hxs => hend xs (hxs ▸ List.forall_mem_cons.mpr ⟨hfirst, hothers⟩)

/-- No item begins with a semicolon. -/
theorem statementsClosed (close : Symbol)
    (h : ∀ k, k ≠ .symbol .semicolon → YieldsAt k W p F) :
    Yields W (Parse.statementsClosed close p) (∀ x ∈ ·, F x) := by
  refine collect (skipSemicolons_bind fun k hk => .accept_bind none_pure fun r hr hall => ?_)
  exact .bind ((h k hk r hr hall).mono fun x r' hx =>
    bind statementEnd (fun _ _ => some_pure hx.1) r' hx.2)

end Yields

end BoundedGo.Parse
