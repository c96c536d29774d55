import BoundedGo.Proofs.Outcomes

/-!
Parsers that go on and come to an end. A parser leaves the stream behind where it was or further
on, whether it succeeds or fails, and changes nothing else in it. What matters besides is which of
its values cost a token, and in front of how many tokens it does not run out of depth, so that a
parser of greater depth gives the same. A loop ends when each of its rounds costs a token, and
nested productions end because a token stands in front of them (`Proceeds.bind_first`).
-/
namespace BoundedGo

namespace Stream

theorem length_tokens (s : Stream) : s.tokens.length = s.cursor + s.rest.length + 1 := by
  simp [tokens, cursor, Nat.add_assoc]

/-- The stream `t` is the stream `s` further on, or at the same place. -/
structure LeadsTo (s t : Stream) : Prop where
  tokens : ∃ ts, s.rest = ts ++ t.rest ∧ t.seen = ts.reverse ++ s.seen
  finish : t.finish = s.finish
  literals : t.literals = s.literals

namespace LeadsTo

variable {s t u : Stream}

theorem refl (s : Stream) : s.LeadsTo s := ⟨⟨[], rfl, rfl⟩, rfl, rfl⟩

theorem trans (h : s.LeadsTo t) (h' : t.LeadsTo u) : s.LeadsTo u := by
  obtain ⟨ts, hrest, hseen⟩ := h.tokens
  obtain ⟨us, hrest', hseen'⟩ := h'.tokens
  refine ⟨⟨ts ++ us, ?_, ?_⟩, h'.finish.trans h.finish, h'.literals.trans h.literals⟩
  · rw [hrest, hrest', List.append_assoc]
  · rw [hseen', hseen, List.reverse_append, List.append_assoc]

theorem length_le (h : s.LeadsTo t) : t.rest.length ≤ s.rest.length := by
  obtain ⟨ts, hrest, -⟩ := h.tokens
  rw [hrest, List.length_append]
  exact Nat.le_add_left _ _

/-- What the cursor gains, the tokens ahead lose. -/
theorem cursor_add (h : s.LeadsTo t) :
    t.cursor + t.rest.length = s.cursor + s.rest.length := by
  obtain ⟨ts, hrest, hseen⟩ := h.tokens
  have hcursor : t.cursor = ts.length + s.cursor := by
    rw [cursor, hseen, List.length_append, List.length_reverse, cursor]
  have hlength : s.rest.length = ts.length + t.rest.length := by
    rw [hrest, List.length_append]
  omega

theorem tokens_eq (h : s.LeadsTo t) : t.tokens = s.tokens := by
  obtain ⟨ts, hrest, hseen⟩ := h.tokens
  simp [Stream.tokens, eof, hrest, hseen, h.finish]

theorem advance (s : Stream) : s.LeadsTo s.advance := by
  unfold Stream.advance
  split
  · exact refl s
  · rename_i t rest hrest
    exact ⟨⟨[t], hrest, rfl⟩, rfl, rfl⟩

theorem skipSemicolons (s : Stream) : s.LeadsTo s.skipSemicolons :=
  ⟨⟨_, List.takeWhile_append_dropWhile.symm, rfl⟩, rfl, rfl⟩

end LeadsTo

/-- Going on from a token that is not the end of the source leaves one token less. -/
theorem length_advance_lt {s : Stream} (h : Parse.headKind s.rest ≠ .eof) :
    s.advance.rest.length < s.rest.length := by
  unfold advance
  split
  · rename_i hrest
    rw [hrest] at h
    exact absurd rfl h
  · rename_i t rest hrest
    rw [hrest]
    exact Nat.lt_succ_self _

theorem headKind_skipSemicolons (s : Stream) :
    Parse.headKind s.skipSemicolons.rest ≠ .symbol .semicolon := by
  intro h
  obtain ⟨t, rest, hrest, hkind⟩ := Parse.exists_cons_of_headKind h nofun
  have hhead := List.head?_dropWhile_not (fun t : Token => t.kind = .symbol .semicolon) s.rest
  change s.rest.dropWhile _ = t :: rest at hrest
  rw [hrest] at hhead
  simp [hkind] at hhead

end Stream

namespace Parse

variable {α β : Type}

/-- Values that need not cost a token. -/
def Free : α → Prop := fun _ => False

/-- Values that cost a token. -/
def Costly : α → Prop := fun _ => True

/-- Values of a round of a loop that cost a token: all but the end of the loop. -/
def Round : Option α → Prop := fun o => o.isSome

/-- A result that is reached from `s`. A value with `Q` has cost a token, and with fewer than `N`
tokens ahead the depth was enough. -/
def Proper (N : Nat) (Q : α → Prop) (s : Stream) : EStateM.Result SyntaxError Stream α → Prop
  | .ok a t => s.LeadsTo t ∧ (Q a → t.rest.length < s.rest.length)
  | .error e t => s.LeadsTo t ∧ (s.rest.length < N → e.fault ≠ .exhausted)

/-- What `p` gives in front of the tokens of `s` is proper, and with fewer than `N` tokens ahead
`p'` gives the same. -/
structure Proceeds (N : Nat) (Q : α → Prop) (p p' : Parse α) (s : Stream) : Prop where
  proper : Proper N Q s (p s)
  same : s.rest.length < N → p' s = p s

variable {N M : Nat} {Q Q' : α → Prop} {R : β → Prop} {p p' : Parse α} {f f' : α → Parse β}
  {s t : Stream}

/-- The stream that a result leaves, with a value or with an error. -/
def left : EStateM.Result SyntaxError Stream α → Stream
  | .ok _ t => t
  | .error _ t => t

theorem Proper.leadsTo_left {x : EStateM.Result SyntaxError Stream α} (h : Proper N Q s x) :
    s.LeadsTo (left x) := by
  cases x with
  | ok a t => exact h.1
  | error e t => exact h.1

theorem Proper.mono {x : EStateM.Result SyntaxError Stream α} (h : Proper N Q s x) (hM : M ≤ N)
    (hQ : ∀ a, Q' a → Q a) : Proper M Q' s x := by
  cases x with
  | ok a t => exact ⟨h.1, fun ha => h.2 (hQ a ha)⟩
  | error e t => exact ⟨h.1, fun hs => h.2 (Nat.lt_of_lt_of_le hs hM)⟩

/-- What is proper further on is proper from the start. -/
theorem Proper.from {x : EStateM.Result SyntaxError Stream α} (h : Proper N Q t x)
    (hst : s.LeadsTo t) : Proper N Q s x := by
  have hle := hst.length_le
  cases x with
  | ok a u => exact ⟨hst.trans h.1, fun ha => Nat.lt_of_lt_of_le (h.2 ha) hle⟩
  | error e u => exact ⟨hst.trans h.1, fun hs => h.2 (Nat.lt_of_le_of_lt hle hs)⟩

/-- Behind a token everything has cost one, and one level of depth less is enough. -/
theorem Proper.from_first {x : EStateM.Result SyntaxError Stream α} (h : Proper N Free t x)
    (hst : s.LeadsTo t) (hlt : t.rest.length < s.rest.length) : Proper (N + 1) Q s x := by
  cases x with
  | ok a u => exact ⟨hst.trans h.1, fun _ => Nat.lt_of_le_of_lt h.1.length_le hlt⟩
  | error e u => exact ⟨hst.trans h.1, fun hs => h.2 (by omega)⟩

namespace Proceeds

theorem mono (h : Proceeds N Q p p' s) (hM : M ≤ N) (hQ : ∀ a, Q' a → Q a) :
    Proceeds M Q' p p' s :=
  ⟨h.proper.mono hM hQ, fun hs => h.same (Nat.lt_of_lt_of_le hs hM)⟩

theorem free (h : Proceeds N Q p p' s) : Proceeds N Free p p' s :=
  h.mono (Nat.le_refl N) fun _ => False.elim

theorem any (h : Proceeds N Costly p p' s) : Proceeds N Q p p' s :=
  h.mono (Nat.le_refl N) fun _ _ => trivial

/-- The same with one level of depth less. -/
theorem shallow (h : Proceeds (N + 1) Q p p' s) : Proceeds N Q p p' s :=
  h.mono (Nat.le_succ N) fun _ ha => ha

theorem pure {a : α} (h : ¬ Q a) : Proceeds N Q (Pure.pure a) (Pure.pure a) s :=
  ⟨⟨.refl s, fun ha => absurd ha h⟩, fun _ => rfl⟩

theorem free_pure (a : α) : Proceeds N Free (Pure.pure a) (Pure.pure a) s := pure id

theorem fail {fault : SyntaxFault} (h : fault ≠ .exhausted) :
    Proceeds N Q (Parse.fail fault) (Parse.fail fault) s :=
  ⟨⟨.refl s, fun _ => h⟩, fun _ => rfl⟩

theorem refuse (wanted : Expectation) :
    Proceeds N Q (Parse.refuse wanted) (Parse.refuse wanted) s :=
  ⟨⟨.refl s, fun _ => nofun⟩, fun _ => rfl⟩

/-- Parsers in a row, by what holds of the second at the places that the first leads to. -/
theorem bind_from (hp : Proceeds N Q p p' s)
    (hf : ∀ a t, s.LeadsTo t → (Q a → t.rest.length < s.rest.length) →
      Proper N R s (f a t) ∧ (s.rest.length < N → f' a t = f a t)) :
    Proceeds N R (p >>= f) (p' >>= f') s := by
  have hfirst := hp.proper
  constructor
  · change Proper N R s (EStateM.bind p f s)
    unfold EStateM.bind
    cases hps : p s with
    | ok a t =>
      rw [hps] at hfirst
      exact (hf a t hfirst.1 hfirst.2).1
    | error e t =>
      rw [hps] at hfirst
      exact hfirst
  · intro hs
    change EStateM.bind p' f' s = EStateM.bind p f s
    unfold EStateM.bind
    rw [hp.same hs]
    cases hps : p s with
    | ok a t =>
      rw [hps] at hfirst
      exact (hf a t hfirst.1 hfirst.2).2 hs
    | error e t => rfl

theorem bind (hp : Proceeds N Free p p' s) (hf : ∀ a t, Proceeds N R (f a) (f' a) t) :
    Proceeds N R (p >>= f) (p' >>= f') s := by
  refine hp.bind_from fun a t hst _ => ⟨(hf a t).proper.from hst, fun hs => (hf a t).same ?_⟩
  exact Nat.lt_of_le_of_lt hst.length_le hs

/-- Behind a parser that goes on by a token one level of depth less is enough. -/
theorem bind_first (hp : Proceeds (N + 1) Costly p p' s)
    (hf : ∀ a t, Proceeds N Free (f a) (f' a) t) :
    Proceeds (N + 1) R (p >>= f) (p' >>= f') s := by
  refine hp.bind_from fun a t hst hcost => ?_
  have hlt := hcost trivial
  exact ⟨(hf a t).proper.from_first hst hlt, fun hs => (hf a t).same (by omega)⟩

/-- Behind a parser that goes on by a token nothing has to cost one any more. -/
theorem bind_costly (hp : Proceeds N Costly p p' s) (hf : ∀ a t, Proceeds N Free (f a) (f' a) t) :
    Proceeds N R (p >>= f) (p' >>= f') s := by
  refine hp.bind_from fun a t hst hcost => ?_
  have hlt := hcost trivial
  refine ⟨?_, fun hs => (hf a t).same (Nat.lt_trans hlt hs)⟩
  exact ((hf a t).proper.from_first hst hlt).mono (Nat.le_succ N) fun _ hb => hb

/-- What is made of a value afterwards changes nothing. -/
theorem bind_pure {g : α → β} (hp : Proceeds N Q p p' s) :
    Proceeds N Free (do return g (← p)) (do return g (← p')) s :=
  bind hp.free fun _ _ => free_pure _

theorem map {g : α → β} (hp : Proceeds N Q p p' s) : Proceeds N Free (g <$> p) (g <$> p') s := by
  rw [map_eq_pure_bind, map_eq_pure_bind]
  exact hp.bind_pure

theorem map_costly {g : α → β} (hp : Proceeds N Costly p p' s) :
    Proceeds N R (g <$> p) (g <$> p') s := by
  rw [map_eq_pure_bind, map_eq_pure_bind]
  exact hp.bind_costly fun _ _ => free_pure _

theorem kind_bind {f f' : TokenKind → Parse β}
    (h : ∀ k, headKind s.rest = k → Proceeds N R (f k) (f' k) s) :
    Proceeds N R (Parse.kind >>= f) (Parse.kind >>= f') s := by
  have hhead := h _ rfl
  rw [← current_kind] at hhead
  exact ⟨hhead.proper, hhead.same⟩

theorem current_bind {f f' : Token → Parse β}
    (h : ∀ t : Token, headKind s.rest = t.kind → Proceeds N R (f t) (f' t) s) :
    Proceeds N R (Parse.current >>= f) (Parse.current >>= f') s :=
  have hhead := h s.current (current_kind s).symm
  ⟨hhead.proper, hhead.same⟩

theorem kindAt_bind {n : Nat} {f f' : TokenKind → Parse β}
    (h : ∀ k, Proceeds N R (f k) (f' k) s) :
    Proceeds N R (Parse.kindAt n >>= f) (Parse.kindAt n >>= f') s :=
  ⟨(h (s.kindAt n)).proper, (h (s.kindAt n)).same⟩

theorem literalsAllowed_bind {f f' : Bool → Parse β} (h : ∀ b, Proceeds N R (f b) (f' b) s) :
    Proceeds N R (Parse.literalsAllowed >>= f) (Parse.literalsAllowed >>= f') s :=
  ⟨(h s.literals).proper, (h s.literals).same⟩

theorem skip_free : Proceeds N Free Parse.skip Parse.skip s :=
  ⟨⟨.advance s, False.elim⟩, fun _ => rfl⟩

theorem skip {k : TokenKind} {Q : Unit → Prop} (hk : headKind s.rest = k) (hne : k ≠ .eof) :
    Proceeds N Q Parse.skip Parse.skip s := by
  refine ⟨⟨.advance s, fun _ => s.length_advance_lt ?_⟩, fun _ => rfl⟩
  rw [hk]
  exact hne

theorem skip_bind {k : TokenKind} {f f' : Unit → Parse β} (hk : headKind s.rest = k)
    (hne : k ≠ .eof) (hf : ∀ t, Proceeds N Free (f ()) (f' ()) t) :
    Proceeds N R (Parse.skip >>= f) (Parse.skip >>= f') s :=
  bind_costly (skip hk hne) fun _ t => hf t

theorem skip_first {k : TokenKind} {f f' : Unit → Parse β} (hk : headKind s.rest = k)
    (hne : k ≠ .eof) (hf : ∀ t, Proceeds N Free (f ()) (f' ()) t) :
    Proceeds (N + 1) R (Parse.skip >>= f) (Parse.skip >>= f') s :=
  bind_first (skip hk hne) fun _ t => hf t

theorem skipSemicolons_bind {f f' : Unit → Parse β}
    (hf : ∀ t, headKind t.rest ≠ .symbol .semicolon → Proceeds N R (f ()) (f' ()) t) :
    Proceeds N R (Parse.skipSemicolons >>= f) (Parse.skipSemicolons >>= f') s := by
  have hrest := hf s.skipSemicolons s.headKind_skipSemicolons
  have hst := Stream.LeadsTo.skipSemicolons s
  exact ⟨hrest.proper.from hst, fun hs => hrest.same (Nat.lt_of_le_of_lt hst.length_le hs)⟩

theorem isAt_bind {k : TokenKind} {f f' : Bool → Parse β}
    (hyes : headKind s.rest = k → Proceeds N R (f true) (f' true) s)
    (hno : headKind s.rest ≠ k → Proceeds N R (f false) (f' false) s) :
    Proceeds N R (Parse.isAt k >>= f) (Parse.isAt k >>= f') s := by
  rw [Parse.isAt, bind_assoc, bind_assoc]
  refine kind_bind fun k' hk => ?_
  rw [pure_bind, pure_bind]
  by_cases heq : k' = k
  · rw [decide_eq_true heq]
    exact hyes (hk.trans heq)
  · rw [decide_eq_false heq]
    exact hno fun hhead => heq (hk.symm.trans hhead)

theorem accept_bind {k : TokenKind} {f f' : Bool → Parse β} (hne : k ≠ .eof)
    (hyes : ∀ t, Proceeds N Free (f true) (f' true) t)
    (hno : headKind s.rest ≠ k → Proceeds N R (f false) (f' false) s) :
    Proceeds N R (Parse.accept k >>= f) (Parse.accept k >>= f') s := by
  rw [Parse.accept, bind_assoc, bind_assoc]
  refine isAt_bind (fun hk => ?_) fun hk => ?_
  · rw [if_pos rfl, bind_assoc, bind_assoc]
    exact skip_bind hk hne fun t => hyes t
  · rw [if_neg Bool.false_ne_true]
    exact hno hk

theorem accept_free {k : TokenKind} : Proceeds N Free (Parse.accept k) (Parse.accept k) s :=
  isAt_bind (fun _ => skip_free.bind_pure) fun _ => free_pure false

theorem expectSymbol (c : Symbol) :
    Proceeds N Costly (Parse.expectSymbol c) (Parse.expectSymbol c) s :=
  accept_bind nofun (fun _ => free_pure _) fun _ => refuse _

theorem expectKeyword (w : Keyword) :
    Proceeds N Costly (Parse.expectKeyword w) (Parse.expectKeyword w) s :=
  accept_bind nofun (fun _ => free_pure _) fun _ => refuse _

theorem identifier : Proceeds N Costly Parse.identifier Parse.identifier s := by
  refine current_bind fun t ht => ?_
  split
  · rename_i hk
    exact skip_bind (ht.trans hk) nofun fun _ => free_pure _
  · exact refuse _

theorem statementEnd : Proceeds N Free Parse.statementEnd Parse.statementEnd s := by
  refine kind_bind fun k hk => ?_
  split
  · exact skip hk nofun
  · exact free_pure _
  · exact free_pure _
  · exact free_pure _
  · exact refuse _

theorem withLiterals {allowed : Bool} (h : ∀ t, Proceeds N Q p p' t) :
    Proceeds N Q (Parse.withLiterals allowed p) (Parse.withLiterals allowed p') s := by
  have hinside := h { s with literals := allowed }
  have hproper := hinside.proper
  constructor
  · unfold Parse.withLiterals
    cases hp : p { s with literals := allowed } with
    | ok a t =>
      rw [hp] at hproper
      exact ⟨⟨hproper.1.tokens, hproper.1.finish, rfl⟩, hproper.2⟩
    | error e t =>
      rw [hp] at hproper
      exact ⟨⟨hproper.1.tokens, hproper.1.finish, rfl⟩, hproper.2⟩
  · intro hs
    unfold Parse.withLiterals
    rw [hinside.same hs]

/-- An operator in front of an operand is not the end of the source. -/
theorem unaryOp?_bind {f f' : Option UnaryOp → Parse β}
    (hsome : ∀ op, headKind s.rest ≠ .eof → Proceeds N R (f (some op)) (f' (some op)) s)
    (hnone : Proceeds N R (f none) (f' none) s) :
    Proceeds N R (Parse.unaryOp? >>= f) (Parse.unaryOp? >>= f') s := by
  rw [Parse.unaryOp?, bind_assoc, bind_assoc]
  refine kind_bind fun k hk => ?_
  have hop : ∀ op, k ≠ .eof → Proceeds N R (f (some op)) (f' (some op)) s := by
    intro op hne
    apply hsome op
    rwa [hk]
  split
  · rw [bind_assoc, bind_assoc]
    refine kindAt_bind fun k' => ?_
    split
    · exact hnone
    · exact hop _ nofun
  · rename_i c _
    rw [pure_bind, pure_bind]
    cases UnaryOp.ofSymbol? c with
    | none => exact hnone
    | some op => exact hop op nofun
  · exact hnone

theorem binaryOp?_bind {f f' : Option BinaryOp → Parse β}
    (hsome : ∀ op, headKind s.rest ≠ .eof → Proceeds N R (f (some op)) (f' (some op)) s)
    (hnone : Proceeds N R (f none) (f' none) s) :
    Proceeds N R (Parse.binaryOp? >>= f) (Parse.binaryOp? >>= f') s := by
  rw [Parse.binaryOp?, bind_assoc, bind_assoc]
  refine kind_bind fun k hk => ?_
  have hop : ∀ op, k ≠ .eof → Proceeds N R (f (some op)) (f' (some op)) s := by
    intro op hne
    apply hsome op
    rwa [hk]
  split
  · rename_i c
    rw [pure_bind, pure_bind]
    cases BinaryOp.ofSymbol? c with
    | none => exact hnone
    | some op => exact hop op nofun
  · exact hnone

/-- A round of a loop and what comes behind it. Behind the end of the loop nothing is known of the
tokens ahead, behind any other round they are fewer. -/
theorem bind_round {step step' : Parse (Option α)} {f f' : Option α → Parse β}
    (h : Proceeds N Round step step' s) (hend : ∀ t, Proceeds N Free (f none) (f' none) t)
    (hnext : ∀ x t, t.rest.length < s.rest.length →
      Proceeds N Free (f (some x)) (f' (some x)) t) :
    Proceeds N Free (step >>= f) (step' >>= f') s := by
  refine h.bind_from fun o t hst hcost => ?_
  have hrest : Proceeds N Free (f o) (f' o) t := by
    cases o with
    | none => exact hend t
    | some x => exact hnext x t (hcost rfl)
  exact ⟨hrest.proper.from hst, fun hs => hrest.same (Nat.lt_of_le_of_lt hst.length_le hs)⟩

/-- A loop ends if its rounds cost a token each. -/
theorem iterate {step step' : α → Parse (Option α)}
    (h : ∀ x t, Proceeds N Round (step x) (step' x) t) (x : α) :
    Proceeds N Free (Parse.iterate step x) (Parse.iterate step' x) s := by
  have hrounds : ∀ n x t, t.rest.length < n →
      Proceeds N Free (iterateN step n x) (iterateN step' n x) t := by
    intro n
    induction n with
    | zero => exact fun _ _ ht => absurd ht (Nat.not_lt_zero _)
    | succ n ih =>
      intro x t ht
      exact bind_round (h x t) (fun _ => free_pure x) fun y u hu => ih y u (by omega)
  have hall := hrounds (s.rest.length + 1) x s (Nat.lt_succ_self _)
  exact ⟨hall.proper, hall.same⟩

theorem collect {step step' : Parse (Option α)} (h : ∀ t, Proceeds N Round step step' t) :
    Proceeds N Free (Parse.collect step) (Parse.collect step') s := by
  have hrounds : ∀ n t, t.rest.length < n →
      Proceeds N Free (collectN step n) (collectN step' n) t := by
    intro n
    induction n with
    | zero => exact fun _ ht => absurd ht (Nat.not_lt_zero _)
    | succ n ih =>
      intro t ht
      exact bind_round (h t) (fun _ => free_pure []) fun x u hu => (ih u (by omega)).bind_pure
  have hall := hrounds (s.rest.length + 1) s (Nat.lt_succ_self _)
  exact ⟨hall.proper, hall.same⟩

theorem commaSeparated (h : ∀ t, Proceeds N Costly p p' t) :
    Proceeds N Costly (Parse.commaSeparated p) (Parse.commaSeparated p') s := by
  refine bind_costly (h s) fun first t => bind_pure (collect fun u => ?_)
  exact accept_bind nofun (fun v => (h v).bind_pure) fun _ => pure nofun

theorem commaClosed {close : Symbol} (h : ∀ t, Proceeds N Free p p' t) :
    Proceeds N Free (Parse.commaClosed close p) (Parse.commaClosed close p') s := by
  have hend : ∀ (xs : List α) t, Proceeds N Free (do Parse.expectSymbol close; return xs)
      (do Parse.expectSymbol close; return xs) t := fun xs t => (expectSymbol close).bind_pure
  refine isAt_bind (fun _ => ?_) fun _ => ?_
  · dsimp only
    rw [if_pos rfl, pure_bind]
    exact hend [] s
  · dsimp only
    rw [if_neg Bool.false_ne_true]
    refine bind (h s) fun first t => ?_
    refine bind (collect fun u => ?_) fun others u => ?_
    · refine accept_bind nofun (fun v => ?_) fun _ => pure nofun
      exact isAt_bind (fun _ => free_pure _) fun _ => (h v).bind_pure
    · rw [pure_bind]
      exact hend (first :: others) u

/-- Items that cost a token where no semicolon stands. -/
theorem statementsClosed {close : Symbol}
    (h : ∀ t, headKind t.rest ≠ .symbol .semicolon → Proceeds N Costly p p' t) :
    Proceeds N Free (Parse.statementsClosed close p) (Parse.statementsClosed close p') s := by
  refine collect fun t => skipSemicolons_bind fun u hu => ?_
  refine accept_bind nofun (fun _ => free_pure _) fun _ => ?_
  exact bind_costly (h u hu) fun _ _ => statementEnd.bind_pure

end Proceeds

end Parse

end BoundedGo
