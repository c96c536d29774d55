import BoundedGo.Proofs.Climbing
import BoundedGo.Proofs.Outcomes

/-!
Precedence climbing reads operator expressions exactly by their grammar. The tokens of a well-formed
tree are read as the tree; and where no other tokens are ahead than those of operands in
parentheses, of operators and of calls with one argument at most, whatever is read is a well-formed
tree and its tokens are the tokens that were read. For the second half a loop over operators keeps
in mind that the operator ahead binds no more strongly than the tree that it has read so far.
Main statement: the two halves for expressions as a whole (`expression_grammar`).
-/
namespace BoundedGo

namespace Parse

open Grammar

variable {g : Grammar} {e x : Expr} {ps qs : List Piece} {r r' r'' r₀ : List Token}

/-- The tokens of operands, of parentheses and of operators. -/
def isOperatorToken : TokenKind → Bool
  | .ident | .literal _ => true
  | .symbol s =>
    s = .parenOpen || s = .parenClose || (UnaryOp.ofSymbol? s).isSome ||
      (BinaryOp.ofSymbol? s).isSome
  | _ => false

abbrev OperatorTokens (r : List Token) : Prop := ∀ t ∈ r, isOperatorToken t.kind

theorem OperatorTokens.headKind_ne (hr : OperatorTokens r) {k : TokenKind}
    (hk : isOperatorToken k = false) (heof : k ≠ .eof) : headKind r ≠ k := by
  rintro rfl
  obtain ⟨t, rest, rfl, ht⟩ := exists_cons_of_headKind rfl heof
  have hmem := hr t List.mem_cons_self
  rw [ht, hk] at hmem
  cases hmem

/-- `r` begins with tokens that show the pieces and goes on with `r'`. -/
def Begins (ps : List Piece) (r r' : List Token) : Prop := ∃ ts, r = ts ++ r' ∧ Shows ts ps

namespace Begins

theorem trans (h : Begins ps r r') (h' : Begins qs r' r'') : Begins (ps ++ qs) r r'' := by
  obtain ⟨ts, rfl, hts⟩ := h
  obtain ⟨us, rfl, hus⟩ := h'
  exact ⟨ts ++ us, (List.append_assoc ..).symm, List.rel_append hts hus⟩

theorem token (t : Token) (r : List Token) : Begins [t.piece] (t :: r) r :=
  ⟨[t], rfl, .of_pieces rfl⟩

theorem symbol {s : Symbol} (h : headKind r = .symbol s) : Begins [s.piece] r r.tail := by
  obtain ⟨t, r, rfl, ht⟩ := exists_cons_of_headKind h nofun
  exact ⟨[t], rfl, .cons ⟨ht, nofun⟩ .nil⟩

theorem operators (h : Begins ps r r') (hr : OperatorTokens r) : OperatorTokens r' := by
  obtain ⟨ts, rfl, -⟩ := h
  exact fun t ht => hr t (List.mem_append_right ts ht)

end Begins

/-- A well-formed tree that `r` begins with, and `r'` behind it. -/
structure Parsed (e : Expr) (r r' : List Token) : Prop where
  wellFormed : e.WellFormed
  begins : Begins e.pieces r r'

/-- The operator ahead, if there is one, binds less strongly. -/
def Stops (least : Nat) (r : List Token) : Prop :=
  ∀ op : BinaryOp, headKind r = .symbol op.symbol → op.precedence < least

/-- What a grammar reads of the tokens of operator expressions. -/
structure Faithful (g : Grammar) : Prop where
  binary : ∀ {least : Nat} {r : List Token}, least ≤ 6 → OperatorTokens r →
    Ensures (g.binary least) r fun e r' => Parsed e r r' ∧ least ≤ e.level ∧ Stops least r'
  unary : ∀ {r : List Token}, OperatorTokens r →
    Ensures g.unary r fun e r' => Parsed e r r' ∧ 6 ≤ e.level

namespace Faithful

theorem argument (h : Faithful g) (hr : OperatorTokens r) :
    Ensures (Parse.argument g) r fun e r' => Parsed e r r' := by
  refine .bind ((h.binary (by decide) hr).mono fun e r' he => ?_)
  refine .accept_bind (fun hk => ?_) fun _ => .pure he.1
  exact absurd hk ((he.1.begins.operators hr).headKind_ne rfl nofun)

/-- Without a comma there is no argument behind the first one. -/
theorem no_more_arguments (hr : OperatorTokens r) :
    Ensures (Parse.collect (commaStep .parenClose (Parse.argument g))) r fun as r' =>
      as = [] ∧ r' = r := by
  refine (Ensures.collect (I := fun r as r' => headKind r ≠ .symbol .comma → as = [] ∧ r' = r)
    (fun r => .accept_bind (fun hk => ?_) fun _ => .pure fun _ => ⟨rfl, rfl⟩) r).mono
    fun as r' has => has (hr.headKind_ne rfl nofun)
  refine .isAt_bind (fun _ => .pure fun hne => absurd hk hne) fun _ => .bind_any fun _ _ => ?_
  exact .pure fun _ _ _ hne => absurd hk hne

theorem arguments (h : Faithful g) (hr : OperatorTokens r) :
    Ensures (commaClosed .parenClose (Parse.argument g)) r fun as r' =>
      (∀ a ∈ as, a.WellFormed) ∧
        Begins (Expr.argumentPieces as ++ [Symbol.parenClose.piece]) r r' := by
  refine .isAt_bind (fun _ => .bind (.pure (.expectSymbol_bind fun hk => .pure ?_))) fun _ => ?_
  · exact ⟨nofun, .symbol hk⟩
  · refine .bind ((h.argument hr).mono fun a r' ha => ?_)
    refine .bind ((no_more_arguments (ha.begins.operators hr)).mono ?_)
    rintro _ _ ⟨rfl, rfl⟩
    refine .bind (.pure (.expectSymbol_bind fun hk => .pure ⟨?_, ?_⟩))
    · exact List.forall_mem_singleton.mpr ha.wellFormed
    · rw [Expr.argumentPieces, Expr.piecesBehind, List.append_nil]
      exact ha.begins.trans (.symbol hk)

/-- Only a call can be attached. -/
theorem suffix (h : Faithful g) (hr : OperatorTokens r₀) (hx : Parsed x r₀ r)
    (hlevel : 7 ≤ x.level) :
    Ensures (Parse.suffix g x) r (AfterRound (fun r' => Parsed x r₀ r' ∧ 7 ≤ x.level)
      fun y r' => Parsed y r₀ r' ∧ 7 ≤ y.level) := by
  have htokens := hx.begins.operators hr
  refine .kind_bind ?_
  split
  · rename_i hk
    exact absurd hk (htokens.headKind_ne rfl nofun)
  · rename_i hk
    exact absurd hk (htokens.headKind_ne rfl nofun)
  · rename_i hk
    have hopen := Begins.symbol hk
    refine .bind (.skip (.bind (.bind (.withLiterals ?_))))
    refine (h.arguments (hopen.operators htokens)).mono fun as r' has => .pure (.pure ⟨?_, ?_⟩)
    · exact ⟨.call hx.wellFormed has.1 hlevel, hx.begins.trans (hopen.trans has.2)⟩
    · exact Nat.le_refl 7
  · rename_i hk
    exact absurd hk (htokens.headKind_ne rfl nofun)
  · exact .pure ⟨hx, hlevel⟩

/-- The type of a channel that begins with an arrow needs a keyword behind it. -/
theorem typeOperand (hr : OperatorTokens r) (hstart : startsTypeOperand (headKind r)) :
    Ensures (Parse.typeExpr g) r fun _ _ => False := by
  have harrow : headKind r = .symbol .arrow := by
    have hother : ∀ k, isOperatorToken k = false → k ≠ .eof → headKind r ≠ k :=
      fun _ => hr.headKind_ne
    cases hk : headKind r with
    | symbol s =>
      rw [hk] at hstart hother
      cases s with
      | arrow => rfl
      | bracketOpen => exact absurd rfl (hother _ rfl nofun)
      | _ => cases hstart
    | keyword w => exact absurd hk (hother _ rfl nofun)
    | _ =>
      rw [hk] at hstart
      cases hstart
  refine .current_bind fun t ht _ => ?_
  rw [ht, harrow]
  refine .bind (.skip (.expectKeyword_bind fun hchan => ?_))
  have htail := (Begins.symbol harrow).operators hr
  exact absurd hchan (htail.headKind_ne rfl nofun)

theorem operand (h : Faithful g) (hr : OperatorTokens r) :
    Ensures (Parse.operand g) r fun e r' => Parsed e r r' ∧ 7 ≤ e.level := by
  refine .current_bind fun t ht htoken => ?_
  split
  · rename_i hk
    obtain ⟨u, r', rfl, -⟩ := exists_cons_of_headKind (ht.symm.trans hk) (by simp)
    obtain rfl := htoken u rfl
    refine .bind (.skip (.pure ⟨⟨.ident _, ?_⟩, Nat.le_refl 7⟩))
    rw [Expr.pieces, ← hk]
    exact .token t r'
  · rename_i kind hk
    obtain ⟨u, r', rfl, -⟩ := exists_cons_of_headKind (ht.symm.trans hk) (by simp)
    obtain rfl := htoken u rfl
    refine .bind (.skip (.pure ⟨⟨.literal _, ?_⟩, Nat.le_refl 7⟩))
    rw [Expr.pieces, ← hk]
    exact .token t r'
  · rename_i hk
    have hopen := Begins.symbol (ht.symm.trans hk)
    refine .bind (.skip (.bind (.withLiterals ?_)))
    refine (h.binary (by decide) (hopen.operators hr)).mono fun e r' he => ?_
    refine .expectSymbol_bind fun hclose => .pure ⟨⟨.paren he.1.wellFormed, ?_⟩, Nat.le_refl 7⟩
    exact hopen.trans (he.1.begins.trans (.symbol hclose))
  · rename_i hk
    exact absurd (ht.symm.trans hk) (hr.headKind_ne rfl (by simp))
  · split
    · rename_i hstart
      rw [ht] at hstart
      exact .bind ((typeOperand hr hstart).mono fun _ _ hnone => hnone.elim)
    · exact .refuse _

theorem primary (h : Faithful g) (hr : OperatorTokens r) :
    Ensures (Parse.primary g) r fun e r' => Parsed e r r' ∧ 7 ≤ e.level := by
  refine .bind ((h.operand hr).mono fun x r' hx => ?_)
  refine .iterate (J := fun y r'' => Parsed y r r'' ∧ 7 ≤ y.level) (fun y r'' hy => ?_) hx
  exact h.suffix hr hy.1 hy.2

theorem unary_above (h : Faithful g) (hr : OperatorTokens r) :
    Ensures (Parse.unary g) r fun e r' => Parsed e r r' ∧ 6 ≤ e.level := by
  refine .bind (Ensures.unaryOp?.mono ?_)
  rintro (_ | op) _ ⟨rfl, hop⟩
  · exact (h.primary hr).mono fun e r' he => ⟨he.1, Nat.le_of_succ_le he.2⟩
  · have hsign := Begins.symbol (hop op rfl)
    refine .bind (.skip (.bind ?_))
    refine (h.unary (hsign.operators hr)).mono fun e r' he => .pure ⟨⟨?_, ?_⟩, Nat.le_refl 6⟩
    · exact .unary op he.1.wellFormed he.2
    · exact hsign.trans he.1.begins

/-- The tree that was read up to an operator can stand on the left of it. -/
theorem binaryStep (h : Faithful g) {least : Nat} (hr : OperatorTokens r₀) (hx : Parsed x r₀ r)
    (hleast : least ≤ x.level) (hstops : Stops (x.level + 1) r) :
    Ensures (Parse.binaryStep g least x) r
      (AfterRound (fun r' => Parsed x r₀ r' ∧ least ≤ x.level ∧ Stops least r')
        fun y r' => Parsed y r₀ r' ∧ least ≤ y.level ∧ Stops (y.level + 1) r') := by
  refine .bind (Ensures.binaryOp?.mono ?_)
  rintro o r ⟨rfl, hop⟩
  cases o with
  | none => exact .pure ⟨hx, hleast, fun op hk => nomatch (hop op).mpr hk⟩
  | some op =>
    dsimp only
    split
    · rename_i hweak
      refine .pure ⟨hx, hleast, fun op' hk => ?_⟩
      obtain rfl := Option.some.inj ((hop op').mpr hk)
      exact hweak
    · -- The operator binds at least as strongly as asked for, and no more than the left side.
      rename_i hstrong
      have hsymbol := (hop op).mp rfl
      have hsign := Begins.symbol hsymbol
      have htokens := hsign.operators (hx.begins.operators hr)
      have hprecedence := op.precedence_le_five
      refine .bind (.skip (.bind ((h.binary (by omega) htokens).mono fun y r' hy => .pure ?_)))
      refine ⟨⟨.binary op hx.wellFormed hy.1.wellFormed ?_ hy.2.1, ?_⟩, ?_, hy.2.2⟩
      · exact Nat.le_of_lt_succ (hstops op hsymbol)
      · exact hx.begins.trans (hsign.trans hy.1.begins)
      · exact Nat.le_of_not_lt hstrong

theorem binary_above (h : Faithful g) {least : Nat} (hleast : least ≤ 6) (hr : OperatorTokens r) :
    Ensures (Parse.binary g least) r fun e r' =>
      Parsed e r r' ∧ least ≤ e.level ∧ Stops least r' := by
  refine .bind ((h.unary_above hr).mono fun x r' hx => ?_)
  -- An operand binds more strongly than all operators, so any of them may come behind it.
  refine .iterate (J := fun y r'' => Parsed y r r'' ∧ least ≤ y.level ∧ Stops (y.level + 1) r'')
    (fun y r'' hy => h.binaryStep hr hy.1 hy.2.1 hy.2.2) ⟨hx.1, hleast.trans hx.2, ?_⟩
  exact fun op _ => Nat.lt_succ_of_le (op.precedence_le_five.trans (Nat.le_of_succ_le hx.2))

end Faithful

theorem faithful_ofDepth (d : Nat) : Faithful (ofDepth d) := by
  induction d with
  | zero => exact ⟨fun _ _ => .fail _, fun _ => .fail _⟩
  | succ d ih => exact ⟨ih.binary_above, ih.unary_above⟩

/-- In front of the end of the source a well-formed tree is read back from its tokens up to the
end; and a tree that is read up to the end from tokens of operator expressions is well formed and
has these tokens. -/
theorem expression_grammar :
    (∀ {e : Expr}, e.WellFormed → ∀ {ts : List Token} {eof : Token}, Shows ts e.pieces →
      eof.kind = .eof → ∃ s, expression (Stream.ofTokens (ts ++ [eof])) = .ok e s ∧
        s.current.kind = .eof ∧ s.cursor = ts.length) ∧
    ∀ {ts : List Token} {eof : Token}, OperatorTokens ts → eof.kind = .eof →
      ∀ {e : Expr} {s : Stream}, expression (Stream.ofTokens (ts ++ [eof])) = .ok e s →
        s.current.kind = .eof → e.WellFormed ∧ Shows ts e.pieces := by
  refine ⟨fun {e} h {ts eof} hts heof => ?_, fun {ts eof} hts heof {e s} hs hend => ?_⟩
  · have hreads : Reads true (binary (ofDepth (ts.length + 1)) 1) ts [] e :=
      reads_of_wellFormed h hts (Nat.le_succ _) e.one_le_level ⟨rfl, nofun⟩
    refine ⟨⟨ts.reverse, [], eof.span, true⟩, ?_, rfl, by simp [Stream.cursor]⟩
    rw [ofTokens_append_eof heof]
    simpa [expression, Parse.nested, expr] using hreads [] eof.span
  · rw [ofTokens_append_eof heof] at hs
    obtain ⟨⟨hwf, us, hus, hshows⟩, -⟩ := (faithful_ofDepth _).binary_above (by decide) hts rfl hs
    have hrest : s.rest = [] := by
      refine eq_nil_of_headKind (fun t ht heof => ?_) (current_kind s ▸ hend)
      have hoperator := hts t (hus ▸ List.mem_append_right us ht)
      rw [heof] at hoperator
      cases hoperator
    rw [hrest, List.append_nil] at hus
    exact ⟨hwf, hus ▸ hshows⟩

/-- The tokens of `a || -f(b) * 2`. -/
def mixedTokens : List Token :=
  [(.ident, "a"), Symbol.barBar.piece, Symbol.minus.piece, (.ident, "f"), Symbol.parenOpen.piece,
    (.ident, "b"), Symbol.parenClose.piece, Symbol.star.piece,
    (.literal .int, "2")].map Token.ofPiece

def mixedTree : Expr :=
  .binary .either (.ident "a")
    (.binary .mul (.unary .neg (.call (.ident "f") [.ident "b"])) (.literal ⟨.int, "2"⟩))

theorem expression_grammar_mixed :
    (∃ s, expression (Stream.ofTokens (mixedTokens ++ [.ofPiece (.eof, "")])) = .ok mixedTree s ∧
      s.current.kind = .eof ∧ s.cursor = 9) ∧
    ∃ e s, expression (Stream.ofTokens (mixedTokens ++ [.ofPiece (.eof, "")])) = .ok e s ∧
      s.current.kind = .eof ∧ e.WellFormed ∧ Shows mixedTokens e.pieces := by
  have hcall : (Expr.call (.ident "f") [.ident "b"]).WellFormed :=
    .call (.ident "f") (List.forall_mem_singleton.mpr (.ident "b")) (by decide)
  have htree : mixedTree.WellFormed :=
    .binary .either (.ident "a") (.binary .mul (.unary .neg hcall (by decide)) (.literal _)
      (by decide) (by decide)) (by decide) (by decide)
  have hread : expression (Stream.ofTokens (mixedTokens ++ [.ofPiece (.eof, "")])) =
      .ok mixedTree ⟨mixedTokens.reverse, [], ⟨Position.origin, Position.origin⟩, true⟩ := by
    rfl
  refine ⟨expression_grammar.1 htree (.of_pieces rfl) rfl, mixedTree, _, hread, rfl, ?_⟩
  exact expression_grammar.2 (by decide) rfl hread rfl

end Parse

end BoundedGo
