import BoundedGo.Proofs.Climbing

/-!
Expressions in the headers of control statements. In a header literals of named types are not
allowed, so that the brace behind the expression is left for the block; inside of brackets they are
allowed again, also within a header.
Main statement: blocks are read back whose statements are conditions and loops with empty bodies,
and expressions that stand alone (`blockStatement_of_placed`).
-/
namespace BoundedGo

/-- The statements that an expression stands in, with nothing else in them: as the condition of an
`if`, as the condition of a `for`, and alone. -/
inductive Host
  | conditional
  | loop
  | alone

namespace Host

def statement : Host → Expr → Stmt
  | conditional, e => .if_ none e [] none
  | loop, e => .for_ none (some e) none []
  | alone, e => .expr e

def pieces : Host → Expr → List Piece
  | conditional, e =>
    Keyword.if_.piece :: (e.written ++ [Symbol.braceOpen.piece, Symbol.braceClose.piece])
  | loop, e =>
    Keyword.for_.piece :: (e.written ++ [Symbol.braceOpen.piece, Symbol.braceClose.piece])
  | alone, e => e.written

theorem length_written_le (host : Host) (e : Expr) : e.written.length ≤ (host.pieces e).length := by
  cases host <;> simp only [pieces, List.length_cons, List.length_append] <;> omega

/-- The tokens that these statements begin with. -/
def starts : TokenKind → Bool
  | .keyword w => w = .if_ || w = .for_
  | k => Expr.startsTree k

theorem leadKind_ne (host : Host) {e : Expr} (h : e.Placed false) {k : TokenKind}
    (hk : starts k = false) (next : TokenKind) : Parse.leadKind (host.pieces e) next ≠ k := by
  cases host with
  | conditional | loop =>
    rintro rfl
    cases hk
  | alone =>
    refine h.leadKind_ne ?_ next
    cases k with
    | keyword w => rfl
    | _ => exact hk

/-- A block in which every statement but the last one has a semicolon behind it. -/
def blockPieces (rows : List (Host × Expr)) (last : Option (Host × Expr)) : List Piece :=
  Symbol.braceOpen.piece :: (endedPieces (rows.map fun x => x.1.pieces x.2) ++
    (last.elim [] (fun x => x.1.pieces x.2) ++ [Symbol.braceClose.piece]))

theorem length_lt_blockPieces {rows : List (Host × Expr)} {last : Option (Host × Expr)}
    {x : Host × Expr} (hx : x ∈ rows ++ last.toList) :
    (x.1.pieces x.2).length < (blockPieces rows last).length := by
  simp only [blockPieces, List.length_cons, List.length_append]
  rcases List.mem_append.mp hx with hrow | hlast
  · have hended := length_lt_endedPieces (List.mem_map_of_mem (f := fun x => x.1.pieces x.2) hrow)
    omega
  · obtain rfl := Option.mem_toList.mp hlast
    simp only [Option.elim_some]
    omega

end Host

namespace Parse

open Grammar

variable {l : Bool} {g : Grammar} {e : Expr} {d : Nat} {α β : Type} {C : TokenKind → Prop}
  {qs : List Piece}

/-- The tokens behind which a statement of one expression goes on no more. -/
def closesSimple (l : Bool) : TokenKind → Bool
  | .symbol s => s = .semicolon || s = .braceClose || (s = .braceOpen && !l)
  | _ => false

theorem closesSimple_cases {k : TokenKind} (h : closesSimple l k) :
    k = .symbol .semicolon ∨ k = .symbol .braceClose ∨ k = .symbol .braceOpen ∧ l = false := by
  cases k with
  | symbol s => simpa [closesSimple, or_assoc] using h
  | _ => cases h

/-- Where a statement ends the expression in it has ended, too. -/
theorem exprEnd_of_closesSimple {k : TokenKind} (h : closesSimple l k) : ExprEnd l k := by
  obtain rfl | rfl | ⟨rfl, rfl⟩ := closesSimple_cases h <;> exact ⟨rfl, rfl⟩

/-- A statement of a block, where the end of the source is not taken for one. -/
def blockItem (g : Grammar) : Parse Stmt := do
  if ← isAt .eof then refuse (.symbol .braceClose) else g.statement

namespace Takes

/-- A look at the token behind the one ahead, where it does not matter. -/
theorem kindAt_any {f : TokenKind → Parse β} {b : β} (hf : ∀ k, Takes l (f k) qs C b) (n : Nat) :
    Takes l (Parse.kindAt n >>= f) qs C b := by
  intro ts post hts hpost seen finish
  exact hf _ ts post hts hpost seen finish

theorem exprs_single (h : Takes l (expr g) qs C e) (hC : ∀ k, C k → k ≠ .symbol .comma) :
    Takes l (exprs g) qs C [e] :=
  fun ts post hts hpost => .exprs_single (h ts post hts hpost) (hC _ hpost)

theorem simpleFrom_single (e : Expr) :
    Takes l (simpleFrom g [e]) [] (closesSimple l ·) (.expr e) := by
  refine kind_bind fun k hk => ?_
  obtain rfl | rfl | ⟨rfl, -⟩ := closesSimple_cases hk <;> exact pure _

theorem exprs_placed (h : e.Placed l) (hd : e.written.length ≤ d) :
    Takes l (exprs (ofDepth d)) e.written (closesSimple l ·) [e] := by
  refine exprs_single (.mono ((readable_of_placed h).takes hd) fun k => exprEnd_of_closesSimple)
    fun k hk => ?_
  rintro rfl
  cases hk

theorem simple_placed (h : e.Placed l) (hd : e.written.length ≤ d) :
    Takes l (simple (ofDepth d)) e.written (closesSimple l ·) (.expr e) :=
  last (exprs_placed h hd) (simpleFrom_single e)

/-- The header of a conditional ends in front of the block. -/
theorem ifHeader_placed (h : e.Placed false) (hd : e.written.length ≤ d) :
    Takes false (ifHeader (ofDepth d)) e.written (· = .symbol .braceOpen) (none, e) := by
  refine last (mono (simple_placed h hd) (by rintro _ rfl; rfl))
    (peek (accept_other _) (last (pure e) (pure _)) ?_)
  rintro _ rfl
  nofun

/-- So does the header of a loop, whether or not `range` could stand there. -/
theorem header_placed (h : e.Placed false) (hd : e.written.length ≤ d) :
    Takes false (header (ofDepth d)) e.written (· = .symbol .braceOpen)
      (.loop none (some e) none) := by
  refine peek (accept_other _) (peek (accept_other _) ?_ fun k _ => h.leadKind_ne rfl k)
    fun k _ => h.leadKind_ne rfl k
  refine last (mono (exprs_placed h hd) (by rintro _ rfl; rfl)) (kind_bind ?_)
  rintro _ rfl
  refine kindAt_any (fun k => ?_) 1
  refine last (mono (simpleFrom_single e) (by rintro _ rfl; rfl))
    (peek (accept_other _) (last (pure e) (pure _)) ?_)
  rintro _ rfl
  nofun

/-- A block with nothing in it. -/
theorem block_nil (hd : 0 < d) :
    Takes l (ofDepth d).block [Symbol.braceOpen.piece, Symbol.braceClose.piece] C [] := by
  obtain ⟨d, rfl⟩ := Nat.exists_eq_add_one.mpr hd
  refine mono (step (expectSymbol _) (withLiterals ?_)) fun _ _ => trivial
  exact (Rounds.stop (statementStep_close (by decide))).takes

/-- Expressions begin no other statement. -/
theorem statement_alone (h : e.Placed true) (hd : e.written.length ≤ d) :
    Takes true (statement (ofDepth d)) e.written (closesSimple true ·) (.expr e) := by
  have hsimple := simple_placed h hd
  obtain ⟨p, ps, hp, hstart, -⟩ := h.hasHead
  rw [hp] at hsimple ⊢
  refine current_bind fun t ht => ?_
  rw [ht.kind_eq]
  cases hk : p.1 with
  | symbol s =>
    rw [hk] at hstart
    cases s <;> first | exact hsimple | cases hstart
  | keyword w =>
    rw [hk] at hstart
    cases hstart
  | _ => exact hsimple

theorem statement_conditional (h : e.Placed false) (hd : e.written.length < d) :
    Takes l (statement (ofDepth d)) (Host.conditional.pieces e) (· ≠ .keyword .else_)
      (Host.conditional.statement e) := by
  refine current_bind fun t ht => ?_
  rw [ht.kind_eq]
  refine step (skip _) (bind (withLiterals (ifHeader_placed h hd.le)) ?_ fun _ _ => rfl)
  exact last (block_nil (by omega))
    (peek (accept_other _) (last (pure none) (pure _)) fun _ hk => hk)

theorem statement_loop (h : e.Placed false) (hd : e.written.length < d) :
    Takes l (statement (ofDepth d)) (Host.loop.pieces e) C (Host.loop.statement e) := by
  refine current_bind fun t ht => ?_
  rw [ht.kind_eq]
  refine step (skip _) (peek (isAt_other _) ?_ fun k _ => ?_)
  · refine bind (withLiterals (header_placed h hd.le)) ?_ fun _ _ => rfl
    exact last (block_nil (by omega)) (pure _)
  · rw [leadKind_append]
    exact h.leadKind_ne rfl _

theorem statement_placed (host : Host) (h : e.Placed false) (hd : e.written.length < d) :
    Takes true (statement (ofDepth d)) (host.pieces e) (closesSimple true ·)
      (host.statement e) := by
  cases host with
  | conditional =>
    refine mono (statement_conditional h hd) ?_
    rintro _ hk rfl
    cases hk
  | loop => exact statement_loop h hd
  | alone => exact statement_alone h.allowed hd.le

theorem blockItem_placed (host : Host) (h : e.Placed false) (hd : e.written.length < d) :
    Takes true (blockItem (ofDepth (d + 1))) (host.pieces e) (closesSimple true ·)
      (host.statement e) :=
  peek (isAt_other _) (statement_placed host h hd) fun k _ => host.leadKind_ne h rfl k

/-- Every statement of a block is read with the grammar of one level less, which the tokens of the
block are enough for. -/
theorem block_placed {rows : List (Host × Expr)} {last : Option (Host × Expr)}
    (h : ∀ x ∈ rows ++ last.toList, x.2.Placed false)
    (hd : (Host.blockPieces rows last).length ≤ d) :
    Takes l (block (ofDepth (d + 1))) (Host.blockPieces rows last) Anything
      ((rows ++ last.toList).map fun x => x.1.statement x.2) := by
  have hlength : ∀ x ∈ rows ++ last.toList, x.2.written.length < d := fun x hx =>
    (Nat.lt_of_le_of_lt (x.1.length_written_le x.2) (Host.length_lt_blockPieces hx)).trans_le hd
  have hstatements : Takes true (Parse.statementsClosed .braceClose (blockItem (ofDepth (d + 1))))
      (rows.flatMap (fun x => x.1.pieces x.2 ++ [Symbol.semicolon.piece]) ++
        (last.elim [] (fun x => x.1.pieces x.2) ++ [Symbol.braceClose.piece])) Anything
      ((rows ++ last.toList).map fun x => x.1.statement x.2) := by
    refine statementsClosed_last (fun x hx => ?_) fun x hx k => ?_
    · refine mono (blockItem_placed x.1 (h x hx) (hlength x hx)) ?_
      rintro _ (rfl | rfl) <;> rfl
    · exact ⟨x.1.leadKind_ne (h x hx) rfl k, x.1.leadKind_ne (h x hx) rfl k⟩
  rw [Host.blockPieces, endedPieces, List.flatMap_map]
  exact step (expectSymbol _) (withLiterals hstatements)

end Takes

/-- In every position of a stream, a block is read back whose statements are conditions and loops
with empty bodies, and expressions that stand alone. The last one needs no semicolon. -/
theorem blockStatement_of_placed {rows : List (Host × Expr)} {last : Option (Host × Expr)}
    (h : ∀ x ∈ rows ++ last.toList, x.2.Placed false) {ts : List Token}
    (hts : Shows ts (Host.blockPieces rows last)) (seen post : List Token) (finish : Span)
    (l : Bool) :
    blockStatement ⟨seen, ts ++ post, finish, l⟩ =
      .ok ((rows ++ last.toList).map fun x => x.1.statement x.2)
        ⟨ts.reverse ++ seen, post, finish, l⟩ := by
  have hd : (Host.blockPieces rows last).length ≤ (ts ++ post).length := by
    rw [← hts.length_eq, List.length_append]
    exact Nat.le_add_right _ _
  exact Takes.block_placed h hd ts post hts trivial seen finish

/-- `x == (T{a})`. -/
def literalInParens : Expr :=
  .binary .eq (.ident "x") (.paren (.composite (some (.named "T")) [.ident "a"]))

/-- `ok(p.U{})`. -/
def literalArgument : Expr :=
  .call (.ident "ok") [.composite (some (.qualified "p" "U")) []]

/-- The tokens of `{ if x == (T{a}) { }; for ok(p.U{}) { }; x == (T{a}) }`. -/
def bracketedLiterals : List Token :=
  (Host.blockPieces [(.conditional, literalInParens), (.loop, literalArgument)]
    (some (.alone, literalInParens))).map Token.ofPiece

theorem blockStatement_bracketedLiterals :
    (literalInParens.Placed false ∧ literalArgument.Placed false) ∧
      ∃ s, blockStatement (Stream.ofTokens (bracketedLiterals ++ [Token.ofPiece (.eof, "")])) =
        .ok [.if_ none literalInParens [] none, .for_ none (some literalArgument) none [],
          .expr literalInParens] s := by
  have hparens : literalInParens.Placed false :=
    .binary _ (.ident _) (.paren (.composite rfl (List.forall_mem_singleton.mpr (.ident _))))
      (by decide) (by decide)
  have hargument : literalArgument.Placed false :=
    .call (.ident _) (List.forall_mem_singleton.mpr (.composite rfl nofun)) (by decide)
  have hplaced : ∀ x ∈ [(Host.conditional, literalInParens), (.loop, literalArgument)] ++
      (some (Host.alone, literalInParens)).toList, x.2.Placed false := by
    simp [hparens, hargument]
  rw [ofTokens_append_eof rfl, ← List.append_nil bracketedLiterals]
  exact ⟨⟨hparens, hargument⟩, _,
    blockStatement_of_placed hplaced (Shows.ofPieces _) [] [] _ true⟩

end Parse

end BoundedGo
