import BoundedGo.Proofs.LiteralTrees

/-!
Precedence climbing reads operator trees with composite literals. A tree is read in three ways: as
the start of a row of operators, as an operand of an operator, and as an operand that more is
attached to. In each way the reading goes on with the loop that is under way, so that the left side
of an operator and the base of an attached part are the first rounds of the loop that reads the
whole. Where literals are not allowed a brace may follow a tree, since nothing takes it for the
beginning of a literal; behind brackets of any kind they are allowed again.
Main statements: with tokens behind it that do not go on with it, a tree is read back from its
tokens where it may stand (`reads_of_placed`), and so is a tree without literals
(`reads_of_wellFormed`).
-/
namespace BoundedGo

namespace Parse

open Grammar

variable {l : Bool} {ts us post : List Token}

/-- The tokens that attach something to an operand. A brace does so only where literals are
allowed. -/
def attaches (l : Bool) : TokenKind → Bool
  | .symbol s => s = .dot || s = .bracketOpen || s = .parenOpen || (s = .braceOpen && l)
  | _ => false

def operator? : TokenKind → Option BinaryOp
  | .symbol s => BinaryOp.ofSymbol? s
  | _ => none

/-- Tokens that do not go on with an expression whose operators have the given precedence. -/
structure Follows (l : Bool) (least : Nat) (post : List Token) : Prop where
  detached : attaches l (headKind post) = false
  weak : ∀ op, operator? (headKind post) = some op → op.precedence < least

theorem Follows.mono {m n : Nat} (h : Follows l m post) (hmn : m ≤ n) : Follows l n post :=
  ⟨h.detached, fun op hop => Nat.lt_of_lt_of_le (h.weak op hop) hmn⟩

/-- All operators bind less strongly than an operand holds together. -/
theorem Follows.six {n : Nat} (h : Follows l n post) : Follows l 6 post :=
  ⟨h.detached, fun op _ => Nat.lt_succ_of_le op.precedence_le_five⟩

theorem follows_of_operator {t : Token} {op : BinaryOp} (ht : t.kind = .symbol op.symbol) {n : Nat}
    (hn : op.precedence < n) : Follows l n (t :: post) := by
  have hhead : headKind (t :: post) = .symbol op.symbol := ht
  refine ⟨?_, fun other hother => ?_⟩
  · rw [hhead]
    cases op <;> cases l <;> rfl
  · rw [hhead, operator?, BinaryOp.ofSymbol?_symbol] at hother
    obtain rfl := Option.some.inj hother
    exact hn

/-- The tokens that go on with no expression. -/
def ExprEnd (l : Bool) (k : TokenKind) : Prop := attaches l k = false ∧ operator? k = none

theorem ExprEnd.follows (h : ExprEnd l (headKind post)) (n : Nat) : Follows l n post := by
  refine ⟨h.1, fun op hop => ?_⟩
  rw [h.2] at hop
  cases hop

theorem follows_of_token {t : Token} {k : TokenKind} (ht : t.kind = k)
    (hattaches : attaches l k = false) (hoperator : operator? k = none) (n : Nat) :
    Follows l n (t :: post) := by
  have hend : ExprEnd l (headKind (t :: post)) := by
    rw [headKind_cons, ht]
    exact ⟨hattaches, hoperator⟩
  exact hend.follows n

namespace Reads

theorem binaryOp? : Reads l Parse.binaryOp? [] post (operator? (headKind post)) := by
  refine peek (a := headKind post) kind ?_
  cases headKind post with
  | symbol s => exact pure _
  | _ => exact pure none

theorem binaryStep_none {least : Nat} (h : Follows l least post) (g : Grammar) (x : Expr) :
    Reads l (binaryStep g least x) [] post none := by
  refine peek (a := operator? (headKind post)) binaryOp? ?_
  cases hop : operator? (headKind post) with
  | none => exact pure none
  | some op =>
    dsimp only
    rw [if_pos (h.weak op hop)]
    exact pure none

theorem binaryStep_some {g : Grammar} {least : Nat} {t : Token} {op : BinaryOp} {r : Expr}
    (ht : t.kind = .symbol op.symbol) (hle : least ≤ op.precedence)
    (hr : Reads l (g.binary (op.precedence + 1)) ts post r) (x : Expr) :
    Reads l (binaryStep g least x) (t :: ts) post (some (.binary op x r)) := by
  have hop : operator? t.kind = some op := by rw [ht, operator?, BinaryOp.ofSymbol?_symbol]
  refine peek (a := operator? t.kind) binaryOp? ?_
  rw [hop]
  dsimp only
  rw [if_neg (Nat.not_lt.mpr hle)]
  exact step (skip t) (last hr (pure _))

/-- A literal of a type that is written out is one also where a named one is not allowed. -/
theorem suffix_none {n : Nat} {x : Expr} (h : Follows l n post)
    (hx : ∀ type, literalType x ≠ some (type, false)) (g : Grammar) :
    Reads l (suffix g x) [] post none := by
  refine peek (a := headKind post) kind ?_
  have hdetached := h.detached
  cases hk : headKind post with
  | symbol s =>
    rw [hk] at hdetached
    cases s with
    | braceOpen =>
      obtain rfl : l = false := by simpa [attaches] using hdetached
      dsimp only
      rcases hnamed : literalType x with _ | ⟨type, isName⟩
      · exact pure none
      · have hname : isName = true := by
          by_contra hwritten
          rw [Bool.eq_false_of_not_eq_true hwritten] at hnamed
          exact hx type hnamed
        refine peek (a := false) (fun _ _ => rfl) ?_
        rw [hname, if_pos (by rfl)]
        exact pure none
    | dot | bracketOpen | parenOpen => cases l <;> cases hdetached
    | _ => exact pure none
  | _ => exact pure none

theorem unaryOp?_none (h : Expr.startsOperand (headKind post)) :
    Reads l unaryOp? [] post none := by
  refine peek (a := headKind post) kind ?_
  cases hk : headKind post with
  | symbol s =>
    rw [hk] at h
    cases s <;> first | exact pure none | cases h
  | _ => exact pure none

theorem unaryOp?_some {t : Token} {op : UnaryOp} (ht : t.kind = .symbol op.symbol)
    (hchan : headKind post ≠ .keyword .chan) : Reads l unaryOp? [] (t :: post) (some op) := by
  refine peek (a := t.kind) kind ?_
  rw [ht]
  cases op with
  | receive =>
    refine peek (kindAt_one t) ?_
    rw [if_neg hchan]
    exact pure _
  | _ => exact pure _

theorem operand_ident {g : Grammar} {t : Token} (ht : t.kind = .ident) :
    Reads l (operand g) [t] post (.ident t.lexeme) := by
  refine peek (current t) ?_
  rw [ht]
  exact step (skip t) (pure _)

theorem operand_literal {g : Grammar} {t : Token} {k : LiteralKind} (ht : t.kind = .literal k) :
    Reads l (operand g) [t] post (.literal ⟨k, t.lexeme⟩) := by
  refine peek (current t) ?_
  rw [ht]
  exact step (skip t) (pure _)

theorem operand_paren {g : Grammar} {t t' : Token} {x : Expr}
    (ht : t.kind = .symbol .parenOpen) (ht' : t'.kind = .symbol .parenClose)
    (hx : Reads true (g.binary 1) ts (t' :: post) x) :
    Reads l (operand g) (t :: (ts ++ [t'])) post (.paren x) := by
  refine peek (current t) ?_
  rw [ht]
  refine step (skip t) (bind (withLiterals hx) ?_)
  exact step (expectSymbol ht') (pure _)

theorem suffix_selector {g : Grammar} {t t' : Token} (ht : t.kind = .symbol .dot)
    (ht' : t'.kind = .ident) (x : Expr) :
    Reads l (suffix g x) [t, t'] post (some (.selector x t'.lexeme)) := by
  refine peek (a := t.kind) kind ?_
  rw [ht]
  refine step (skip t) (last ?_ (pure _))
  refine peek (current t') ?_
  rw [ht']
  exact step (skip t') (pure _)

theorem suffix_index {g : Grammar} {t t' : Token} {i : Expr} (ht : t.kind = .symbol .bracketOpen)
    (ht' : t'.kind = .symbol .bracketClose) (hi : Reads true (g.binary 1) ts (t' :: post) i)
    (x : Expr) : Reads l (suffix g x) (t :: (ts ++ [t'])) post (some (.index x i)) := by
  refine peek (a := t.kind) kind ?_
  rw [ht]
  refine step (skip t) (last (bind (withLiterals hi) ?_) (pure _))
  have hcolon : decide (headKind ([t'] ++ post) = TokenKind.symbol .colon) = false := by
    simp [headKind, ht']
  refine peek (isAt _) ?_
  rw [hcolon, if_neg Bool.false_ne_true]
  exact step (expectSymbol ht') (pure _)

theorem suffix_call {g : Grammar} {t : Token} {arguments : List Expr}
    (ht : t.kind = .symbol .parenOpen)
    (h : Reads true (commaClosed .parenClose (Parse.argument g)) ts post arguments) (x : Expr) :
    Reads l (suffix g x) (t :: ts) post (some (.call x arguments)) := by
  refine peek (a := t.kind) kind ?_
  rw [ht]
  exact step (skip t) (last (last (withLiterals h) (pure _)) (pure _))

/-- A literal of a named type, where such literals are allowed. -/
theorem suffix_composite {g : Grammar} {t : Token} {x : Expr} {type : TypeExpr}
    {elements : List Expr} (ht : t.kind = .symbol .braceOpen)
    (hx : literalType x = some (type, true))
    (h : Reads true (commaClosed .braceClose (keyedElement g)) ts post elements) :
    Reads true (suffix g x) (t :: ts) post (some (.composite (some type) elements)) := by
  refine peek (a := t.kind) kind ?_
  rw [ht]
  dsimp only
  rw [hx]
  refine peek (a := true) (fun _ _ => rfl) ?_
  exact last (step (expectSymbol ht) (last (withLiterals h) (pure _))) (pure _)

/-- A list of one expression. -/
theorem exprs_single {g : Grammar} {e : Expr} (h : Reads l (expr g) ts post e)
    (hcomma : headKind post ≠ .symbol .comma) : Reads l (exprs g) ts post [e] := by
  refine last h (peek (Collects.reads (.stop ?_)) (pure _))
  exact peek (accept_other hcomma) (pure none)

end Reads

/-- A tree is read in each of the three ways that its level allows. Of the nested grammar it needs
at most one level for every token. -/
structure Readable (l : Bool) (e : Expr) : Prop where
  climb : ∀ {d least : Nat} {ts us post : List Token} {y : Expr},
    Shows ts e.written → ts.length ≤ d → least ≤ e.level →
    Follows l (e.level + 1) (us ++ post) → Loops l (binaryStep (ofDepth d) least) e us post y →
    Reads l (binary (ofDepth d) least) (ts ++ us) post y
  front : 6 ≤ e.level → ∀ {d : Nat} {ts post : List Token},
    Shows ts e.written → ts.length ≤ d → Follows l 6 post →
    Reads l (unary (ofDepth d)) ts post e
  attached : 7 ≤ e.level → ∀ {d : Nat} {ts us post : List Token} {y : Expr},
    Shows ts e.written → ts.length ≤ d → Loops l (suffix (ofDepth d)) e us post y →
    Reads l (primary (ofDepth d)) (ts ++ us) post y

theorem headKind_of_placed {e : Expr} (h : e.Placed l) (hts : Shows ts e.written)
    (post : List Token) : Expr.startsTree (headKind (ts ++ post)) ∧
      (7 ≤ e.level → Expr.startsOperand (headKind (ts ++ post))) := by
  obtain ⟨p, ps, hp, htree, hoperand⟩ := h.hasHead
  rw [hp] at hts
  obtain ⟨t, rest, rfl, ht, -⟩ := hts.exists_cons
  rw [show headKind (t :: rest ++ post) = p.1 from ht.kind_eq]
  exact ⟨htree, hoperand⟩

/-- No tree is a type that is written out. -/
theorem literalType_of_placed {e : Expr} (h : e.Placed l) (type : TypeExpr) :
    literalType e ≠ some (type, false) := by
  cases h with
  | selector field h =>
    cases h with
    | ident => nofun
    | _ => nofun
  | _ => nofun

namespace Readable

variable {d least : Nat} {e : Expr}

theorem reads (h : Readable l e) (hts : Shows ts e.written) (hd : ts.length ≤ d)
    (hleast : least ≤ e.level) (hpost : Follows l least post) :
    Reads l (binary (ofDepth d) least) ts post e := by
  rw [← List.append_nil ts]
  refine h.climb hts hd hleast (hpost.mono (by omega)) (.stop ?_)
  exact .binaryStep_none hpost _ e

/-- What is nested is read with the grammar of one level less. -/
theorem reads_nested (h : Readable l e) (hts : Shows ts e.written) (hd : ts.length < d)
    (hleast : least ≤ e.level) (hpost : Follows l least post) :
    Reads l ((ofDepth d).binary least) ts post e := by
  cases d with
  | zero => exact absurd hd (Nat.not_lt_zero _)
  | succ d => exact h.reads hts (Nat.le_of_lt_succ hd) hleast hpost

/-- Operands in front of operators start a row of operators. -/
theorem of_front
    (front : ∀ {d : Nat} {ts post : List Token}, Shows ts e.written →
      ts.length ≤ d → Follows l 6 post → Reads l (unary (ofDepth d)) ts post e)
    (attached : 7 ≤ e.level → ∀ {d : Nat} {ts us post : List Token} {y : Expr},
      Shows ts e.written → ts.length ≤ d → Loops l (suffix (ofDepth d)) e us post y →
      Reads l (primary (ofDepth d)) (ts ++ us) post y) : Readable l e where
  climb hts hd _ hpost hloops := .bind (front hts hd hpost.six) hloops.reads
  front _ := front
  attached := attached

/-- Operands that more can be attached to are operands in front of operators. -/
theorem of_attached (hplaced : e.Placed l) (hlevel : 7 ≤ e.level)
    (attached : ∀ {d : Nat} {ts us post : List Token} {y : Expr},
      Shows ts e.written → ts.length ≤ d → Loops l (suffix (ofDepth d)) e us post y →
      Reads l (primary (ofDepth d)) (ts ++ us) post y) : Readable l e := by
  refine of_front (fun {d ts post} hts hd hpost => ?_) fun _ => attached
  have hhead := (headKind_of_placed hplaced hts post).2 hlevel
  refine .peek (.unaryOp?_none hhead) ?_
  rw [← List.append_nil ts]
  exact attached hts hd (.stop (.suffix_none hpost (literalType_of_placed hplaced) _))

theorem takes (h : Readable l e) (hd : e.written.length ≤ d) :
    Takes l (binary (ofDepth d) 1) e.written (ExprEnd l) e :=
  fun _ _ hts hpost => h.reads hts (hts.length_eq ▸ hd) e.one_le_level (hpost.follows 1)

theorem takes_nested (h : Readable l e) (hd : e.written.length < d) :
    Takes l ((ofDepth d).binary 1) e.written (ExprEnd l) e := by
  cases d with
  | zero => exact absurd hd (Nat.not_lt_zero _)
  | succ d => exact h.takes (Nat.le_of_lt_succ hd)

/-- An argument ends in front of a comma or of the closing parenthesis. -/
theorem takes_argument (h : Readable l e) (hd : e.written.length < d) :
    Takes l (Parse.argument (ofDepth d)) e.written (CommaOr (· = .symbol .parenClose)) e := by
  refine .last (.mono (h.takes_nested hd) ?_) (.peek (.accept_other _) (.pure e) ?_)
  · rintro _ (rfl | rfl) <;> exact ⟨rfl, rfl⟩
  · rintro _ (rfl | rfl) <;> simp

/-- So does an element of a literal, which has no key here. -/
theorem takes_element (hplaced : e.Placed l) (h : Readable l e) (hd : e.written.length < d) :
    Takes l (keyedElement (ofDepth d)) e.written (CommaOr (· = .symbol .braceClose)) e := by
  have helement : Takes l (ofDepth d).element e.written (ExprEnd l) e := by
    cases d with
    | zero => exact absurd hd (Nat.not_lt_zero _)
    | succ d =>
      exact .peek (.isAt_other _) (h.takes (Nat.le_of_lt_succ hd))
        fun k _ => hplaced.leadKind_ne rfl k
  refine .last (.mono helement ?_) (.peek (.accept_other _) (.pure e) ?_)
  · rintro _ (rfl | rfl) <;> exact ⟨rfl, rfl⟩
  · rintro _ (rfl | rfl) <;> simp

end Readable

/-- Trees with commas between them, up to a symbol that no tree begins with. -/
theorem takes_row {item : Parse Expr} {close : Symbol} {es : List Expr} (hclose : close ≠ .comma)
    (hstart : Expr.startsTree (.symbol close) = false) (hes : ∀ e ∈ es, e.Placed true)
    (h : ∀ e ∈ es, Takes true item e.written (CommaOr (· = .symbol close)) e) :
    Takes true (commaClosed close item) (commaPieces (Expr.writtenAll es) ++ [close.piece])
      Anything es := by
  have hlist : Takes true (commaClosed close item)
      (commaPieces ((es.map fun e => (e.written, e)).map (·.1)) ++ [close.piece]) Anything
      ((es.map fun e => (e.written, e)).map (·.2)) :=
    .commaClosed hclose (List.forall_mem_map.mpr h)
      (List.forall_mem_map.mpr fun e he k => (hes e he).leadKind_ne hstart k)
  simpa [Expr.writtenAll_eq_map, Function.comp_def] using hlist

theorem length_le_row {e : Expr} {es : List Expr} (h : e ∈ es) :
    e.written.length ≤ (commaPieces (Expr.writtenAll es)).length := by
  rw [Expr.writtenAll_eq_map]
  exact length_le_commaPieces (List.mem_map_of_mem h)

namespace Readable

theorem ident (name : String) : Readable l (.ident name) := by
  refine .of_attached (.ident name) (by simp [Expr.level]) fun hts _ hloops => ?_
  obtain ⟨t, rfl, ht⟩ := hts.exists_single
  obtain rfl := ht.lexeme_eq rfl
  have hkind := ht.kind_eq
  exact .bind (.operand_ident hkind) hloops.reads

theorem literal (lit : Literal) : Readable l (.literal lit) := by
  refine .of_attached (.literal lit) (by simp [Expr.level]) fun hts _ hloops => ?_
  obtain ⟨t, rfl, ht⟩ := hts.exists_single
  obtain ⟨kind, raw⟩ := lit
  obtain rfl := ht.lexeme_eq rfl
  exact .bind (.operand_literal ht.kind_eq) hloops.reads

theorem paren {inner : Expr} (hinner : inner.Placed true) (h : Readable true inner) :
    Readable l (.paren inner) := by
  refine .of_attached (.paren hinner) (by simp [Expr.level]) fun hts hd hloops => ?_
  obtain ⟨t, rest, rfl, ht, hrest⟩ := hts.exists_cons
  obtain ⟨is, last, rfl, his, hlast⟩ := hrest.exists_append
  obtain ⟨t', rfl, ht'⟩ := hlast.exists_single
  refine .bind (.operand_paren ht.kind_eq ht'.kind_eq ?_) hloops.reads
  refine h.reads_nested his ?_ inner.one_le_level ?_
  · simp only [List.length_cons, List.length_append] at hd
    omega
  · exact follows_of_token ht'.kind_eq rfl rfl 1

theorem unary (op : UnaryOp) {operand : Expr} (hoperand : operand.Placed l)
    (hlevel : 6 ≤ operand.level) (h : Readable l operand) : Readable l (.unary op operand) := by
  refine .of_front (fun {d ts post} hts hd hpost => ?_) fun hseven => ?_
  · obtain ⟨t, rest, rfl, ht, hrest⟩ := hts.exists_cons
    have hchan : headKind (rest ++ post) ≠ .keyword .chan := by
      intro heq
      have hstart := (headKind_of_placed hoperand hrest post).1
      rw [heq] at hstart
      cases hstart
    refine .peek (.unaryOp?_some ht.kind_eq hchan) (.step (.skip t) (.last ?_ (.pure _)))
    cases d with
    | zero => exact absurd hd (by simp)
    | succ d => exact h.front hlevel hrest (by simpa using hd) hpost
  · exact absurd hseven (by simp [Expr.level])

/-- The left side starts the row that the operator goes on with. -/
theorem binary (op : BinaryOp) {lhs rhs : Expr} (hl : op.precedence ≤ lhs.level)
    (hr : op.precedence < rhs.level) (hlhs : Readable l lhs) (hrhs : Readable l rhs) :
    Readable l (.binary op lhs rhs) := by
  have hprecedence := op.precedence_le_five
  refine ⟨fun {d least ts us post y} hts hd hleast hpost hloops => ?_, fun h => ?_, fun h => ?_⟩
  · obtain ⟨ls, rest, rfl, hls, hrest⟩ := hts.exists_append
    obtain ⟨t, rs, rfl, ht, hrs⟩ := hrest.exists_cons
    simp only [List.length_append, List.length_cons] at hd
    have hkind := ht.kind_eq
    have hright : Reads l ((ofDepth d).binary (op.precedence + 1)) rs (us ++ post) rhs :=
      hrhs.reads_nested hrs (by omega) hr hpost
    have hround := Loops.next (.binaryStep_some hkind hleast hright lhs) hloops
    rw [List.append_assoc]
    exact hlhs.climb hls (by omega) (Nat.le_trans hleast hl)
      (follows_of_operator hkind (Nat.lt_succ_of_le hl)) hround
  · simp only [Expr.level] at h
    omega
  · simp only [Expr.level] at h
    omega

theorem selector {base : Expr} (field : String) (hbase : base.Placed l) (hlevel : 7 ≤ base.level)
    (h : Readable l base) : Readable l (.selector base field) := by
  refine .of_attached (.selector field hbase hlevel) (by simp [Expr.level]) fun hts hd hloops => ?_
  obtain ⟨bs, rest, rfl, hbs, hrest⟩ := hts.exists_append
  obtain ⟨t, rest, rfl, ht, hlast⟩ := hrest.exists_cons
  obtain ⟨t', rfl, ht'⟩ := hlast.exists_single
  obtain rfl := ht'.lexeme_eq rfl
  have hkind := ht'.kind_eq
  rw [List.append_assoc]
  refine h.attached hlevel hbs ?_ (.next (.suffix_selector ht.kind_eq hkind base) hloops)
  simp only [List.length_append] at hd
  omega

theorem index {base place : Expr} (hbase : base.Placed l) (hplace : place.Placed true)
    (hlevel : 7 ≤ base.level) (h : Readable l base) (h' : Readable true place) :
    Readable l (.index base place) := by
  refine .of_attached (.index hbase hplace hlevel) (by simp [Expr.level])
    fun {d ts us post y} hts hd hloops => ?_
  obtain ⟨bs, rest, rfl, hbs, hrest⟩ := hts.exists_append
  obtain ⟨t, rest, rfl, ht, hrest⟩ := hrest.exists_cons
  obtain ⟨is, last, rfl, his, hlast⟩ := hrest.exists_append
  obtain ⟨t', rfl, ht'⟩ := hlast.exists_single
  simp only [List.length_append, List.length_cons] at hd
  have hindex : Reads true ((ofDepth d).binary 1) is (t' :: (us ++ post)) place :=
    h'.reads_nested his (by omega) place.one_le_level (follows_of_token ht'.kind_eq rfl rfl 1)
  rw [List.append_assoc]
  exact h.attached hlevel hbs (by omega)
    (.next (.suffix_index ht.kind_eq ht'.kind_eq hindex base) hloops)

theorem call {callee : Expr} {arguments : List Expr} (hcallee : callee.Placed l)
    (harguments : ∀ a ∈ arguments, a.Placed true) (hlevel : 7 ≤ callee.level)
    (h : Readable l callee) (h' : ∀ a ∈ arguments, Readable true a) :
    Readable l (.call callee arguments) := by
  refine .of_attached (.call hcallee harguments hlevel) (by simp [Expr.level])
    fun {d ts us post y} hts hd hloops => ?_
  obtain ⟨cs, rest, rfl, hcs, hrest⟩ := hts.exists_append
  obtain ⟨t, as, rfl, ht, has⟩ := hrest.exists_cons
  have hlength := has.length_eq
  simp only [List.length_append, List.length_cons] at hd hlength
  have hargs : Reads true (commaClosed .parenClose (Parse.argument (ofDepth d))) as
      (us ++ post) arguments := by
    refine takes_row (by decide) rfl harguments (fun a ha => ?_) as _ has trivial
    have hle := length_le_row ha
    exact (h' a ha).takes_argument (by omega)
  rw [List.append_assoc]
  exact h.attached hlevel hcs (by omega) (.next (.suffix_call ht.kind_eq hargs callee) hloops)

/-- The name of the type is read as an operand, which the elements are attached to. -/
theorem composite {type : TypeExpr} {elements : List Expr} (htype : type.isName)
    (helements : ∀ e ∈ elements, e.Placed true) (h : ∀ e ∈ elements, Readable true e) :
    Readable true (.composite (some type) elements) := by
  refine .of_attached (.composite htype helements) (by simp [Expr.level])
    fun {d ts us post y} hts hd hloops => ?_
  obtain ⟨ns, rest, rfl, hns, hrest⟩ := hts.exists_append
  obtain ⟨t, bs, rfl, ht, hbs⟩ := hrest.exists_cons
  have hlength := hbs.length_eq
  simp only [List.length_append, List.length_cons] at hd hlength
  have hbraces : Reads true (commaClosed .braceClose (keyedElement (ofDepth d))) bs
      (us ++ post) elements := by
    refine takes_row (by decide) rfl helements (fun e he => ?_) bs _ hbs trivial
    have hle := length_le_row he
    exact (h e he).takes_element (helements e he) (by omega)
  rw [List.append_assoc]
  cases type with
  | named name =>
    obtain ⟨n, rfl, hn⟩ := hns.exists_single
    obtain rfl := hn.lexeme_eq rfl
    exact .bind (.operand_ident hn.kind_eq)
      (Loops.next (.suffix_composite ht.kind_eq rfl hbraces) hloops).reads
  | qualified package name =>
    obtain ⟨p, rest, rfl, hp, hrest⟩ := hns.exists_cons
    obtain ⟨dot, rest, rfl, hdot, hlast⟩ := hrest.exists_cons
    obtain ⟨n, rfl, hn⟩ := hlast.exists_single
    obtain rfl := hp.lexeme_eq rfl
    obtain rfl := hn.lexeme_eq rfl
    have hliteral : Loops true (suffix (ofDepth d)) (.selector (.ident p.lexeme) n.lexeme)
        (t :: bs ++ us) post y :=
      .next (.suffix_composite ht.kind_eq rfl hbraces) hloops
    exact .step (.operand_ident hp.kind_eq)
      (Loops.next (.suffix_selector hdot.kind_eq hn.kind_eq _) hliteral).reads
  | _ => cases htype

end Readable

/-- Every tree is read in the ways that its level allows, where it may stand. -/
theorem readable_of_placed {e : Expr} (h : e.Placed l) : Readable l e := by
  induction h with
  | ident name => exact .ident name
  | literal lit => exact .literal lit
  | paren h ih => exact .paren h ih
  | unary op h hl ih => exact .unary op h hl ih
  | binary op _ _ hl hr ih ih' => exact .binary op hl hr ih ih'
  | selector field h hl ih => exact .selector field h hl ih
  | index h h' hl ih ih' => exact .index h h' hl ih ih'
  | call h h' hl ih ih' => exact .call h h' hl ih ih'
  | composite htype h ih => exact .composite htype h ih

/-- A tree is read back from its tokens where it may stand, if what follows does not go on with
it. -/
theorem reads_of_placed {e : Expr} (h : e.Placed l) {d least : Nat} (hts : Shows ts e.written)
    (hd : ts.length ≤ d) (hleast : least ≤ e.level) (hpost : Follows l least post) :
    Reads l (binary (ofDepth d) least) ts post e :=
  (readable_of_placed h).reads hts hd hleast hpost

/-- A well-formed tree is read back from its tokens, if what follows does not go on with it. -/
theorem reads_of_wellFormed {e : Expr} (h : e.WellFormed) {d least : Nat}
    (hts : Shows ts e.pieces) (hd : ts.length ≤ d) (hleast : least ≤ e.level)
    (hpost : Follows l least post) : Reads l (binary (ofDepth d) least) ts post e :=
  reads_of_placed (h.placed l) (h.written_eq ▸ hts) hd hleast hpost

end Parse

end BoundedGo
