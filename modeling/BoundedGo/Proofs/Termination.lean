import BoundedGo.Proofs.Progress

/-!
Reading ends and never goes back. The program nests productions up to a depth and runs loops up to
a number of rounds, and reports `SyntaxFault.exhausted` where a bound is reached. No parser catches
an error, so a call without that report has stayed within the bounds. A production has read a token
in front of everything nested in it, so it needs one level of depth more than the grammar it is
made from for one token more ahead (`DeepGrammar.above`). A grammar that takes its depth from the
tokens ahead is then made from itself (`above_unbounded`): it is the recursion without a bound.
Main statement: every call in a sequence of calls ends, and goes on by a token when it succeeds
(`Request.calls_advance`).
-/
namespace BoundedGo

namespace Parse

open Grammar

section Flat

/-! Productions in which nothing is nested. -/

variable {n : Nat} {s : Stream}

namespace Proceeds

theorem typeName (name : String) : Proceeds n Free (Parse.typeName name) (Parse.typeName name) s :=
  .accept_bind nofun (fun _ => .bind_pure .identifier) fun _ => .free_pure _

theorem selector (x : Expr) : Proceeds n Free (Parse.selector x) (Parse.selector x) s := by
  refine .current_bind fun t ht => ?_
  generalize t.kind = k at ht
  split
  · exact .skip_bind ht nofun fun _ => .free_pure _
  · exact .fail nofun
  · exact .refuse _

theorem looksGeneric : Proceeds n Free Parse.looksGeneric Parse.looksGeneric s := by
  refine .isAt_bind (fun _ => ?_) fun _ => ?_
  · exact .kindAt_bind fun _ => .kindAt_bind fun _ => .free_pure _
  · exact .kindAt_bind fun _ => .kindAt_bind fun _ => .free_pure _

theorem specs {α : Type} {spec spec' : Parse α} (h : ∀ t, Proceeds n Costly spec spec' t) :
    Proceeds n Free (Parse.specs spec) (Parse.specs spec') s :=
  .accept_bind nofun (fun _ => .statementsClosed fun t _ => h t) fun _ => (h s).bind_pure

theorem single (fault : SyntaxFault) (hfault : fault ≠ .exhausted) (lhs : List Expr) :
    Proceeds n Free (Parse.single fault lhs) (Parse.single fault lhs) s := by
  unfold Parse.single
  split
  · exact .free_pure _
  · exact .fail hfault

theorem condition (stmt : Stmt) :
    Proceeds n Free (Parse.condition stmt) (Parse.condition stmt) s := by
  unfold Parse.condition
  split
  · exact .free_pure _
  · exact .fail nofun

theorem jumpStatement (jump : Jump) :
    Proceeds n Free (Parse.jumpStatement jump) (Parse.jumpStatement jump) s :=
  .bind_pure .accept_free

theorem importAlias : Proceeds n Free Parse.importAlias Parse.importAlias s := by
  refine .current_bind fun t ht => ?_
  generalize t.kind = k at ht
  split
  · exact .skip_bind ht nofun fun _ => .free_pure _
  · exact .skip_bind ht nofun fun _ => .free_pure _
  · exact .free_pure _

theorem importSpec : Proceeds n Costly Parse.importSpec Parse.importSpec s := by
  refine .bind .importAlias fun alias? _ => .current_bind fun t ht => ?_
  split
  · rename_i hk
    exact .skip_bind (ht.trans hk) nofun fun _ => .free_pure _
  · exact .refuse _

theorem importStep : Proceeds n Round Parse.importStep Parse.importStep s := by
  refine .accept_bind nofun (fun _ => ?_) fun _ => .pure nofun
  refine .bind (.specs fun _ => .importSpec) fun _ _ => .bind .statementEnd fun _ _ => ?_
  exact .skipSemicolons_bind fun _ _ => .free_pure _

theorem packageClause : Proceeds n Costly Parse.packageClause Parse.packageClause s := by
  refine .skipSemicolons_bind fun t _ => .bind_costly (.expectKeyword _) fun _ _ => ?_
  exact .bind (.free .identifier) fun _ _ => .bind_pure .statementEnd

end Proceeds

theorem ne_eof_of_ofAssignment? {k : TokenKind} {op : BinaryOp}
    (h : (match k with | .symbol c => BinaryOp.ofAssignment? c | _ => none) = some op) :
    k ≠ .eof := by
  intro hk
  rw [hk] at h
  cases h

end Flat

/-- A grammar `g` whose productions go on by a token, are deep enough in front of fewer than `n`
tokens, and give there what those of `g'` give. In front of a semicolon there is an empty
statement, which costs nothing. -/
structure DeepGrammar (n : Nat) (g g' : Grammar) : Prop where
  binary : ∀ least s, Proceeds n Costly (g.binary least) (g'.binary least) s
  unary : ∀ s, Proceeds n Costly g.unary g'.unary s
  element : ∀ s, Proceeds n Costly g.element g'.element s
  type : ∀ s, Proceeds n Costly g.type g'.type s
  block : ∀ s, Proceeds n Costly g.block g'.block s
  statement : ∀ s,
    Proceeds n (fun _ => headKind s.rest ≠ .symbol .semicolon) g.statement g'.statement s

namespace DeepGrammar

variable {n : Nat} {g g' : Grammar} {s : Stream} (h : DeepGrammar n g g')
include h

section Types

theorem param : Proceeds n Free (Parse.param g) (Parse.param g') s := by
  refine .accept_bind nofun (fun t => (h.type t).bind_pure) fun _ => ?_
  refine .bind (h.type s).free fun first t => .kind_bind fun k _ => ?_
  split
  · exact .free_pure _
  · exact .free_pure _
  · split
    · exact .accept_bind nofun (fun u => (h.type u).bind_pure) fun _ => (h.type t).bind_pure
    · exact .fail nofun

theorem params : Proceeds n Costly (Parse.params g) (Parse.params g') s := by
  refine .bind_costly (.expectSymbol _) fun _ _ => .bind (.commaClosed fun _ => h.param) ?_
  intro entries t
  split
  · exact .free_pure _
  · exact .fail nofun

theorem results : Proceeds n Free (Parse.results g) (Parse.results g') s := by
  refine .kind_bind fun k _ => ?_
  split
  · exact h.params.free
  · split
    · exact (h.type s).bind_pure
    · exact .free_pure _

theorem signature : Proceeds n Costly (Parse.signature g) (Parse.signature g') s :=
  .bind_costly h.params fun _ _ => h.results.bind_pure

theorem bracketType : Proceeds n Free (Parse.bracketType g) (Parse.bracketType g') s := by
  refine .accept_bind nofun (fun t => (h.type t).bind_pure) fun _ => ?_
  refine .isAt_bind (fun _ => .fail nofun) fun _ => ?_
  refine .bind (.withLiterals fun t => (h.binary 1 t).free) fun _ _ => ?_
  exact .bind (.free (.expectSymbol _)) fun _ u => (h.type u).bind_pure

theorem mapType : Proceeds n Free (Parse.mapType g) (Parse.mapType g') s := by
  refine .bind (.free (.expectSymbol _)) fun _ t => .bind (h.type t).free fun _ _ => ?_
  exact .bind (.free (.expectSymbol _)) fun _ u => (h.type u).bind_pure

theorem channelType : Proceeds n Free (Parse.channelType g) (Parse.channelType g') s :=
  .bind .accept_free fun _ t => (h.type t).bind_pure

theorem receiveType : Proceeds n Free (Parse.receiveType g) (Parse.receiveType g') s :=
  .bind (.free (.expectKeyword _)) fun _ t => (h.type t).bind_pure

theorem embeddedField : Proceeds n Costly (Parse.embeddedField g) (Parse.embeddedField g') s :=
  .bind_costly (h.type s) fun _ _ => .free_pure _

theorem namedField : Proceeds n Costly (Parse.namedField g) (Parse.namedField g') s :=
  .bind_costly (.commaSeparated fun _ => .identifier) fun _ t => (h.type t).bind_pure

theorem untaggedField : Proceeds n Costly (Parse.untaggedField g) (Parse.untaggedField g') s := by
  refine .kind_bind fun k _ => ?_
  split
  · exact h.embeddedField
  · refine .kindAt_bind fun k => ?_
    split
    · exact h.embeddedField
    · exact h.namedField
  · exact .refuse _

theorem structField : Proceeds n Costly (Parse.structField g) (Parse.structField g') s :=
  .bind_costly h.untaggedField fun _ _ => .bind_pure .accept_free

theorem structType : Proceeds n Free (Parse.structType g) (Parse.structType g') s :=
  .bind (.free (.expectSymbol _)) fun _ _ =>
    .bind_pure (.statementsClosed fun _ _ => h.structField)

theorem embeddedInterface :
    Proceeds n Costly (Parse.embeddedInterface g) (Parse.embeddedInterface g') s := by
  refine .bind .accept_free fun _ t => .bind_costly (h.type t) fun first u => ?_
  refine .bind_pure (.collect fun v => .accept_bind nofun (fun w => ?_) fun _ => .pure nofun)
  exact .bind .accept_free fun _ x => (h.type x).bind_pure

theorem method : Proceeds n Costly (Parse.method g) (Parse.method g') s :=
  .bind_costly .identifier fun _ _ => h.signature.bind_pure

theorem interfaceElement :
    Proceeds n Costly (Parse.interfaceElement g) (Parse.interfaceElement g') s := by
  refine .kind_bind fun k _ => .kindAt_bind fun k' => ?_
  split
  · exact h.method
  · exact h.embeddedInterface

theorem interfaceType : Proceeds n Free (Parse.interfaceType g) (Parse.interfaceType g') s :=
  .bind (.free (.expectSymbol _)) fun _ _ =>
    .bind_pure (.statementsClosed fun _ _ => h.interfaceElement)

theorem parenType : Proceeds n Free (Parse.parenType g) (Parse.parenType g') s :=
  .bind (h.type s).free fun _ _ => .bind_pure (.expectSymbol _)

theorem typeExpr : Proceeds (n + 1) Costly (Parse.typeExpr g) (Parse.typeExpr g') s := by
  refine .current_bind fun t ht => ?_
  generalize t.kind = k at ht
  split
  · exact .skip_first ht nofun fun _ => .typeName _
  · exact .skip_first ht nofun fun _ => h.bracketType
  · exact .skip_first ht nofun fun _ => h.mapType
  · exact .skip_first ht nofun fun _ => h.channelType
  · exact .skip_first ht nofun fun _ => h.receiveType
  · exact .skip_first ht nofun fun _ => h.structType
  · exact .skip_first ht nofun fun _ => h.interfaceType
  · exact .skip_first ht nofun fun _ => h.signature.bind_pure
  · exact .skip_first ht nofun fun u => (h.type u).bind_pure
  · exact .skip_first ht nofun fun _ => h.parenType
  · exact .refuse _

end Types

section Expressions

theorem keyedElement : Proceeds n Free (Parse.keyedElement g) (Parse.keyedElement g') s :=
  .bind (h.element s).free fun _ _ =>
    .accept_bind nofun (fun t => (h.element t).bind_pure) fun _ => .free_pure _

theorem composite (type : Option TypeExpr) :
    Proceeds (n + 1) Costly (Parse.composite g type) (Parse.composite g' type) s :=
  .bind_first (.expectSymbol _) fun _ _ =>
    .bind_pure (.withLiterals fun _ => .commaClosed fun _ => h.keyedElement)

theorem argument : Proceeds n Free (Parse.argument g) (Parse.argument g') s :=
  .bind (h.binary 1 s).free fun _ _ => .bind_pure .accept_free

theorem index (x : Expr) : Proceeds n Free (Parse.index g x) (Parse.index g' x) s := by
  refine .bind (.withLiterals fun t => (h.binary 1 t).free) fun _ _ => ?_
  refine .isAt_bind (fun _ => .fail nofun) fun _ => ?_
  exact .bind_pure (.expectSymbol _)

theorem call (x : Expr) : Proceeds n Free (Parse.call g x) (Parse.call g' x) s :=
  .bind_pure (.withLiterals fun _ => .commaClosed fun _ => h.argument)

theorem suffix (x : Expr) : Proceeds n Round (Parse.suffix g x) (Parse.suffix g' x) s := by
  refine .kind_bind fun k hk => ?_
  split
  · exact .skip_bind hk nofun fun _ => .bind_pure (.selector x)
  · exact .skip_bind hk nofun fun _ => (h.index x).bind_pure
  · exact .skip_bind hk nofun fun _ => (h.call x).bind_pure
  · split
    · refine .literalsAllowed_bind fun allowed => ?_
      split
      · exact .pure nofun
      · exact .bind_costly (h.composite _).shallow fun _ _ => .free_pure _
    · exact .pure nofun
  · exact .pure nofun

theorem functionOperand : Proceeds n Free (Parse.functionOperand g) (Parse.functionOperand g') s :=
  .bind h.signature.free fun _ t =>
    .isAt_bind (fun _ => (h.block t).bind_pure) fun _ => .free_pure _

theorem parenOperand : Proceeds n Free (Parse.parenOperand g) (Parse.parenOperand g') s :=
  .bind (.withLiterals fun t => (h.binary 1 t).free) fun _ _ => .bind_pure (.expectSymbol _)

theorem operand : Proceeds (n + 1) Costly (Parse.operand g) (Parse.operand g') s := by
  refine .current_bind fun t ht => ?_
  generalize t.kind = k at ht
  split
  · exact .skip_first ht nofun fun _ => .free_pure _
  · exact .skip_first ht nofun fun _ => .free_pure _
  · exact .skip_first ht nofun fun _ => h.parenOperand
  · exact .skip_first ht nofun fun _ => h.functionOperand
  · split
    · exact .bind_costly h.typeExpr fun _ _ => .free_pure _
    · exact .refuse _

theorem primary : Proceeds (n + 1) Costly (Parse.primary g) (Parse.primary g') s :=
  .bind_first h.operand fun x _ => .iterate (fun y _ => h.suffix y) x

theorem unary_above : Proceeds (n + 1) Costly (Parse.unary g) (Parse.unary g') s := by
  refine .unaryOp?_bind (fun op hne => ?_) h.primary
  exact .skip_first rfl hne fun t => (h.unary t).bind_pure

theorem binaryStep (least : Nat) (x : Expr) :
    Proceeds n Round (Parse.binaryStep g least x) (Parse.binaryStep g' least x) s := by
  refine .binaryOp?_bind (fun op hne => ?_) (.pure nofun)
  dsimp only
  split
  · exact .pure nofun
  · exact .skip_bind rfl hne fun t => (h.binary _ t).bind_pure

theorem binary_above (least : Nat) :
    Proceeds (n + 1) Costly (Parse.binary g least) (Parse.binary g' least) s :=
  .bind_first h.unary_above fun x _ => .iterate (fun y _ => h.binaryStep least y) x

theorem expr : Proceeds (n + 1) Costly (Parse.expr g) (Parse.expr g') s :=
  h.binary_above 1

theorem exprs : Proceeds (n + 1) Costly (Parse.exprs g) (Parse.exprs g') s :=
  .commaSeparated fun _ => h.expr

theorem element_above : Proceeds (n + 1) Costly (Parse.element g) (Parse.element g') s :=
  .isAt_bind (fun _ => h.composite none) fun _ => h.expr

end Expressions

section Declarations

theorem valueSpec : Proceeds n Costly (Parse.valueSpec g) (Parse.valueSpec g') s := by
  refine .bind_costly (.commaSeparated fun _ => .identifier) fun names t => ?_
  -- The values are read in the same way behind a type and behind none.
  refine .kind_bind fun k _ => ?_
  split
  · refine .bind (.free_pure none) fun type u => ?_
    exact .accept_bind nofun (fun _ => h.exprs.shallow.bind_pure) fun _ =>
      .bind_pure (.free_pure [])
  · refine .bind (.map (h.type t)) fun type u => ?_
    exact .accept_bind nofun (fun _ => h.exprs.shallow.bind_pure) fun _ =>
      .bind_pure (.free_pure [])

theorem typeSpec : Proceeds n Costly (Parse.typeSpec g) (Parse.typeSpec g') s := by
  refine .bind_costly .identifier fun name _ => .bind .looksGeneric fun generic t => ?_
  split
  · exact .fail nofun
  · exact .accept_bind nofun (fun u => (h.type u).bind_pure) fun _ => (h.type t).bind_pure

theorem localDecl : Proceeds (n + 1) Costly (Parse.localDecl g) (Parse.localDecl g') s := by
  refine .kind_bind fun k hk => ?_
  split
  · exact .skip_first hk nofun fun _ => .bind_pure (.specs fun _ => h.valueSpec)
  · exact .skip_first hk nofun fun _ => .bind_pure (.specs fun _ => h.valueSpec)
  · exact .skip_first hk nofun fun _ => .bind_pure (.specs fun _ => h.typeSpec)
  · exact .refuse _

end Declarations

section Statements

theorem simpleFrom (lhs : List Expr) :
    Proceeds n Free (Parse.simpleFrom g lhs) (Parse.simpleFrom g' lhs) s := by
  refine .kind_bind fun k hk => ?_
  split
  · exact .skip_bind hk nofun fun _ => h.exprs.shallow.bind_pure
  · exact .skip_bind hk nofun fun _ => h.exprs.shallow.bind_pure
  · exact .skip_bind hk nofun fun _ => .bind_pure (.single .incDecOperands nofun lhs)
  · exact .skip_bind hk nofun fun _ => .bind_pure (.single .incDecOperands nofun lhs)
  · exact .skip_bind hk nofun fun _ => .bind (.single .sendOperands nofun lhs) fun _ _ =>
      h.expr.shallow.bind_pure
  · split
    · exact .fail nofun
    · split
      · rename_i hop
        exact .skip_bind hk (ne_eof_of_ofAssignment? hop) fun _ => h.expr.shallow.bind_pure
      · split
        · exact .free_pure _
        · exact .refuse _

theorem simple : Proceeds (n + 1) Costly (Parse.simple g) (Parse.simple g') s :=
  .bind_first h.exprs fun lhs _ => h.simpleFrom lhs

theorem rangeOver (define : Bool) (vars : List Expr) :
    Proceeds n Free (Parse.rangeOver g define vars) (Parse.rangeOver g' define vars) s := by
  unfold Parse.rangeOver
  split
  · exact .fail nofun
  · exact h.expr.shallow.bind_pure

theorem loopClauses (init : Option Stmt) :
    Proceeds n Free (Parse.loopClauses g init) (Parse.loopClauses g' init) s := by
  -- A condition is left out in front of the semicolon, the last statement in front of the body.
  refine .isAt_bind (fun _ => ?_) fun _ => ?_
  · refine .bind (.free_pure none) fun _ _ => .bind (.free (.expectSymbol _)) fun _ _ => ?_
    refine .isAt_bind (fun _ => ?_) fun _ => ?_
    · exact .bind_pure (.free_pure none)
    · exact .bind_pure (.map h.simple.shallow)
  · refine .bind (.map h.expr.shallow) fun _ _ => .bind (.free (.expectSymbol _)) fun _ _ => ?_
    refine .isAt_bind (fun _ => ?_) fun _ => ?_
    · exact .bind_pure (.free_pure none)
    · exact .bind_pure (.map h.simple.shallow)

theorem statementHeader :
    Proceeds n Free (Parse.statementHeader g) (Parse.statementHeader g') s := by
  refine .bind h.exprs.shallow.free fun lhs t => .kind_bind fun op _ => .kindAt_bind fun k => ?_
  split
  · exact .bind .skip_free fun _ _ => .bind .skip_free fun _ _ => h.rangeOver _ _
  · refine .bind (h.simpleFrom lhs) fun first _ => ?_
    exact .accept_bind nofun (fun _ => h.loopClauses _) fun _ => .bind_pure (.condition first)

theorem header : Proceeds n Free (Parse.header g) (Parse.header g') s := by
  refine .accept_bind nofun (fun _ => h.expr.shallow.bind_pure) fun _ => ?_
  exact .accept_bind nofun (fun _ => h.loopClauses none) fun _ => h.statementHeader

theorem forStatement : Proceeds n Free (Parse.forStatement g) (Parse.forStatement g') s := by
  refine .isAt_bind (fun _ => (h.block s).bind_pure) fun _ => ?_
  exact .bind (.withLiterals fun _ => h.header) fun _ t => (h.block t).bind_pure

theorem ifHeader : Proceeds n Free (Parse.ifHeader g) (Parse.ifHeader g') s := by
  refine .bind h.simple.shallow.free fun first _ => ?_
  exact .accept_bind nofun (fun _ => h.expr.shallow.bind_pure) fun _ =>
    .bind_pure (.condition first)

theorem elseBody : Proceeds n Free (Parse.elseBody g) (Parse.elseBody g') s := by
  refine .kind_bind fun k _ => ?_
  split
  · exact (h.statement s).free
  · exact (h.block s).bind_pure
  · exact .refuse _

theorem ifStatement : Proceeds n Free (Parse.ifStatement g) (Parse.ifStatement g') s := by
  refine .bind (.withLiterals fun _ => h.ifHeader) fun _ t => .bind (h.block t).free fun _ _ => ?_
  refine .accept_bind nofun (fun _ => ?_) fun _ => ?_
  · exact .bind_pure (.map h.elseBody)
  · exact .bind_pure (.free_pure none)

theorem statement_costly (hs : headKind s.rest ≠ .symbol .semicolon) :
    Proceeds n Costly g.statement g'.statement s :=
  (h.statement s).mono (Nat.le_refl n) fun _ _ => hs

theorem clauseStep : Proceeds n Round (Parse.clauseStep g) (Parse.clauseStep g') s := by
  refine .skipSemicolons_bind fun t ht => .kind_bind fun k _ => ?_
  split
  · exact .pure nofun
  · refine .bind_costly (h.statement_costly ht) fun _ _ => .kind_bind fun k _ => ?_
    split
    · exact .free_pure _
    · exact .free_pure _
    · exact .bind_pure .statementEnd

theorem clauseBody (comm : Option Stmt) :
    Proceeds n Free (Parse.clauseBody g comm) (Parse.clauseBody g' comm) s :=
  .bind (.free (.expectSymbol _)) fun _ _ => .bind_pure (.collect fun _ => h.clauseStep)

theorem commClause : Proceeds n Round (Parse.commClause g) (Parse.commClause g') s := by
  refine .skipSemicolons_bind fun t _ => .kind_bind fun k hk => ?_
  split
  · exact .skip_bind hk nofun fun _ => .free_pure _
  · exact .skip_bind hk nofun fun _ => .bind h.simple.shallow.free fun _ _ => h.clauseBody _
  · exact .skip_bind hk nofun fun _ => h.clauseBody _
  · exact .refuse _

theorem selectStatement : Proceeds n Free (Parse.selectStatement g) (Parse.selectStatement g') s :=
  .bind (.free (.expectSymbol _)) fun _ _ =>
    .bind_pure (.withLiterals fun _ => .collect fun _ => h.commClause)

theorem returnStatement :
    Proceeds n Free (Parse.returnStatement g) (Parse.returnStatement g') s := by
  refine .kind_bind fun k _ => ?_
  split
  · exact .free_pure _
  · exact h.exprs.shallow.bind_pure

theorem block_above : Proceeds (n + 1) Costly (Parse.block g) (Parse.block g') s := by
  refine .bind_first (.expectSymbol _) fun _ _ => .withLiterals fun _ => ?_
  refine .statementsClosed fun t ht => .isAt_bind (fun _ => .refuse _) fun _ => ?_
  exact h.statement_costly ht

theorem statement_above : Proceeds (n + 1) (fun _ => headKind s.rest ≠ .symbol .semicolon)
    (Parse.statement g) (Parse.statement g') s := by
  refine .current_bind fun t ht => ?_
  generalize t.kind = k at ht
  split
  · exact .skip_first ht nofun fun _ => h.returnStatement
  · exact .skip_first ht nofun fun _ => h.ifStatement
  · exact .skip_first ht nofun fun _ => h.forStatement
  · exact .skip_first ht nofun fun _ => h.selectStatement
  · exact .skip_first ht nofun fun _ => h.expr.shallow.bind_pure
  · exact .skip_first ht nofun fun _ => .jumpStatement _
  · exact .skip_first ht nofun fun _ => .jumpStatement _
  · exact .bind_costly h.block_above fun _ _ => .free_pure _
  · exact .pure fun hne => hne ht
  · split
    · exact .bind_costly h.localDecl fun _ _ => .free_pure _
    · split
      · exact .fail nofun
      · exact h.simple.any
  · exact h.simple.any

end Statements

section Source

theorem receiver : Proceeds n Free (Parse.receiver g) (Parse.receiver g') s := by
  refine .isAt_bind (fun _ => .bind h.params.free fun fields _ => ?_) fun _ => .free_pure _
  split
  · exact .free_pure _
  · exact .fail nofun

theorem functionDecl : Proceeds n Free (Parse.functionDecl g) (Parse.functionDecl g') s := by
  refine .bind h.receiver fun _ _ => .bind (.free .identifier) fun _ _ => ?_
  refine .isAt_bind (fun _ => .fail nofun) fun _ => .bind h.signature.free fun _ t => ?_
  refine .isAt_bind (fun _ => ?_) fun _ => ?_
  · exact .bind_pure (.map (h.block t))
  · exact .bind_pure (.free_pure none)

theorem topDecl : Proceeds n Costly (Parse.topDecl g) (Parse.topDecl g') s :=
  .accept_bind nofun (fun _ => h.functionDecl.bind_pure) fun _ => h.localDecl.shallow

theorem declStep : Proceeds n Round (Parse.declStep g) (Parse.declStep g') s := by
  refine .skipSemicolons_bind fun t _ => .isAt_bind (fun _ => .pure nofun) fun _ => ?_
  exact .bind_costly h.topDecl fun _ _ => .bind_pure .statementEnd

theorem fileOver : Proceeds n Costly (Parse.fileOver g) (Parse.fileOver g') s := by
  refine .bind_costly .packageClause fun _ _ => .skipSemicolons_bind fun _ _ => ?_
  exact .bind (.collect fun _ => .importStep) fun _ _ => .bind_pure (.collect fun _ => h.declStep)

end Source

theorem above : DeepGrammar (n + 1) g.above g'.above where
  binary least _ := h.binary_above least
  unary _ := h.unary_above
  element _ := h.element_above
  type _ := h.typeExpr
  block _ := h.block_above
  statement _ := h.statement_above

end DeepGrammar

/-- What a depth is enough for is read in the same way with any greater depth. -/
theorem deep_ofDepth {m n : Nat} (h : m ≤ n) : DeepGrammar m (ofDepth m) (ofDepth n) := by
  induction m generalizing n with
  | zero =>
    -- No stream has fewer than no tokens ahead.
    have hnone : ∀ {α : Type} (Q : α → Prop) (p : Parse α) s,
        Proceeds 0 Q (Parse.fail .exhausted) p s := by
      intro α Q p s
      have hfew : ¬ s.rest.length < 0 := Nat.not_lt_zero _
      exact ⟨⟨.refl s, fun hs => absurd hs hfew⟩, fun hs => absurd hs hfew⟩
    exact ⟨fun _ => hnone _ _, hnone _ _, hnone _ _, hnone _ _, hnone _ _, fun _ => hnone _ _ _⟩
  | succ m ih =>
    cases n with
    | zero => exact absurd h (Nat.not_succ_le_zero m)
    | succ n => exact (ih (Nat.le_of_succ_le_succ h)).above

theorem map_nested {α β : Type} (f : α → β) (production : Grammar → Parse α) :
    f <$> nested production = nested fun g => f <$> production g :=
  rfl

/-- The grammar whose productions are deep enough for the tokens ahead. -/
def unbounded : Grammar where
  binary least := nested (·.binary least)
  unary := nested (·.unary)
  element := nested (·.element)
  type := nested (·.type)
  block := nested (·.block)
  statement := nested (·.statement)

/-- The depth that the tokens ahead ask for gives what every greater depth gives. -/
theorem proceeds_nested {α : Type} {n : Nat} {Q : α → Prop} {s : Stream}
    (production : Grammar → Parse α)
    (h : ∀ m ≤ n, Proceeds m Q (production (ofDepth m)) (production (ofDepth n)) s) :
    Proceeds n Q (production (ofDepth n)) (nested production) s := by
  refine ⟨(h n (Nat.le_refl n)).proper, fun hs => ?_⟩
  have hgreater := (h (s.rest.length + 1) hs).same (Nat.lt_succ_self _)
  exact hgreater.symm

theorem deep_unbounded (n : Nat) : DeepGrammar n (ofDepth n) unbounded where
  binary least s := proceeds_nested (·.binary least) fun _ hm => (deep_ofDepth hm).binary least s
  unary s := proceeds_nested (·.unary) fun _ hm => (deep_ofDepth hm).unary s
  element s := proceeds_nested (·.element) fun _ hm => (deep_ofDepth hm).element s
  type s := proceeds_nested (·.type) fun _ hm => (deep_ofDepth hm).type s
  block s := proceeds_nested (·.block) fun _ hm => (deep_ofDepth hm).block s
  statement s := proceeds_nested (·.statement) fun _ hm => (deep_ofDepth hm).statement s

/-- What is made from the grammar is the grammar itself, so it is the recursion without a bound. -/
theorem above_unbounded : unbounded.above = unbounded := by
  have hsame : ∀ {α : Type} {Q : α → Prop} {production : Grammar → Parse α} {p : Parse α}
      {s : Stream}, Proceeds (s.rest.length + 1) Q (production (ofDepth (s.rest.length + 1))) p s →
        p s = nested production s := fun h => h.same (Nat.lt_succ_self _)
  simp only [above, unbounded, Grammar.mk.injEq]
  refine ⟨funext fun least => funext fun s => ?_, funext fun s => ?_, funext fun s => ?_,
    funext fun s => ?_, funext fun s => ?_, funext fun s => ?_⟩
  · exact hsame ((deep_unbounded s.rest.length).binary_above least)
  · exact hsame (deep_unbounded s.rest.length).unary_above
  · exact hsame (deep_unbounded s.rest.length).element_above
  · exact hsame (deep_unbounded s.rest.length).typeExpr
  · exact hsame (deep_unbounded s.rest.length).block_above
  · exact hsame (deep_unbounded s.rest.length).statement_above

end Parse

/-- What can be asked of a parser again and again. -/
inductive Request
  | expression
  | type
  | block
  | file

/-- The tree that answers a request. -/
inductive Answer
  | expression (e : Expr)
  | type (t : TypeExpr)
  | block (body : List Stmt)
  | file (f : File)

namespace Request

open Parse

def parser : Request → Parse Answer
  | .expression => .expression <$> Parse.expression
  | .type => .type <$> Parse.typeExpression
  | .block => .block <$> Parse.blockStatement
  | .file => .file <$> Parse.file

/-- The same with a grammar for what is nested. -/
def production (g : Grammar) : Request → Parse Answer
  | .expression => .expression <$> Parse.expr g
  | .type => .type <$> Parse.typeExpr g
  | .block => .block <$> Parse.block g
  | .file => .file <$> Parse.fileOver g

/-- The stream behind a call, whether it succeeds or fails. -/
def behind (r : Request) (s : Stream) : Stream :=
  match r.parser s with
  | .ok _ t => t
  | .error _ t => t

/-- The stream behind one call after the other. -/
def behindAll (rs : List Request) (s : Stream) : Stream :=
  rs.foldl (fun s r => r.behind s) s

/-- A call ends, goes forward only, and goes on by a token when it succeeds. -/
structure Advances (r : Request) (s : Stream) : Prop where
  /-- No bound on depth or rounds is reached. -/
  ends : ∀ e t, r.parser s = .error e t → e.fault ≠ .exhausted
  /-- The answer is that of a grammar whose productions use themselves for what is nested. -/
  unbounded : ∃ g : Grammar, g.above = g ∧ r.parser s = r.production g s
  tokens : (r.behind s).tokens = s.tokens
  cursor_le : s.cursor ≤ (r.behind s).cursor
  cursor_lt : (r.behind s).cursor < s.tokens.length
  forward : ∀ a t, r.parser s = .ok a t → s.cursor < t.cursor

theorem parser_eq (r : Request) : r.parser = nested fun g => r.production g := by
  cases r with
  | expression => exact map_nested _ _
  | type => exact map_nested _ _
  | block => exact map_nested _ _
  | file => exact map_nested _ _

theorem production_proceeds (r : Request) {n : Nat} {g g' : Grammar} (h : DeepGrammar n g g')
    (s : Stream) : Proceeds n Costly (r.production g) (r.production g') s := by
  cases r with
  | expression => exact h.expr.shallow.map_costly
  | type => exact h.typeExpr.shallow.map_costly
  | block => exact h.block_above.shallow.map_costly
  | file => exact h.fileOver.map_costly

theorem behind_eq (r : Request) (s : Stream) : r.behind s = left (r.parser s) := by
  unfold behind
  cases r.parser s <;> rfl

theorem advances (r : Request) (s : Stream) : r.Advances s := by
  have hread := r.production_proceeds (deep_unbounded (s.rest.length + 1)) s
  have hsame : r.parser s = r.production (.ofDepth (s.rest.length + 1)) s := by
    rw [r.parser_eq, nested]
  have hproper := hread.proper
  rw [← hsame] at hproper
  have hst : s.LeadsTo (r.behind s) := by
    rw [behind_eq]
    exact hproper.leadsTo_left
  have hcursor := hst.cursor_add
  have hle := hst.length_le
  refine ⟨fun e t hr => ?_, ⟨unbounded, above_unbounded, ?_⟩, hst.tokens_eq, by omega, ?_,
    fun a t hr => ?_⟩
  · rw [hr] at hproper
    exact hproper.2 (Nat.lt_succ_self _)
  · rw [hsame]
    exact (hread.same (Nat.lt_succ_self _)).symm
  · rw [s.length_tokens]
    omega
  · rw [hr] at hproper
    have hlt := hproper.2 trivial
    have hadd := hproper.1.cursor_add
    omega

theorem tokens_behindAll (rs : List Request) (s : Stream) : (behindAll rs s).tokens = s.tokens := by
  induction rs generalizing s with
  | nil => rfl
  | cons r rs ih => exact (ih (r.behind s)).trans (r.advances s).tokens

/-- Whatever the tokens are and whatever was asked before, with or without success, the next call
ends, does not go back and does not leave the tokens. -/
theorem calls_advance (ts : List Token) (rs : List Request) (r : Request) :
    (behindAll rs (Stream.ofTokens ts)).tokens = (Stream.ofTokens ts).tokens ∧
      r.Advances (behindAll rs (Stream.ofTokens ts)) :=
  ⟨tokens_behindAll rs _, r.advances _⟩

end Request

end BoundedGo
