import BoundedGo.Parse.Source

/-!
Parsers do not look back. The tokens that lie behind are kept for the place in the stream, and no
production reads them: with more tokens behind it, a parser gives the same answer, and leaves the
stream at the same token with the same ones behind it. So what a production reads at the beginning
of a stream it reads at every place where the same tokens are ahead.
Main statement: no production of the grammar looks back, to whatever depth it nests
(`forward_ofDepth`).
-/
namespace BoundedGo

/-- The stream with more tokens behind all those that lie behind. -/
def Stream.over (base : List Token) (s : Stream) : Stream :=
  { s with seen := s.seen ++ base }

namespace Parse

/-- An answer with more tokens behind the stream that is left. -/
def answerOver {α : Type} (base : List Token) :
    EStateM.Result SyntaxError Stream α → EStateM.Result SyntaxError Stream α
  | .ok a s => .ok a (s.over base)
  | .error e s => .error e (s.over base)

/-- A parser that does not look back. -/
def Forward {α : Type} (p : Parse α) : Prop :=
  ∀ base s, p (s.over base) = answerOver base (p s)

namespace Forward

variable {α β : Type} {p q : Parse α} {f : α → Parse β}

theorem pure (a : α) : Forward (Pure.pure a : Parse α) := fun _ _ => rfl

theorem fail (fault : SyntaxFault) : Forward (Parse.fail fault : Parse α) := fun _ _ => rfl

theorem refuse (wanted : Expectation) : Forward (Parse.refuse wanted : Parse α) := fun _ _ => rfl

theorem current : Forward Parse.current := fun _ _ => rfl

theorem kind : Forward Parse.kind := fun _ _ => rfl

theorem kindAt (n : Nat) : Forward (Parse.kindAt n) := fun _ _ => rfl

theorem literalsAllowed : Forward Parse.literalsAllowed := fun _ _ => rfl

theorem skip : Forward Parse.skip := by
  intro base s
  obtain ⟨seen, rest, finish, l⟩ := s
  cases rest with
  | nil => rfl
  | cons t rest => rfl

theorem skipSemicolons : Forward Parse.skipSemicolons := by
  intro base s
  simp [Parse.skipSemicolons, answerOver, Stream.over, Stream.skipSemicolons]

theorem bind (hp : Forward p) (hf : ∀ a, Forward (f a)) : Forward (p >>= f) := by
  intro base s
  change EStateM.bind p f _ = answerOver base (EStateM.bind p f s)
  simp only [EStateM.bind, hp base s]
  cases p s with
  | ok a t => exact hf a base t
  | error e t => rfl

theorem map {g : α → β} (h : Forward p) : Forward (g <$> p) :=
  bind (f := fun a => Pure.pure (g a)) h fun _ => pure _

theorem ite {c : Prop} [Decidable c] (hp : Forward p) (hq : Forward q) :
    Forward (if c then p else q) := by
  split
  · exact hp
  · exact hq

theorem withLiterals {allowed : Bool} (h : Forward p) :
    Forward (Parse.withLiterals allowed p) := by
  intro base s
  have hinside := h base { s with literals := allowed }
  simp only [Parse.withLiterals, Stream.over] at hinside ⊢
  rw [hinside]
  cases p { s with literals := allowed } with
  | ok a t => rfl
  | error e t => rfl

theorem isAt (k : TokenKind) : Forward (Parse.isAt k) := bind kind fun _ => pure _

theorem accept (k : TokenKind) : Forward (Parse.accept k) :=
  bind (isAt k) fun _ => ite (bind skip fun _ => pure _) (pure _)

theorem expectSymbol (s : Symbol) : Forward (Parse.expectSymbol s) :=
  bind (accept s) fun _ => ite (pure _) (refuse _)

theorem expectKeyword (w : Keyword) : Forward (Parse.expectKeyword w) :=
  bind (accept w) fun _ => ite (pure _) (refuse _)

theorem identifier : Forward Parse.identifier :=
  bind current fun _ => ite (bind skip fun _ => pure _) (refuse _)

theorem statementEnd : Forward Parse.statementEnd := by
  refine bind kind fun k => ?_
  split
  · exact skip
  · exact pure _
  · exact pure _
  · exact pure _
  · exact refuse _

theorem collectN {step : Parse (Option α)} (h : Forward step) (n : Nat) :
    Forward (Parse.collectN step n) := by
  induction n with
  | zero => exact fail _
  | succ n ih =>
    refine bind h fun o => ?_
    cases o with
    | none => exact pure _
    | some x => exact bind ih fun _ => pure _

theorem collect {step : Parse (Option α)} (h : Forward step) : Forward (Parse.collect step) :=
  fun base s => collectN h (s.rest.length + 1) base s

theorem iterateN {step : α → Parse (Option α)} (h : ∀ x, Forward (step x)) (n : Nat) (x : α) :
    Forward (Parse.iterateN step n x) := by
  induction n generalizing x with
  | zero => exact fail _
  | succ n ih =>
    refine bind (h x) fun o => ?_
    cases o with
    | none => exact pure _
    | some y => exact ih y

theorem iterate {step : α → Parse (Option α)} (h : ∀ x, Forward (step x)) (x : α) :
    Forward (Parse.iterate step x) :=
  fun base s => iterateN h (s.rest.length + 1) x base s

theorem commaSeparated (h : Forward p) : Forward (Parse.commaSeparated p) := by
  refine bind h fun _ => bind (collect ?_) fun _ => pure _
  exact bind (accept _) fun _ => ite (bind h fun _ => pure _) (pure _)

theorem commaClosed (close : Symbol) (h : Forward p) : Forward (Parse.commaClosed close p) := by
  have hend : ∀ xs : List α, Forward (do Parse.expectSymbol close; return xs) :=
    fun xs => bind (expectSymbol close) fun _ => pure xs
  refine bind (isAt _) fun _ => ite (bind (pure _) hend) (bind h fun _ => bind (collect ?_) fun _ =>
    bind (pure _) hend)
  exact bind (accept _) fun _ => ite (bind (isAt _) fun _ =>
    ite (pure _) (bind h fun _ => pure _)) (pure _)

theorem statementsClosed (close : Symbol) (h : Forward p) :
    Forward (Parse.statementsClosed close p) :=
  collect (bind skipSemicolons fun _ => bind (accept _) fun _ => ite (pure _)
    (bind h fun _ => bind statementEnd fun _ => pure _))

end Forward

/-- A grammar whose productions do not look back. -/
structure ForwardGrammar (g : Grammar) : Prop where
  binary : ∀ least, Forward (g.binary least)
  unary : Forward g.unary
  element : Forward g.element
  type : Forward g.type
  block : Forward g.block
  statement : Forward g.statement

namespace ForwardGrammar

variable {g : Grammar}

theorem param (h : ForwardGrammar g) : Forward (Parse.param g) := by
  refine .bind (.accept _) fun _ => .ite (.bind h.type fun _ => .pure _) ?_
  refine .bind h.type fun first => .bind .kind fun k => ?_
  split
  · exact .pure _
  · exact .pure _
  · split
    · exact .bind (.accept _) fun _ => .bind h.type fun _ => .pure _
    · exact .fail _

theorem params (h : ForwardGrammar g) : Forward (Parse.params g) := by
  refine .bind (.expectSymbol _) fun _ => .bind (.commaClosed _ h.param) fun entries => ?_
  split
  · exact .pure _
  · exact .fail _

theorem results (h : ForwardGrammar g) : Forward (Parse.results g) :=
  .bind .kind fun _ => .ite h.params (.ite (.bind h.type fun _ => .pure _) (.pure _))

theorem signature (h : ForwardGrammar g) : Forward (Parse.signature g) :=
  .bind h.params fun _ => .bind h.results fun _ => .pure _

theorem bracketType (h : ForwardGrammar g) : Forward (Parse.bracketType g) :=
  .bind (.accept _) fun _ => .ite (.bind h.type fun _ => .pure _) <|
    .bind (.isAt _) fun _ => .ite (.fail _) <| .bind (.withLiterals (h.binary 1)) fun _ =>
      .bind (.expectSymbol _) fun _ => .bind h.type fun _ => .pure _

theorem mapType (h : ForwardGrammar g) : Forward (Parse.mapType g) :=
  .bind (.expectSymbol _) fun _ => .bind h.type fun _ => .bind (.expectSymbol _) fun _ =>
    .bind h.type fun _ => .pure _

theorem channelType (h : ForwardGrammar g) : Forward (Parse.channelType g) :=
  .bind (.accept _) fun _ => .bind h.type fun _ => .pure _

theorem receiveType (h : ForwardGrammar g) : Forward (Parse.receiveType g) :=
  .bind (.expectKeyword _) fun _ => .bind h.type fun _ => .pure _

theorem structField (h : ForwardGrammar g) : Forward (Parse.structField g) := by
  refine .bind ?_ fun _ => .bind (.accept _) fun _ => .pure _
  refine .bind .kind fun k => ?_
  split
  · exact .bind h.type fun _ => .pure _
  · exact .bind (.kindAt 1) fun _ => .ite (.bind h.type fun _ => .pure _)
      (.bind (.commaSeparated .identifier) fun _ => .bind h.type fun _ => .pure _)
  · exact .refuse _

theorem structType (h : ForwardGrammar g) : Forward (Parse.structType g) :=
  .bind (.expectSymbol _) fun _ => .bind (.statementsClosed _ h.structField) fun _ => .pure _

theorem embeddedInterface (h : ForwardGrammar g) : Forward (Parse.embeddedInterface g) := by
  refine .bind (.accept _) fun _ => .bind h.type fun _ => .bind (.collect ?_) fun _ => .pure _
  exact .bind (.accept _) fun _ => .ite (.bind (.accept _) fun _ => .bind h.type fun _ => .pure _)
    (.pure _)

theorem method (h : ForwardGrammar g) : Forward (Parse.method g) :=
  .bind .identifier fun _ => .bind h.signature fun _ => .pure _

theorem interfaceElement (h : ForwardGrammar g) : Forward (Parse.interfaceElement g) :=
  .bind .kind fun _ => .bind (.kindAt 1) fun _ => .ite h.method h.embeddedInterface

theorem interfaceType (h : ForwardGrammar g) : Forward (Parse.interfaceType g) :=
  .bind (.expectSymbol _) fun _ => .bind (.statementsClosed _ h.interfaceElement) fun _ => .pure _

theorem typeName (name : String) : Forward (Parse.typeName name) :=
  .bind (.accept _) fun _ => .ite (.bind .identifier fun _ => .pure _) (.pure _)

theorem parenType (h : ForwardGrammar g) : Forward (Parse.parenType g) :=
  .bind h.type fun _ => .bind (.expectSymbol _) fun _ => .pure _

theorem typeExpr (h : ForwardGrammar g) : Forward (Parse.typeExpr g) := by
  refine .bind .current fun t => ?_
  split
  · exact .bind .skip fun _ => typeName _
  · exact .bind .skip fun _ => h.bracketType
  · exact .bind .skip fun _ => h.mapType
  · exact .bind .skip fun _ => h.channelType
  · exact .bind .skip fun _ => h.receiveType
  · exact .bind .skip fun _ => h.structType
  · exact .bind .skip fun _ => h.interfaceType
  · exact .bind .skip fun _ => .bind h.signature fun _ => .pure _
  · exact .bind .skip fun _ => .bind h.type fun _ => .pure _
  · exact .bind .skip fun _ => h.parenType
  · exact .refuse _

theorem keyedElement (h : ForwardGrammar g) : Forward (Parse.keyedElement g) :=
  .bind h.element fun _ => .bind (.accept _) fun _ => .ite (.bind h.element fun _ => .pure _)
    (.pure _)

theorem composite (h : ForwardGrammar g) (type : Option TypeExpr) :
    Forward (Parse.composite g type) :=
  .bind (.expectSymbol _) fun _ => .bind (.withLiterals (.commaClosed _ h.keyedElement)) fun _ =>
    .pure _

theorem argument (h : ForwardGrammar g) : Forward (Parse.argument g) :=
  .bind (h.binary 1) fun _ => .bind (.accept _) fun _ => .pure _

theorem selector (base : Expr) : Forward (Parse.selector base) := by
  refine .bind .current fun t => ?_
  split
  · exact .bind .skip fun _ => .pure _
  · exact .fail _
  · exact .refuse _

theorem index (h : ForwardGrammar g) (base : Expr) : Forward (Parse.index g base) :=
  .bind (.withLiterals (h.binary 1)) fun _ => .bind (.isAt _) fun _ => .ite (.fail _)
    (.bind (.expectSymbol _) fun _ => .pure _)

theorem call (h : ForwardGrammar g) (callee : Expr) : Forward (Parse.call g callee) :=
  .bind (.withLiterals (.commaClosed _ h.argument)) fun _ => .pure _

theorem suffix (h : ForwardGrammar g) (x : Expr) : Forward (Parse.suffix g x) := by
  refine .bind .kind fun k => ?_
  split
  · exact .bind .skip fun _ => .bind (selector x) fun _ => .pure _
  · exact .bind .skip fun _ => .bind (h.index x) fun _ => .pure _
  · exact .bind .skip fun _ => .bind (h.call x) fun _ => .pure _
  · split
    · exact .bind .literalsAllowed fun _ => .ite (.pure _) (.bind (h.composite _) fun _ => .pure _)
    · exact .pure _
  · exact .pure _

theorem functionOperand (h : ForwardGrammar g) : Forward (Parse.functionOperand g) :=
  .bind h.signature fun _ => .bind (.isAt _) fun _ => .ite (.bind h.block fun _ => .pure _)
    (.pure _)

theorem parenOperand (h : ForwardGrammar g) : Forward (Parse.parenOperand g) :=
  .bind (.withLiterals (h.binary 1)) fun _ => .bind (.expectSymbol _) fun _ => .pure _

theorem operand (h : ForwardGrammar g) : Forward (Parse.operand g) := by
  refine .bind .current fun t => ?_
  split
  · exact .bind .skip fun _ => .pure _
  · exact .bind .skip fun _ => .pure _
  · exact .bind .skip fun _ => h.parenOperand
  · exact .bind .skip fun _ => h.functionOperand
  · exact .ite (.bind h.typeExpr fun _ => .pure _) (.refuse _)

theorem primary (h : ForwardGrammar g) : Forward (Parse.primary g) :=
  .bind h.operand fun _ => .iterate h.suffix _

theorem unaryOp? : Forward Parse.unaryOp? := by
  refine .bind .kind fun k => ?_
  split
  · exact .bind (.kindAt 1) fun _ => .ite (.pure _) (.pure _)
  · exact .pure _
  · exact .pure _

theorem unary_above (h : ForwardGrammar g) : Forward (Parse.unary g) := by
  refine .bind unaryOp? fun op => ?_
  split
  · exact .bind .skip fun _ => .bind h.unary fun _ => .pure _
  · exact h.primary

theorem binaryOp? : Forward Parse.binaryOp? := by
  refine .bind .kind fun k => ?_
  split
  · exact .pure _
  · exact .pure _

theorem binaryStep (h : ForwardGrammar g) (least : Nat) (lhs : Expr) :
    Forward (Parse.binaryStep g least lhs) := by
  refine .bind binaryOp? fun op => ?_
  split
  · exact .ite (.pure _) (.bind .skip fun _ => .bind (h.binary _) fun _ => .pure _)
  · exact .pure _

theorem binary_above (h : ForwardGrammar g) (least : Nat) : Forward (Parse.binary g least) :=
  .bind h.unary_above fun _ => .iterate (h.binaryStep least) _

theorem exprs (h : ForwardGrammar g) : Forward (Parse.exprs g) :=
  .commaSeparated (h.binary_above 1)

theorem element_above (h : ForwardGrammar g) : Forward (Parse.element g) :=
  .bind (.isAt _) fun _ => .ite (h.composite none) (h.binary_above 1)

theorem specs {α : Type} {spec : Parse α} (h : Forward spec) : Forward (Parse.specs spec) :=
  .bind (.accept _) fun _ => .ite (.statementsClosed _ h) (.bind h fun _ => .pure _)

theorem valueSpec (h : ForwardGrammar g) : Forward (Parse.valueSpec g) := by
  refine .bind (.commaSeparated .identifier) fun names => .bind .kind fun k => ?_
  have hvalues : ∀ type : Option TypeExpr, Forward (do
      let values ← if ← Parse.accept Symbol.assign then Parse.exprs g else Pure.pure []
      return ValueSpec.mk names type values) :=
    fun type => .bind (.accept _) fun _ => .ite (.bind h.exprs fun _ => .pure _)
      (.bind (.pure _) fun _ => .pure _)
  exact .ite (.bind (.pure _) hvalues) (.bind (.map h.type) hvalues)

theorem looksGeneric : Forward Parse.looksGeneric :=
  .bind (.isAt _) fun _ => .bind (.kindAt 1) fun _ => .bind (.kindAt 2) fun _ => .pure _

theorem typeSpec (h : ForwardGrammar g) : Forward (Parse.typeSpec g) :=
  .bind .identifier fun _ => .bind looksGeneric fun _ => .ite (.fail _) <|
    .bind (.accept _) fun _ => .bind h.type fun _ => .pure _

theorem localDecl (h : ForwardGrammar g) : Forward (Parse.localDecl g) := by
  refine .bind .kind fun k => ?_
  split
  · exact .bind .skip fun _ => .bind (specs h.valueSpec) fun _ => .pure _
  · exact .bind .skip fun _ => .bind (specs h.valueSpec) fun _ => .pure _
  · exact .bind .skip fun _ => .bind (specs h.typeSpec) fun _ => .pure _
  · exact .refuse _

theorem single (fault : SyntaxFault) (es : List Expr) : Forward (Parse.single fault es) := by
  unfold Parse.single
  split
  · exact .pure _
  · exact .fail _

theorem simpleFrom (h : ForwardGrammar g) (lhs : List Expr) :
    Forward (Parse.simpleFrom g lhs) := by
  refine .bind .kind fun k => ?_
  split
  · exact .bind .skip fun _ => .bind h.exprs fun _ => .pure _
  · exact .bind .skip fun _ => .bind h.exprs fun _ => .pure _
  · exact .bind .skip fun _ => .bind (single _ lhs) fun _ => .pure _
  · exact .bind .skip fun _ => .bind (single _ lhs) fun _ => .pure _
  · exact .bind .skip fun _ => .bind (single _ lhs) fun _ => .bind (h.binary_above 1) fun _ =>
      .pure _
  · split
    · exact .fail _
    · split
      · exact .bind .skip fun _ => .bind (h.binary_above 1) fun _ => .pure _
      · split
        · exact .pure _
        · exact .refuse _

theorem simple (h : ForwardGrammar g) : Forward (Parse.simple g) :=
  .bind h.exprs fun _ => h.simpleFrom _

theorem condition (s : Stmt) : Forward (Parse.condition s) := by
  unfold Parse.condition
  split
  · exact .pure _
  · exact .fail _

theorem rangeOver (h : ForwardGrammar g) (define : Bool) (vars : List Expr) :
    Forward (Parse.rangeOver g define vars) := by
  unfold Parse.rangeOver
  split
  · exact .fail _
  · exact .bind (h.binary_above 1) fun _ => .pure _

theorem loopClauses (h : ForwardGrammar g) (init : Option Stmt) :
    Forward (Parse.loopClauses g init) := by
  have hpost : ∀ condition : Option Expr, Forward (do
      Parse.expectSymbol .semicolon
      let post ← if ← Parse.isAt Symbol.braceOpen then Pure.pure none else some <$> Parse.simple g
      return Header.loop init condition post) :=
    fun condition => .bind (.expectSymbol _) fun _ => .bind (.isAt _) fun _ =>
      .ite (.bind (.pure _) fun _ => .pure _) (.bind (.map h.simple) fun _ => .pure _)
  exact .bind (.isAt _) fun _ => .ite (.bind (.pure _) hpost)
    (.bind (.map (h.binary_above 1)) hpost)

theorem statementHeader (h : ForwardGrammar g) : Forward (Parse.statementHeader g) :=
  .bind h.exprs fun _ => .bind .kind fun _ => .bind (.kindAt 1) fun _ =>
    .ite (.bind .skip fun _ => .bind .skip fun _ => h.rangeOver _ _) <|
      .bind (h.simpleFrom _) fun _ => .bind (.accept _) fun _ => .ite (h.loopClauses _)
        (.bind (condition _) fun _ => .pure _)

theorem header (h : ForwardGrammar g) : Forward (Parse.header g) :=
  .bind (.accept _) fun _ => .ite (.bind (h.binary_above 1) fun _ => .pure _) <|
    .bind (.accept _) fun _ => .ite (h.loopClauses none) h.statementHeader

theorem forStatement (h : ForwardGrammar g) : Forward (Parse.forStatement g) :=
  .bind (.isAt _) fun _ => .ite (.bind h.block fun _ => .pure _) <|
    .bind (.withLiterals h.header) fun _ => .bind h.block fun _ => .pure _

theorem ifHeader (h : ForwardGrammar g) : Forward (Parse.ifHeader g) :=
  .bind h.simple fun _ => .bind (.accept _) fun _ =>
    .ite (.bind (h.binary_above 1) fun _ => .pure _) (.bind (condition _) fun _ => .pure _)

theorem elseBody (h : ForwardGrammar g) : Forward (Parse.elseBody g) := by
  refine .bind .kind fun k => ?_
  split
  · exact h.statement
  · exact .bind h.block fun _ => .pure _
  · exact .refuse _

theorem ifStatement (h : ForwardGrammar g) : Forward (Parse.ifStatement g) := by
  refine .bind (.withLiterals h.ifHeader) ?_
  rintro ⟨init, condition⟩
  refine .bind h.block fun body => .bind (.accept _) fun _ => .ite ?_ ?_
  · exact .bind (.map h.elseBody) fun _ => .pure _
  · exact .bind (.pure _) fun _ => .pure _

theorem clauseStep (h : ForwardGrammar g) : Forward (Parse.clauseStep g) := by
  refine .bind .skipSemicolons fun _ => .bind .kind fun _ => .ite (.pure _) ?_
  refine .bind h.statement fun stmt => .bind .kind fun k => ?_
  split
  · exact .pure _
  · exact .pure _
  · exact .bind .statementEnd fun _ => .pure _

theorem clauseBody (h : ForwardGrammar g) (comm : Option Stmt) :
    Forward (Parse.clauseBody g comm) :=
  .bind (.expectSymbol _) fun _ => .bind (.collect h.clauseStep) fun _ => .pure _

theorem commClause (h : ForwardGrammar g) : Forward (Parse.commClause g) := by
  refine .bind .skipSemicolons fun _ => .bind .kind fun k => ?_
  split
  · exact .bind .skip fun _ => .pure _
  · exact .bind .skip fun _ => .bind h.simple fun _ => h.clauseBody _
  · exact .bind .skip fun _ => h.clauseBody none
  · exact .refuse _

theorem selectStatement (h : ForwardGrammar g) : Forward (Parse.selectStatement g) :=
  .bind (.expectSymbol _) fun _ => .bind (.withLiterals (.collect h.commClause)) fun _ => .pure _

theorem returnStatement (h : ForwardGrammar g) : Forward (Parse.returnStatement g) :=
  .bind .kind fun _ => .ite (.pure _) (.bind h.exprs fun _ => .pure _)

theorem jumpStatement (jump : Jump) : Forward (Parse.jumpStatement jump) :=
  .bind (.accept _) fun _ => .pure _

theorem block_above (h : ForwardGrammar g) : Forward (Parse.block g) :=
  .bind (.expectSymbol _) fun _ => .withLiterals (.statementsClosed _
    (.bind (.isAt _) fun _ => .ite (.refuse _) h.statement))

theorem statement_above (h : ForwardGrammar g) : Forward (Parse.statement g) := by
  refine .bind .current fun t => ?_
  split
  · exact .bind .skip fun _ => h.returnStatement
  · exact .bind .skip fun _ => h.ifStatement
  · exact .bind .skip fun _ => h.forStatement
  · exact .bind .skip fun _ => h.selectStatement
  · exact .bind .skip fun _ => .bind (h.binary_above 1) fun _ => .pure _
  · exact .bind .skip fun _ => jumpStatement _
  · exact .bind .skip fun _ => jumpStatement _
  · exact .bind h.block_above fun _ => .pure _
  · exact .pure _
  · exact .ite (.bind h.localDecl fun _ => .pure _) (.ite (.fail _) h.simple)
  · exact h.simple

end ForwardGrammar

theorem forward_ofDepth (d : Nat) : ForwardGrammar (.ofDepth d) := by
  induction d with
  | zero => exact ⟨fun _ => .fail _, .fail _, .fail _, .fail _, .fail _, .fail _⟩
  | succ d ih =>
    exact ⟨ih.binary_above, ih.unary_above, ih.element_above, ih.typeExpr, ih.block_above,
      ih.statement_above⟩

/-- A type is read in the same way wherever the same tokens are ahead. -/
theorem forward_typeExpression : Forward typeExpression :=
  fun base s => (forward_ofDepth (s.rest.length + 1)).typeExpr base s

end Parse

end BoundedGo
