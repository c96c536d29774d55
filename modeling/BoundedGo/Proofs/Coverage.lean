import BoundedGo.Proofs.Clearing

/-!
No forbidden construct gets lost between the tokens and the tree. What a grammar drops, such as
parentheses, tags, labels and the later members of a union, is either clean or part of something
forbidden; so a tree without forbidden constructs has been read from clean tokens. Every production
clears if the nested grammar does, and the rules for parsers in a row leave to show how the
features of a value hold those of its parts.
Main statement: the tokens of a source whose file is valid hold no forbidden word and no empty
brackets (`tokens_of_valid`).
-/
namespace BoundedGo

section Features

@[simp] theorem Expr.featuresOf_eq_nil_iff (es : List Expr) :
    Expr.featuresOf es = [] ↔ ∀ e ∈ es, e.features = [] := by
  induction es <;> simp_all [Expr.featuresOf]

@[simp] theorem Stmt.featuresOf_eq_nil_iff (ss : List Stmt) :
    Stmt.featuresOf ss = [] ↔ ∀ s ∈ ss, s.features = [] := by
  induction ss <;> simp_all [Stmt.featuresOf]

@[simp] theorem Field.features_eq_type (f : Field) : f.features = f.type.features := by
  obtain ⟨names, type⟩ := f
  rw [Field.features]

@[simp] theorem Field.featuresOf_eq_nil_iff (fs : List Field) :
    Field.featuresOf fs = [] ↔ ∀ f ∈ fs, f.type.features = [] := by
  induction fs with
  | nil => simp [Field.featuresOf]
  | cons f fs ih =>
    simp [Field.featuresOf, ih]

@[simp] theorem ValueSpec.featuresOf_eq_nil_iff (specs : List ValueSpec) :
    ValueSpec.featuresOf specs = [] ↔ ∀ s ∈ specs, s.features = [] := by
  induction specs <;> simp_all [ValueSpec.featuresOf]

@[simp] theorem TypeSpec.featuresOf_eq_nil_iff (specs : List TypeSpec) :
    TypeSpec.featuresOf specs = [] ↔ ∀ s ∈ specs, s.type.features = [] := by
  induction specs with
  | nil => simp [TypeSpec.featuresOf]
  | cons s specs ih =>
    obtain ⟨name, isAlias, type⟩ := s
    simp [TypeSpec.featuresOf, TypeSpec.features, ih]

/-- Only names are dropped when the entries of a parameter list become fields. -/
theorem Param.features_of_group {waiting : List String} {ps : List Param} {fields : List Field}
    (h : group waiting ps = some fields) (hfields : ∀ f ∈ fields, f.type.features = []) :
    ∀ p ∈ ps, p.type.features = [] := by
  induction waiting, ps using group.induct generalizing fields with
  | case1 => exact nofun
  | case2 => cases h
  | case3 waiting name ps ih =>
    rw [group] at h
    exact List.forall_mem_cons.mpr ⟨rfl, ih h hfields⟩
  | case4 waiting type ps hname =>
    rw [group] at h
    · cases h
    · exact hname
  | case5 waiting name type ps rest hrest ih =>
    rw [group, hrest] at h
    obtain rfl := Option.some.inj h
    obtain ⟨htype, hfields⟩ := List.forall_mem_cons.mp hfields
    exact List.forall_mem_cons.mpr ⟨htype, ih hrest hfields⟩
  | case6 waiting name type ps hrest =>
    rw [group, hrest] at h
    cases h

theorem Param.features_of_fields? {ps : List Param} {fields : List Field}
    (h : fields? ps = some fields) (hfields : ∀ f ∈ fields, f.type.features = []) :
    ∀ p ∈ ps, p.type.features = [] := by
  unfold fields? at h
  split at h
  · exact features_of_group h hfields
  · obtain rfl := Option.some.inj h
    simpa using hfields

theorem Parse.features_of_literalType {x : Expr} {type : TypeExpr} {isName : Bool}
    (h : literalType x = some (type, isName)) (htype : type.features = []) : x.features = [] := by
  unfold literalType at h
  split at h <;> simp_all [Expr.features]

end Features

namespace Parse

open Grammar

/-- A grammar whose productions clear. -/
structure ClearGrammar (g : Grammar) : Prop where
  binary : ∀ least, Clears (g.binary least) (·.features = []) True
  unary : Clears g.unary (·.features = []) True
  element : Clears g.element (·.features = []) True
  type : Clears g.type (·.features = []) True
  block : Clears g.block (∀ s ∈ ·, s.features = []) True
  statement : Clears g.statement (·.features = []) True
  starts : ∀ (least : Nat) (r : List Token),
    Ensures (g.binary least) r fun _ _ => headKind r ≠ .symbol .bracketClose

namespace ClearGrammar

variable {g : Grammar}

theorem param (h : ClearGrammar g) : Clears (Parse.param g) (·.type.features = []) True := by
  refine .accept_bind rfl (.bind h.type fun type => .pure nofun) ?_
  refine .bind h.type fun first => .kind_bind fun k => .of ?_
  split
  · exact .pure fun hf => ⟨hf, trivial⟩
  · exact .pure fun hf => ⟨hf, trivial⟩
  · split
    · refine .accept_bind rfl (.bind h.type fun type => .pure nofun) ?_
      exact .bind h.type fun type => .pure fun hf => ⟨hf, rfl, trivial⟩
    · exact .fail _

theorem params (h : ClearGrammar g) :
    Clears (Parse.params g) (∀ f ∈ ·, f.type.features = []) True := by
  refine .bind (.expectSymbol nofun) fun _ => .bind (.commaClosed nofun h.param) fun entries => ?_
  split
  · rename_i fields hfields
    exact .pure fun hf => ⟨Param.features_of_fields? hfields hf, trivial, trivial⟩
  · exact .fail _

theorem results (h : ClearGrammar g) :
    Clears (Parse.results g) (∀ f ∈ ·, f.type.features = []) True := by
  refine .kind_bind fun k => .of ?_
  split
  · exact h.params
  · split
    · exact .bind h.type fun type => .pure fun hf => ⟨hf _ List.mem_cons_self, trivial⟩
    · exact .pure fun _ => trivial

theorem signature (h : ClearGrammar g) : Clears (Parse.signature g) (·.features = []) True :=
  .bind h.params fun params => .bind h.results fun results => .pure fun hf => by
    simp_all [FunctionType.features]

theorem bracketType (h : ClearGrammar g) : Clears (Parse.bracketType g) (·.features = []) True := by
  refine .accept_bind rfl (.bind h.type fun type => .pure nofun) ?_
  refine .isAt_bind (.of (.fail _)) (.bind (.withLiterals (h.binary 1)) fun length => ?_)
  refine .bind (.expectSymbol nofun) fun _ => .bind h.type fun element => .pure fun hf => ?_
  simp_all [TypeExpr.features]

/-- Empty brackets are those of a slice. -/
theorem bracketType_closed {r : List Token} (hr : headKind r = .symbol .bracketClose) :
    Ensures (Parse.bracketType g) r fun type _ => ¬ type.features = [] :=
  .accept_bind (fun _ => .bind_any fun _ _ => .pure nofun) fun hne => absurd hr hne

theorem mapType_forbidden (r : List Token) :
    Ensures (Parse.mapType g) r fun type _ => ¬ type.features = [] :=
  .bind_any fun _ _ => .bind_any fun _ _ => .bind_any fun _ _ => .bind_any fun _ _ => .pure nofun

theorem channelType_forbidden (r : List Token) :
    Ensures (Parse.channelType g) r fun type _ => ¬ type.features = [] :=
  .bind_any fun _ _ => .bind_any fun _ _ => .pure nofun

theorem receiveType_forbidden (r : List Token) :
    Ensures (Parse.receiveType g) r fun type _ => ¬ type.features = [] :=
  .bind_any fun _ _ => .bind_any fun _ _ => .pure nofun

theorem interfaceType_forbidden (r : List Token) :
    Ensures (Parse.interfaceType g) r fun type _ => ¬ type.features = [] :=
  .bind_any fun _ _ => .bind_any fun _ _ => .pure nofun

theorem embeddedField (h : ClearGrammar g) :
    Clears (Parse.embeddedField g) (·.type.features = []) True :=
  .bind h.type fun _ => .pure fun hf => ⟨hf, trivial⟩

theorem namedField (h : ClearGrammar g) : Clears (Parse.namedField g) (·.type.features = []) True :=
  .bind (.commaSeparated .identifier) fun _ => .bind h.type fun _ => .pure fun hf =>
    ⟨hf, fun _ _ => trivial, trivial⟩

theorem untaggedField (h : ClearGrammar g) :
    Clears (Parse.untaggedField g) (·.type.features = []) True := by
  refine .kind_bind fun k => .of ?_
  split
  · exact h.embeddedField
  · refine .kindAt_bind fun k => ?_
    split
    · exact h.embeddedField
    · exact h.namedField
  · exact .refuse _

theorem structField (h : ClearGrammar g) :
    Clears (Parse.structField g) (·.type.features = []) True :=
  .bind h.untaggedField fun _ => .accept_bind rfl (.pure fun hf => ⟨hf, trivial⟩)
    (.pure fun hf => ⟨hf, trivial⟩)

theorem structType (h : ClearGrammar g) : Clears (Parse.structType g) (·.features = []) True := by
  refine .bind (.expectSymbol nofun) fun _ => .bind (.statementsClosed nofun h.structField) ?_
  intro fields
  exact .pure fun hf => by simp_all [TypeExpr.features]

theorem typeName (name : String) : Clears (Parse.typeName name) (·.features = []) True :=
  .accept_bind rfl (.bind .identifier fun _ => .pure fun _ => ⟨trivial, trivial⟩)
    (.pure fun _ => trivial)

theorem parenType (h : ClearGrammar g) : Clears (Parse.parenType g) (·.features = []) True :=
  .bind h.type fun _ => .bind (.expectSymbol nofun) fun _ => .pure fun hf =>
    ⟨trivial, hf, trivial⟩

theorem typeExpr (h : ClearGrammar g) : Clears (Parse.typeExpr g) (·.features = []) True := by
  refine .current_bind fun t => ?_
  generalize t.kind = k
  -- Maps, channels and interfaces are forbidden whatever is read behind their first token.
  split
  · exact .skip_bind rfl (typeName _)
  · exact .skip_bracket_bind h.bracketType fun r hr => bracketType_closed hr
  · exact .forbidden fun r => .bind_any fun _ _ => mapType_forbidden _
  · exact .forbidden fun r => .bind_any fun _ _ => channelType_forbidden _
  · exact .forbidden fun r => .bind_any fun _ _ => receiveType_forbidden _
  · exact .skip_bind rfl h.structType
  · exact .forbidden fun r => .bind_any fun _ _ => interfaceType_forbidden _
  · exact .skip_bind rfl (.bind h.signature fun type => .pure fun hf => ⟨hf, trivial⟩)
  · exact .skip_bind rfl (.bind h.type fun type => .pure fun hf => ⟨hf, trivial⟩)
  · exact .skip_bind rfl h.parenType
  · exact .of (.refuse _)

theorem keyedElement (h : ClearGrammar g) :
    Clears (Parse.keyedElement g) (·.features = []) True := by
  refine .bind h.element fun first => .accept_bind rfl (.bind h.element fun value => ?_) ?_
  · exact .pure fun hf => by simp_all [Expr.features]
  · exact .pure fun hf => ⟨hf, trivial⟩

theorem composite (h : ClearGrammar g) (type : Option TypeExpr) :
    Clears (Parse.composite g type) (·.features = []) (∀ t ∈ type, t.features = []) := by
  refine .bind (.expectSymbol nofun) fun _ => .bind (.withLiterals (.commaClosed nofun
    h.keyedElement)) fun elements => .pure fun hf => ?_
  cases type <;> simp_all [Expr.features]

theorem argument (h : ClearGrammar g) : Clears (Parse.argument g) (·.features = []) True :=
  .bind (h.binary 1) fun _ => .accept_bind rfl (.pure fun hf => ⟨hf, trivial⟩)
    (.pure fun hf => ⟨hf, trivial⟩)

theorem selector (x : Expr) : Clears (Parse.selector x) (·.features = []) (x.features = []) := by
  refine .current_bind fun t => ?_
  generalize t.kind = k
  split
  · exact .skip_bind rfl (.pure fun hf => hf)
  · exact .of (.fail _)
  · exact .of (.refuse _)

theorem index (h : ClearGrammar g) (x : Expr) :
    Clears (Parse.index g x) (·.features = []) (x.features = []) := by
  refine .bind (.withLiterals (h.binary 1)) fun place => .isAt_bind (.of (.fail _)) ?_
  exact .bind (.expectSymbol nofun) fun _ => .pure fun hf => by simp_all [Expr.features]

/-- No index is read from empty brackets. -/
theorem index_closed (h : ClearGrammar g) (x : Expr) {r : List Token}
    (hr : headKind r = .symbol .bracketClose) :
    Ensures (Parse.index g x) r fun e _ => ¬ e.features = [] :=
  .bind (.withLiterals ((h.starts 1 r).mono fun _ _ hne => absurd hr hne))

theorem call (h : ClearGrammar g) (x : Expr) :
    Clears (Parse.call g x) (·.features = []) (x.features = []) :=
  .bind (.withLiterals (.commaClosed nofun h.argument)) fun arguments => .pure fun hf => by
    simp_all [Expr.features]

theorem suffix (h : ClearGrammar g) (x : Expr) :
    Clears (Parse.suffix g x) (fun o => (o.getD x).features = []) (x.features = []) := by
  have hsome : ∀ {p : Parse Expr}, Clears p (·.features = []) (x.features = []) →
      Clears (do return some (← p)) (fun o => (o.getD x).features = []) (x.features = []) :=
    fun hp r => .bind ((hp r).mono fun y r' hy => .pure hy)
  refine .kind_bind fun k => ?_
  split
  · exact .skip_bind rfl (hsome (selector x))
  · refine .skip_bracket_bind (hsome (h.index x)) fun r hr => ?_
    exact .bind ((h.index_closed x hr).mono fun y r' hy => .pure hy)
  · exact .skip_bind rfl (hsome (h.call x))
  · -- The operand is dropped in favour of the type that it names.
    split
    · rename_i type isName htype
      refine .of (.literalsAllowed_bind fun allowed => ?_)
      split
      · exact .pure fun hf => hf
      · refine hsome ((h.composite (some type)).imp fun hf => ?_)
        exact features_of_literalType htype (hf type rfl)
    · exact .of (.pure fun hf => hf)
  · exact .of (.pure fun hf => hf)

theorem functionOperand (h : ClearGrammar g) :
    Clears (Parse.functionOperand g) (·.features = []) True := by
  refine .bind h.signature fun type => .isAt_bind (.of (.bind h.block fun body => ?_)) ?_
  · exact .pure fun hf => by simp_all [Expr.features]
  · exact .pure fun hf => ⟨hf, trivial⟩

theorem parenOperand (h : ClearGrammar g) : Clears (Parse.parenOperand g) (·.features = []) True :=
  .bind (.withLiterals (h.binary 1)) fun _ => .bind (.expectSymbol nofun) fun _ =>
    .pure fun hf => ⟨trivial, hf, trivial⟩

theorem operand (h : ClearGrammar g) : Clears (Parse.operand g) (·.features = []) True := by
  refine .current_bind fun t => ?_
  generalize t.kind = k
  split
  · exact .skip_bind rfl (.pure fun _ => trivial)
  · exact .skip_bind rfl (.pure fun _ => trivial)
  · exact .skip_bind rfl h.parenOperand
  · exact .skip_bind rfl h.functionOperand
  · split
    · exact .of (.bind h.typeExpr fun type => .pure fun hf => ⟨hf, trivial⟩)
    · exact .of (.refuse _)

theorem primary (h : ClearGrammar g) : Clears (Parse.primary g) (·.features = []) True :=
  .bind h.operand fun x => (Clears.iterate h.suffix x).imp fun hf => ⟨hf, trivial⟩

theorem unary_above (h : ClearGrammar g) : Clears (Parse.unary g) (·.features = []) True := by
  -- Which token is skipped shows only in the look at it, so the rules for kinds do not apply.
  refine fun r => .bind (Ensures.unaryOp?.mono ?_)
  rintro (_ | op) _ ⟨rfl, hop⟩
  · exact h.primary _
  · refine ClearsAt.skip_bind ?_ (.bind h.unary fun x => .pure fun hf => ?_) _ (hop op rfl)
    · cases op <;> rfl
    · exact ⟨hf, trivial⟩

theorem binaryStep (h : ClearGrammar g) (least : Nat) (x : Expr) :
    Clears (Parse.binaryStep g least x) (fun o => (o.getD x).features = []) (x.features = []) := by
  refine fun r => .bind (Ensures.binaryOp?.mono ?_)
  rintro (_ | op) _ ⟨rfl, hop⟩
  · exact Clears.pure (fun hf => hf) _
  · dsimp only
    split
    · exact Clears.pure (fun hf => hf) _
    · refine ClearsAt.skip_bind ?_ (.bind (h.binary _) fun y => .pure fun hf => ?_) _
        ((hop op).mp rfl)
      · cases op <;> rfl
      · simp_all [Expr.features]

theorem binary_above (h : ClearGrammar g) (least : Nat) :
    Clears (Parse.binary g least) (·.features = []) True :=
  .bind h.unary_above fun x => (Clears.iterate (h.binaryStep least) x).imp fun hf => ⟨hf, trivial⟩

theorem exprs (h : ClearGrammar g) : Clears (Parse.exprs g) (∀ e ∈ ·, e.features = []) True :=
  .commaSeparated (h.binary_above 1)

theorem element_above (h : ClearGrammar g) : Clears (Parse.element g) (·.features = []) True :=
  .isAt_bind (.of ((h.composite none).imp fun _ => trivial)) (h.binary_above 1)

end ClearGrammar

/-- No expression begins with a closing bracket. -/
theorem binary_starts {g : Grammar} {least : Nat} {r : List Token} :
    Ensures (binary g least) r fun _ _ => headKind r ≠ .symbol .bracketClose := by
  -- A closing bracket is no operator in front, and no operand begins with it.
  by_cases hclose : headKind r = .symbol .bracketClose
  · have hoperand : Ensures (operand g) r fun _ _ => False := by
      refine .current_bind fun t ht _ => ?_
      rw [ht, hclose]
      exact .refuse _
    refine .bind (.bind (Ensures.unaryOp?.mono ?_))
    rintro (_ | op) _ ⟨rfl, hop⟩
    · exact .bind (hoperand.mono nofun)
    · have hop := hclose.symm.trans (hop op rfl)
      cases op <;> cases hop
  · exact fun _ _ _ _ _ => hclose

namespace ClearGrammar

variable {g : Grammar}

theorem single (fault : SyntaxFault) (lhs : List Expr) :
    Clears (Parse.single fault lhs) (·.features = []) (∀ e ∈ lhs, e.features = []) := by
  unfold Parse.single
  split
  · exact .pure fun hf => List.forall_mem_singleton.mpr hf
  · exact .fail _

theorem plain_of_ofAssignment? {k : TokenKind} {op : BinaryOp}
    (h : (match k with | .symbol s => BinaryOp.ofAssignment? s | _ => none) = some op) :
    k.isPlain := by
  cases k with
  | symbol s =>
    refine decide_eq_true ?_
    rintro rfl
    cases h
  | _ => cases h

theorem simpleFrom (h : ClearGrammar g) (lhs : List Expr) :
    Clears (Parse.simpleFrom g lhs) (·.features = []) (∀ e ∈ lhs, e.features = []) := by
  refine .kind_bind fun k => ?_
  split
  · refine .skip_bind rfl (.bind h.exprs fun rhs => .pure fun hf => ?_)
    simp_all [Stmt.features]
  · refine .skip_bind rfl (.bind h.exprs fun rhs => .pure fun hf => ?_)
    simp_all [Stmt.features]
  · exact .skip_bind rfl (.bind_back (single _ lhs) fun x => .pure fun hf => hf)
  · exact .skip_bind rfl (.bind_back (single _ lhs) fun x => .pure fun hf => hf)
  · exact .forbidden fun r => .bind_any fun _ _ => .bind_any fun _ _ => .bind_any fun _ _ =>
      .pure fun hf => absurd hf (List.cons_ne_nil _ _)
  · split
    · exact .of (.fail _)
    · split
      · rename_i hop
        refine .skip_bind (plain_of_ofAssignment? hop) (.bind (h.binary_above 1) fun rhs => ?_)
        exact .pure fun hf => by simp_all [Stmt.features]
      · split
        · exact .of (.pure fun hf => List.forall_mem_singleton.mpr hf)
        · exact .of (.refuse _)

theorem simple (h : ClearGrammar g) : Clears (Parse.simple g) (·.features = []) True :=
  .bind h.exprs fun lhs => (h.simpleFrom lhs).imp fun hf => ⟨hf, trivial⟩

theorem condition (s : Stmt) : Clears (Parse.condition s) (·.features = []) (s.features = []) := by
  unfold Parse.condition
  split
  · exact .pure fun hf => hf
  · exact .fail _

theorem forStatement_forbidden (r : List Token) :
    Ensures (Parse.forStatement g) r fun s _ => ¬ s.features = [] := by
  refine .bind_any fun atBrace r => ?_
  split
  · exact .bind_any fun _ _ => .pure nofun
  · refine .bind_any fun header r => .bind_any fun body r => .pure ?_
    cases header <;> nofun

theorem ifHeader (h : ClearGrammar g) :
    Clears (Parse.ifHeader g) (fun x => (∀ s ∈ x.1, s.features = []) ∧ x.2.features = []) True := by
  refine .bind h.simple fun first => .accept_bind rfl (.bind (h.binary_above 1) fun e => ?_) ?_
  · exact .pure fun hf => ⟨hf.2, hf.1 first rfl, trivial⟩
  · refine .bind_back ((condition first).imp fun hf => ⟨hf, trivial⟩) fun e => .pure fun hf => hf.2

theorem elseBody (h : ClearGrammar g) : Clears (Parse.elseBody g) (·.features = []) True := by
  refine .kind_bind fun k => .of ?_
  split
  · exact h.statement
  · exact .bind h.block fun body => .pure fun hf => by simp_all [Stmt.features]
  · exact .refuse _

theorem ifStatement (h : ClearGrammar g) : Clears (Parse.ifStatement g) (·.features = []) True := by
  refine .bind (.withLiterals h.ifHeader) ?_
  rintro ⟨init, condition⟩
  refine .bind h.block fun body => ?_
  have hend : ∀ orElse, Clears (pure (Stmt.if_ init condition body orElse)) (·.features = [])
      ((∀ s ∈ orElse, s.features = []) ∧ (∀ s ∈ body, s.features = []) ∧
        ((∀ s ∈ init, s.features = []) ∧ condition.features = []) ∧ True) := by
    refine fun orElse => .pure fun hf => ?_
    cases init <;> cases orElse <;> simp_all [Stmt.features]
  exact .accept_bind rfl (.bind (.some_map h.elseBody) hend) (.bind (.pure fun _ => trivial) hend)

theorem returnStatement (h : ClearGrammar g) :
    Clears (Parse.returnStatement g) (·.features = []) True := by
  refine .kind_bind fun k => .of ?_
  split
  · exact .pure fun _ => trivial
  · exact .bind h.exprs fun values => .pure fun hf => by simp_all [Stmt.features]

theorem jumpStatement (jump : Jump) : Clears (Parse.jumpStatement jump) (·.features = []) True :=
  .accept_bind rfl (.pure fun _ => trivial) (.pure fun _ => trivial)

theorem block_above (h : ClearGrammar g) :
    Clears (Parse.block g) (∀ s ∈ ·, s.features = []) True := by
  refine .bind (.expectSymbol nofun) fun _ => .withLiterals ?_
  refine Clears.imp (P := True) ?_ fun _ => ⟨trivial, trivial⟩
  exact .statementsClosed nofun (.isAt_bind (.of (.refuse _)) h.statement)

theorem specs {α : Type} {spec : Parse α} {F : α → Prop} (hspec : Clears spec F True) :
    Clears (Parse.specs spec) (∀ x ∈ ·, F x) True := by
  refine .accept_bind rfl (.statementsClosed nofun hspec) (.bind hspec fun x => ?_)
  exact .pure fun hall => ⟨hall x List.mem_cons_self, trivial⟩

theorem valueSpec (h : ClearGrammar g) : Clears (Parse.valueSpec g) (·.features = []) True := by
  refine .bind (.commaSeparated .identifier) fun names => .kind_bind fun k => .of ?_
  have hend : ∀ type values, Clears (pure (ValueSpec.mk names type values)) (·.features = [])
      ((∀ e ∈ values, e.features = []) ∧ (∀ t ∈ type, t.features = []) ∧
        (∀ name ∈ names, True) ∧ True) := by
    refine fun type values => .pure fun hf => ?_
    cases type <;> simp_all [ValueSpec.features]
  have hvalues : ∀ type, Clears (do
      let values ← if ← accept Symbol.assign then Parse.exprs g else pure []
      return ValueSpec.mk names type values) (·.features = [])
      ((∀ t ∈ type, t.features = []) ∧ (∀ name ∈ names, True) ∧ True) :=
    fun type => .accept_bind rfl (.bind h.exprs (hend type))
      (.bind (.pure fun _ => trivial) (hend type))
  split
  · exact .bind (.pure fun _ => trivial) hvalues
  · exact .bind (.some_map h.type) hvalues

theorem looksGeneric : Clears Parse.looksGeneric (fun _ => True) True := by
  refine .isAt_bind (.of ?_) ?_
  · exact .kindAt_bind fun _ => .kindAt_bind fun _ => .pure fun _ => trivial
  · exact .kindAt_bind fun _ => .kindAt_bind fun _ => .pure fun _ => trivial

theorem typeSpec (h : ClearGrammar g) : Clears (Parse.typeSpec g) (·.type.features = []) True := by
  refine .bind .identifier fun name => .bind looksGeneric fun generic => ?_
  split
  · exact .fail _
  · have hend : ∀ isAlias, Clears (do return TypeSpec.mk name isAlias (← g.type))
        (·.type.features = []) (True ∧ True ∧ True) :=
      fun _ => .bind h.type fun _ => .pure fun hf => ⟨hf, trivial, trivial, trivial⟩
    exact .accept_bind rfl (hend true) (hend false)

theorem localDecl (h : ClearGrammar g) : Clears (Parse.localDecl g) (·.features = []) True := by
  refine .kind_bind fun k => ?_
  split
  · refine .skip_bind rfl (.bind (specs h.valueSpec) fun specs => .pure fun hf => ?_)
    simp_all [Decl.features]
  · refine .skip_bind rfl (.bind (specs h.valueSpec) fun specs => .pure fun hf => ?_)
    simp_all [Decl.features]
  · refine .skip_bind rfl (.bind (specs h.typeSpec) fun specs => .pure fun hf => ?_)
    simp_all [Decl.features]
  · exact .of (.refuse _)

theorem statement_above (h : ClearGrammar g) :
    Clears (Parse.statement g) (·.features = []) True := by
  refine .current_bind fun t => ?_
  generalize t.kind = k
  split
  · exact .skip_bind rfl h.returnStatement
  · exact .skip_bind rfl h.ifStatement
  · exact .forbidden fun r => .bind_any fun _ _ => forStatement_forbidden _
  · exact .forbidden fun r => .bind_any fun _ _ => .bind_any fun _ _ => .bind_any fun _ _ =>
      .pure nofun
  · exact .forbidden fun r => .bind_any fun _ _ => .bind_any fun _ _ => .pure nofun
  · exact .skip_bind rfl (jumpStatement _)
  · exact .skip_bind rfl (jumpStatement _)
  · exact .of (.bind h.block_above fun body => .pure fun hf => by simp_all [Stmt.features])
  · exact .of (.pure fun _ => trivial)
  · split
    · exact .of (.bind h.localDecl fun decl => .pure fun hf => ⟨hf, trivial⟩)
    · split
      · exact .of (.fail _)
      · exact .of h.simple
  · exact .of h.simple

theorem importAlias : Clears Parse.importAlias (fun _ => True) True := by
  refine .current_bind fun t => ?_
  generalize t.kind = k
  split
  · exact .skip_bind rfl (.pure fun _ => trivial)
  · exact .skip_bind rfl (.pure fun _ => trivial)
  · exact .of (.pure fun _ => trivial)

theorem importSpec : Clears Parse.importSpec (fun _ => True) True := by
  refine .bind importAlias fun alias? => .current_bind fun t => ?_
  generalize t.kind = k
  split
  · subst k
    exact .skip_bind rfl (.pure fun _ => ⟨trivial, trivial⟩)
  · exact .of (.refuse _)

theorem importStep : Clears Parse.importStep (∀ x ∈ ·, True) True := by
  refine .accept_bind rfl (.bind (specs importSpec) fun imports => .bind .statementEnd fun _ => ?_)
    (.pure fun _ => trivial)
  exact .bind .skipSemicolons fun _ => .some_pure fun _ =>
    ⟨trivial, trivial, fun _ _ => trivial, trivial⟩

theorem receiver (h : ClearGrammar g) :
    Clears (Parse.receiver g) (∀ f ∈ ·, f.type.features = []) True := by
  refine .isAt_bind (.of (.bind h.params fun fields => ?_)) (.pure fun _ => trivial)
  split
  · exact .some_pure fun hf => ⟨List.forall_mem_singleton.mpr hf, trivial⟩
  · exact .fail _

theorem functionDecl (h : ClearGrammar g) :
    Clears (Parse.functionDecl g) (·.features = []) True := by
  refine .bind h.receiver fun receiver => .bind .identifier fun name =>
    .isAt_bind (.of (.fail _)) (.bind h.signature fun type => ?_)
  have hend : ∀ body, Clears (pure (FunctionDecl.mk name receiver type body)) (·.features = [])
      ((∀ ss ∈ body, ∀ s ∈ ss, s.features = []) ∧ type.features = [] ∧ True ∧
        (∀ f ∈ receiver, f.type.features = []) ∧ True) := by
    refine fun body => .pure fun hf => ?_
    cases receiver <;> cases body <;> simp_all [FunctionDecl.features]
  exact .isAt_bind (.of (.bind (.some_map h.block) hend)) (.bind (.pure fun _ => trivial) hend)

theorem topDecl (h : ClearGrammar g) : Clears (Parse.topDecl g) (·.features = []) True :=
  .accept_bind rfl (.bind h.functionDecl fun _ => .pure fun hf => ⟨hf, trivial⟩) h.localDecl

theorem declStep (h : ClearGrammar g) :
    Clears (Parse.declStep g) (∀ d ∈ ·, d.features = []) True := by
  refine .bind .skipSemicolons fun _ => .isAt_bind (.of (.pure fun _ => ⟨trivial, trivial⟩)) ?_
  exact .bind h.topDecl fun decl => .bind .statementEnd fun _ => .some_pure fun hf =>
    ⟨trivial, hf, trivial, trivial⟩

theorem packageClause : Clears Parse.packageClause (fun _ => True) True := by
  refine .bind .skipSemicolons fun _ => .bind (.expectKeyword rfl) fun _ => ?_
  exact .bind .identifier fun _ => .bind .statementEnd fun _ => .pure fun _ => by simp

theorem fileOver (h : ClearGrammar g) :
    Clears (Parse.fileOver g) (fun file => ∀ d ∈ file.decls, d.features = []) True := by
  refine .bind packageClause fun package => .bind .skipSemicolons fun _ =>
    .bind (.collect importStep) fun imports => .bind (.collect h.declStep) fun decls => .pure ?_
  exact fun hf => ⟨hf, fun _ _ => trivial, trivial, trivial, trivial⟩

end ClearGrammar

theorem clear_ofDepth (d : Nat) : ClearGrammar (ofDepth d) := by
  induction d with
  | zero =>
    exact ⟨fun _ => .fail _, .fail _, .fail _, .fail _, .fail _, .fail _, fun _ _ => .fail _⟩
  | succ d ih =>
    exact ⟨ih.binary_above, ih.unary_above, ih.element_above, ih.typeExpr, ih.block_above,
      ih.statement_above, fun _ _ => binary_starts⟩

/-- A file is read up to the end of the source. -/
theorem fileOver_ends (g : Grammar) (r : List Token) :
    Ensures (fileOver g) r fun _ r' => headKind r' = .eof := by
  refine .bind_any fun _ _ => .bind_any fun _ _ => .bind_any fun _ r => .bind ?_
  refine (Ensures.collect (I := fun _ _ r' => headKind r' = .eof) (fun r => ?_) r).mono
    fun _ _ hend => .pure hend
  refine .bind_any fun _ _ => .isAt_bind (fun hend => .pure hend) fun _ => ?_
  exact .bind_any fun _ _ => .bind_any fun _ _ => .pure fun _ _ hend => hend

namespace Clean

variable {r r' : List Token}

/-- The end of the source behind the tokens is clean. -/
theorem append_eof (h : Clean r r') {eof : Token} (heof : eof.kind = .eof) :
    Clean (r ++ [eof]) (r' ++ [eof]) := by
  induction h with
  | refl => exact .refl _
  | plain ht _ ih => exact .plain ht ih
  | @bracket t r r' ht hnext _ ih =>
    refine .bracket ht ?_ ih
    cases r with
    | nil => exact fun hclose => nomatch heof.symm.trans hclose
    | cons => exact hnext

theorem no_forbidden_word (h : Clean r []) {t : Token} (ht : t ∈ r) {w : Keyword}
    (hw : w.isForbidden) : t.kind ≠ .keyword w := by
  intro hk
  induction r with
  | nil => cases ht
  | cons u r ih =>
    cases h with
    | plain hplain h =>
      rcases List.mem_cons.mp ht with rfl | ht
      · rw [hk, TokenKind.isPlain, hw] at hplain
        cases hplain
      · exact ih h ht
    | bracket hbracket _ h =>
      rcases List.mem_cons.mp ht with rfl | ht
      · cases hk.symm.trans hbracket
      · exact ih h ht

theorem no_empty_brackets (h : Clean r []) {t t' : Token} (ht : [t, t'] <:+: r)
    (hopen : t.kind = .symbol .bracketOpen) : t'.kind ≠ .symbol .bracketClose := by
  induction r with
  | nil => cases List.infix_nil.mp ht
  | cons u r ih =>
    cases h with
    | plain hplain h =>
      rcases List.infix_cons_iff.mp ht with hfront | ht
      · obtain ⟨rfl, -⟩ := List.cons_prefix_cons.mp hfront
        rw [hopen] at hplain
        cases hplain
      · exact ih h ht
    | bracket _ hnext h =>
      rcases List.infix_cons_iff.mp ht with hfront | ht
      · obtain ⟨rfl, behind, rfl⟩ := List.cons_prefix_cons.mp hfront
        exact hnext
      · exact ih h ht

end Clean

end Parse

/-- The end of the source is the last of the tokens and no other. -/
theorem Lexer.tokens_end {l : Lexer} {ts : List Token} (h : l.tokens = .ok ts) :
    ∃ us eof, ts = us ++ [eof] ∧ eof.kind = .eof ∧ ∀ t ∈ us, t.kind ≠ .eof := by
  fun_induction Lexer.tokens l generalizing ts with
  | case1 => cases h
  | case2 _ t _ _ ht =>
    cases h
    exact ⟨[], t, rfl, ht, nofun⟩
  | case3 _ t _ _ ht rest hrest ih =>
    cases h
    obtain ⟨us, eof, rfl, heof, hus⟩ := ih hrest
    exact ⟨t :: us, eof, rfl, heof, List.forall_mem_cons.mpr ⟨ht, hus⟩⟩
  | case4 => cases h

namespace Parse

/-- The tokens of a source that is read as a file, and the run that reads it. -/
theorem exists_run_of_parseFile {source : String} {file : File} (h : parseFile source = .ok file) :
    ∃ us eof s, tokenize source = .ok (us ++ [eof]) ∧ eof.kind = .eof ∧ (∀ t ∈ us, t.kind ≠ .eof) ∧
      Parse.file ⟨[], us, eof.span, true⟩ = .ok file s := by
  unfold parseFile onText run at h
  split at h
  · cases h
  · rename_i ts hts
    obtain ⟨us, eof, rfl, heof, hus⟩ := Lexer.tokens_end hts
    rw [ofTokens_append_eof heof] at h
    split at h
    · cases h
    · rename_i hrun
      split at hrun
      · rename_i s hs
        cases hrun
        cases h
        exact ⟨us, eof, s, hts, heof, hus, hs⟩
      · cases hrun

/-- A file without forbidden constructs is read from clean tokens. -/
theorem clean_of_file {us : List Token} {finish : Span} {file : File} {s : Stream}
    (h : Parse.file ⟨[], us, finish, true⟩ = .ok file s) (hus : ∀ t ∈ us, t.kind ≠ .eof)
    (hfile : ∀ d ∈ file.decls, d.features = []) : Clean us [] := by
  obtain ⟨hclears, hend⟩ := ((clear_ofDepth _).fileOver us).and (fileOver_ends _ us) rfl h
  have hclean := (hclears hfile).2
  have hrest : s.rest = [] :=
    eq_nil_of_headKind (fun t ht => hus t (hclean.isSuffix.mem ht)) hend
  rwa [hrest] at hclean

end Parse

open Parse in
/-- If a source is read as a valid file, then its tokens hold none of the words of the forbidden
constructs, and nowhere an opening bracket in front of a closing one. -/
theorem tokens_of_valid {source : String} {file : File} (h : parseFile source = .ok file)
    (hvalid : file.validate = .ok ()) :
    ∃ ts, tokenize source = .ok ts ∧
      (∀ t ∈ ts, ∀ w : Keyword, w.isForbidden → t.kind ≠ .keyword w) ∧
      ∀ t t', [t, t'] <:+: ts →
        ¬ (t.kind = .symbol .bracketOpen ∧ t'.kind = .symbol .bracketClose) := by
  have hfeatures : ∀ d ∈ file.decls, d.features = [] := by
    intro d hd
    have hnone := List.flatMap_eq_nil_iff.mp (file.validate_eq_ok_iff.mp hvalid) d hd
    exact List.map_eq_nil_iff.mp hnone
  obtain ⟨us, eof, s, hts, heof, hus, hs⟩ := exists_run_of_parseFile h
  have hclean : Clean (us ++ [eof]) [] :=
    ((clean_of_file hs hus hfeatures).append_eof heof).trans (.plain (heof ▸ rfl) (.refl []))
  exact ⟨_, hts, fun t ht w hw => hclean.no_forbidden_word ht hw, fun t t' ht hk =>
    hclean.no_empty_brackets ht hk.1 hk.2⟩

/-- The declarations of a type of arrays and of a function that reads from one of them. -/
def rowSource : String :=
  "package p\n\ntype row [2]int\n\nfunc last(r row) int \x7b\n\treturn r[1]\n\x7d\n"

theorem tokens_of_valid_rowSource :
    ∃ file ts, parseFile rowSource = .ok file ∧
      file.decls.map Decl.label = ["type row", "func last"] ∧ file.validate = .ok () ∧
      tokenize rowSource = .ok ts ∧
      (∀ t ∈ ts, ∀ w : Keyword, w.isForbidden → t.kind ≠ .keyword w) ∧
      ∀ t t', [t, t'] <:+: ts →
        ¬ (t.kind = .symbol .bracketOpen ∧ t'.kind = .symbol .bracketClose) := by
  have hread : (match parseFile rowSource with
      | .ok file =>
        decide (file.decls.map Decl.label = ["type row", "func last"] ∧ file.violations = [])
      | .error _ => false) = true := by
    decide +kernel
  cases hfile : parseFile rowSource with
  | error e =>
    rw [hfile] at hread
    cases hread
  | ok file =>
    rw [hfile] at hread
    obtain ⟨hlabels, hnone⟩ := of_decide_eq_true hread
    have hvalid : file.validate = .ok () := file.validate_eq_ok_iff.mpr hnone
    obtain ⟨ts, hts, htokens⟩ := tokens_of_valid hfile hvalid
    exact ⟨file, ts, rfl, hlabels, hvalid, hts, htokens⟩

end BoundedGo
