import BoundedGo.Proofs.Coverage
import BoundedGo.Proofs.Regularity
import BoundedGo.Proofs.Yielding

/-!
Every tree that a parser gives is regular, whatever property the pieces ahead have in common. This
goes by the productions: each of them yields regular trees if the nested grammar does. What a
production yields in front of a given token is told where the production around it has looked at
that token: no statement begins with a semicolon, and behind `if` there is a conditional.
-/
namespace BoundedGo

variable {W : Piece → Prop}

namespace Param

/-- A regular entry of a parameter list. -/
structure Regular (W : Piece → Prop) (p : Param) : Prop where
  name : ∀ name type, p = .named name type → W (.ident, name)
  type : p.type.Regular W

/-- Grouping gives every field a name. -/
theorem regular_group {waiting : List String} {ps : List Param} {fields : List Field}
    (h : group waiting ps = some fields) (hwaiting : ∀ name ∈ waiting, W (.ident, name))
    (hps : ∀ p ∈ ps, p.Regular W) : (∀ f ∈ fields, f.Regular W) ∧ ∀ f ∈ fields, f.names ≠ [] := by
  induction waiting, ps using group.induct generalizing fields with
  | case1 =>
    obtain rfl := Option.some.inj h
    exact ⟨List.forall_mem_nil _, List.forall_mem_nil _⟩
  | case2 => cases h
  | case3 waiting name ps ih =>
    obtain ⟨hname, hps⟩ := List.forall_mem_cons.mp hps
    have hword : W (.ident, name) := by
      cases hname.type with
      | named hword => exact hword
    rw [group] at h
    exact ih h (List.forall_mem_append.mpr ⟨hwaiting, List.forall_mem_singleton.mpr hword⟩) hps
  | case4 waiting type ps hname =>
    rw [group] at h
    · cases h
    · exact hname
  | case5 waiting name type ps rest hrest ih =>
    rw [group, hrest] at h
    obtain rfl := Option.some.inj h
    obtain ⟨hentry, hps⟩ := List.forall_mem_cons.mp hps
    obtain ⟨hfields, hnamed⟩ := ih hrest (List.forall_mem_nil _) hps
    have hnames : ∀ n ∈ waiting ++ [name], W (.ident, n) :=
      List.forall_mem_append.mpr ⟨hwaiting, List.forall_mem_singleton.mpr (hentry.name _ _ rfl)⟩
    exact ⟨List.forall_mem_cons.mpr ⟨.mk hnames hentry.type, hfields⟩,
      List.forall_mem_cons.mpr ⟨by simp, hnamed⟩⟩
  | case6 waiting name type ps hrest =>
    rw [group, hrest] at h
    cases h

theorem regular_fields? {ps : List Param} {fields : List Field} (h : fields? ps = some fields)
    (hps : ∀ p ∈ ps, p.Regular W) : (∀ f ∈ fields, f.Regular W) ∧ Field.Grouped fields := by
  unfold fields? at h
  split at h
  · obtain ⟨hfields, hnamed⟩ := regular_group h nofun hps
    exact ⟨hfields, .inl hnamed⟩
  · obtain rfl := Option.some.inj h
    refine ⟨List.forall_mem_map.mpr fun p hp => .mk nofun (hps p hp).type, .inr ?_⟩
    exact List.forall_mem_map.mpr fun _ _ => rfl

end Param

namespace Parse

open Grammar

/-- A grammar whose productions yield regular trees. -/
structure RegularGrammar (W : Piece → Prop) (g : Grammar) : Prop where
  binary : ∀ least, Yields W (g.binary least) (·.Regular W)
  unary : Yields W g.unary (·.Regular W)
  element : Yields W g.element (·.RegularPart W)
  type : Yields W g.type (·.Regular W)
  block : Yields W g.block (∀ s ∈ ·, s.Regular W)
  statement : ∀ k, k ≠ .symbol .semicolon →
    YieldsAt k W g.statement fun s => s.Regular W ∧ (k = .keyword .if_ → s.isConditional)

namespace RegularGrammar

variable {g : Grammar}

theorem param (h : RegularGrammar W g) : Yields W (Parse.param g) (·.Regular W) := by
  refine .accept_bind (.bind h.type fun type htype => .pure ⟨nofun, .slice htype⟩) ?_
  refine .bind h.type fun first hfirst => .kind_bind fun k => .of ?_
  split
  · exact .pure ⟨nofun, hfirst⟩
  · exact .pure ⟨nofun, hfirst⟩
  · split
    · rename_i name
      have hname : W (.ident, name) := by
        cases hfirst with
        | named hname => exact hname
      have hentry : ∀ type : TypeExpr, type.Regular W → (Param.named name type).Regular W := by
        refine fun type htype => ⟨?_, htype⟩
        rintro _ _ ⟨⟩
        exact hname
      exact .accept_bind (.bind h.type fun type htype => .pure (hentry _ (.slice htype)))
        (.bind h.type fun type htype => .pure (hentry _ htype))
    · exact .fail _

theorem params (h : RegularGrammar W g) :
    Yields W (Parse.params g) fun fs => (∀ f ∈ fs, f.Regular W) ∧ Field.Grouped fs := by
  refine .bind (.expectSymbol _) fun _ _ => .bind (.commaClosed _ h.param) fun entries hall => ?_
  split
  · rename_i fields hfields
    exact .pure (Param.regular_fields? hfields hall)
  · exact .fail _

theorem results (h : RegularGrammar W g) :
    Yields W (Parse.results g) fun fs => (∀ f ∈ fs, f.Regular W) ∧ Field.Grouped fs := by
  refine .kind_bind fun k => .of ?_
  split
  · exact h.params
  · split
    · refine .bind h.type fun type htype => .pure ⟨?_, .inr ?_⟩
      · exact List.forall_mem_singleton.mpr (.mk nofun htype)
      · exact List.forall_mem_singleton.mpr rfl
    · exact .pure ⟨nofun, .inr nofun⟩

theorem signature (h : RegularGrammar W g) : Yields W (Parse.signature g) (·.Regular W) :=
  .bind h.params fun _ hparams => .bind h.results fun _ hresults =>
    .pure (.mk hparams.1 hresults.1 hparams.2 hresults.2)

theorem bracketType (h : RegularGrammar W g) :
    Yields W (Parse.bracketType g) fun t => t.Regular W ∧ t.isWrittenOut := by
  refine .accept_bind (.bind h.type fun element helement => .pure ⟨.slice helement, rfl⟩) ?_
  refine .isAt_bind (.of (.fail _)) (.bind (.withLiterals (h.binary 1)) fun length hlength => ?_)
  exact .bind (.expectSymbol _) fun _ _ => .bind h.type fun element helement =>
    .pure ⟨.array hlength helement, rfl⟩

theorem mapType (h : RegularGrammar W g) :
    Yields W (Parse.mapType g) fun t => t.Regular W ∧ t.isWrittenOut :=
  .bind (.expectSymbol _) fun _ _ => .bind h.type fun _ hkey => .bind (.expectSymbol _) fun _ _ =>
    .bind h.type fun _ hvalue => .pure ⟨.map hkey hvalue, rfl⟩

theorem channelType (h : RegularGrammar W g) :
    Yields W (Parse.channelType g) fun t => t.Regular W ∧ t.isWrittenOut :=
  .accept_bind (.bind h.type fun _ helement => .pure ⟨.channel helement, rfl⟩)
    (.bind h.type fun _ helement => .pure ⟨.channel helement, rfl⟩)

theorem receiveType (h : RegularGrammar W g) :
    Yields W (Parse.receiveType g) fun t => t.Regular W ∧ t.isWrittenOut :=
  .bind (.expectKeyword _) fun _ _ => .bind h.type fun _ helement =>
    .pure ⟨.channel helement, rfl⟩

theorem embeddedField (h : RegularGrammar W g) : Yields W (Parse.embeddedField g) (·.Regular W) :=
  .bind h.type fun _ htype => .pure (.mk nofun htype)

theorem namedField (h : RegularGrammar W g) : Yields W (Parse.namedField g) (·.Regular W) :=
  .bind (.commaSeparated .identifier) fun _ hnames => .bind h.type fun _ htype =>
    .pure (.mk hnames.2 htype)

theorem untaggedField (h : RegularGrammar W g) :
    Yields W (Parse.untaggedField g) (·.Regular W) := by
  refine .kind_bind fun k => .of ?_
  split
  · exact h.embeddedField
  · refine .kindAt_bind fun k => ?_
    split
    · exact h.embeddedField
    · exact h.namedField
  · exact .refuse _

theorem structField (h : RegularGrammar W g) : Yields W (Parse.structField g) (·.Regular W) :=
  .bind h.untaggedField fun _ hfield => .accept_bind (.pure hfield) (.pure hfield)

theorem structType (h : RegularGrammar W g) :
    Yields W (Parse.structType g) fun t => t.Regular W ∧ t.isWrittenOut :=
  .bind (.expectSymbol _) fun _ _ => .bind (.statementsClosed _ fun _ _ => .of h.structField)
    fun _ hfields => .pure ⟨.struct hfields, rfl⟩

theorem embeddedInterface (h : RegularGrammar W g) :
    Yields W (Parse.embeddedInterface g) fun f => f.Regular W ∧ f.IsInterfaceElement := by
  have hmember : ∀ {f : TypeExpr → Parse Field} {F : Field → Prop},
      (∀ type : TypeExpr, type.Regular W → Yields W (f type) F) →
      Yields W (do let _ ← accept Symbol.tilde; f (← g.type)) F :=
    fun hf => .accept_bind (.bind h.type hf) (.bind h.type hf)
  refine hmember fun first hfirst => .bind (F := fun _ => True) ?_ fun _ _ => .pure ?_
  · refine (Yields.collect (F := fun _ => True) (.accept_bind ?_ .none_pure)).mono fun _ _ => trivial
    exact .accept_bind (.bind h.type fun _ _ => .some_pure trivial)
      (.bind h.type fun _ _ => .some_pure trivial)
  · exact ⟨.mk nofun hfirst, .inl rfl⟩

theorem method (h : RegularGrammar W g) :
    Yields W (Parse.method g) fun f => f.Regular W ∧ f.IsInterfaceElement := by
  refine .bind .identifier fun name hname => .bind h.signature fun signature hsignature => .pure ?_
  exact ⟨.mk (List.forall_mem_singleton.mpr hname) (.function hsignature), .inr ⟨_, _, rfl⟩⟩

theorem interfaceElement (h : RegularGrammar W g) :
    Yields W (Parse.interfaceElement g) fun f => f.Regular W ∧ f.IsInterfaceElement := by
  refine .kind_bind fun k => .of (.kindAt_bind fun k' => ?_)
  split
  · exact h.method
  · exact h.embeddedInterface

theorem interfaceType (h : RegularGrammar W g) :
    Yields W (Parse.interfaceType g) fun t => t.Regular W ∧ t.isWrittenOut :=
  .bind (.expectSymbol _) fun _ _ => .bind (.statementsClosed _ fun _ _ => .of h.interfaceElement)
    fun _ helements => .pure
      ⟨.interface (fun f hf => (helements f hf).1) fun f hf => (helements f hf).2, rfl⟩

theorem typeName {name : String} (hname : W (.ident, name)) :
    Yields W (Parse.typeName name) (·.Regular W) :=
  .accept_bind (.bind .identifier fun _ hsecond => .pure (.qualified hname hsecond))
    (.pure (.named hname))

theorem parenType (h : RegularGrammar W g) : Yields W (Parse.parenType g) (·.Regular W) :=
  .bind h.type fun _ htype => .bind (.expectSymbol _) fun _ _ => .pure htype

/-- A type that begins like a type in the place of an operand is no name and no pointer. -/
theorem typeExprAt (h : RegularGrammar W g) (k : TokenKind) :
    YieldsAt k W (Parse.typeExpr g) fun t =>
      t.Regular W ∧ (startsTypeOperand k → t.isWrittenOut) := by
  have hany : ∀ {p : Parse TypeExpr} {k : TokenKind}, startsTypeOperand k = false →
      Yields W p (·.Regular W) →
      Yields W p fun t => t.Regular W ∧ (startsTypeOperand k → t.isWrittenOut) :=
    fun hk hp => hp.mono fun _ ht => ⟨ht, fun hstarts => nomatch hk.symm.trans hstarts⟩
  have hform : ∀ {p : Parse TypeExpr} {k : TokenKind},
      (Yields W p fun t => t.Regular W ∧ t.isWrittenOut) →
      Yields W p fun t => t.Regular W ∧ (startsTypeOperand k → t.isWrittenOut) :=
    fun hp => hp.mono fun _ ht => ⟨ht.1, fun _ => ht.2⟩
  refine .current_bind fun t ht hword => ?_
  rw [ht]
  split
  · exact .skip_bind (hany rfl (typeName (hword nofun)))
  · exact .skip_bind (hform h.bracketType)
  · exact .skip_bind (hform h.mapType)
  · exact .skip_bind (hform h.channelType)
  · exact .skip_bind (hform h.receiveType)
  · exact .skip_bind (hform h.structType)
  · exact .skip_bind (hform h.interfaceType)
  · refine .skip_bind (hany rfl ?_)
    exact .bind h.signature fun _ hsignature => .pure (.function hsignature)
  · exact .skip_bind (hany rfl (.bind h.type fun _ htarget => .pure (.pointer htarget)))
  · exact .skip_bind (hany rfl h.parenType)
  · exact .of (.refuse _)

theorem typeExpr (h : RegularGrammar W g) : Yields W (Parse.typeExpr g) (·.Regular W) :=
  .of_at fun k => (h.typeExprAt k).mono fun _ ht => ht.1

theorem keyedElement (h : RegularGrammar W g) :
    Yields W (Parse.keyedElement g) (·.RegularElement W) :=
  .bind h.element fun _ hfirst => .accept_bind
    (.bind h.element fun _ hvalue => .pure (.keyValue hfirst hvalue)) (.pure (.part hfirst))

theorem elements (h : RegularGrammar W g) :
    Yields W (withLiterals true (commaClosed .braceClose (Parse.keyedElement g)))
      (∀ e ∈ ·, e.RegularElement W) :=
  .withLiterals (.commaClosed _ h.keyedElement)

theorem composite (h : RegularGrammar W g) {type : TypeExpr} (htype : type.Regular W) :
    Yields W (Parse.composite g (some type)) (·.Regular W) :=
  .bind (.expectSymbol _) fun _ _ => .bind h.elements fun _ helements =>
    .pure (.composite htype helements)

theorem untypedComposite (h : RegularGrammar W g) :
    Yields W (Parse.composite g none) (·.RegularPart W) :=
  .bind (.expectSymbol _) fun _ _ => .bind h.elements fun _ helements => .pure (.untyped helements)

theorem argument (h : RegularGrammar W g) : Yields W (Parse.argument g) (·.Regular W) :=
  .bind (h.binary 1) fun _ hvalue => .accept_bind (.pure hvalue) (.pure hvalue)

theorem selector {x : Expr} (hx : x.Regular W) : Yields W (Parse.selector x) (·.Regular W) := by
  refine .of_at fun k => .current_bind fun t ht hword => ?_
  rw [ht]
  split
  · exact .skip_bind (.pure (.selector hx (hword nofun)))
  · exact .of (.fail _)
  · exact .of (.refuse _)

theorem index (h : RegularGrammar W g) {x : Expr} (hx : x.Regular W) :
    Yields W (Parse.index g x) (·.Regular W) := by
  refine .bind (.withLiterals (h.binary 1)) fun place hplace => .isAt_bind (.of (.fail _)) ?_
  exact .bind (.expectSymbol _) fun _ _ => .pure (.index hx hplace)

theorem call (h : RegularGrammar W g) {x : Expr} (hx : x.Regular W) :
    Yields W (Parse.call g x) (·.Regular W) :=
  .bind (.withLiterals (.commaClosed _ h.argument)) fun _ harguments => .pure (.call hx harguments)

theorem regular_of_literalType {x : Expr} {type : TypeExpr} {isName : Bool}
    (h : literalType x = some (type, isName)) (hx : x.Regular W) : type.Regular W := by
  unfold literalType at h
  split at h
  · cases h
    cases hx with
    | ident hname => exact .named hname
  · cases h
    cases hx with
    | selector hbase hname =>
      cases hbase with
      | ident hpackage => exact .qualified hpackage hname
  · cases h
    cases hx with
    | type _ htype => exact htype
  · cases h
    cases hx with
    | type _ htype => exact htype
  · cases h
    cases hx with
    | type _ htype => exact htype
  · cases h
    cases hx with
    | type _ htype => exact htype
  · cases h

theorem suffix (h : RegularGrammar W g) (x : Expr) (hx : x.Regular W) :
    Yields W (Parse.suffix g x) (∀ y ∈ ·, y.Regular W) := by
  have hsome : ∀ {p : Parse Expr}, Yields W p (·.Regular W) →
      Yields W (do return some (← p)) (∀ y ∈ ·, y.Regular W) :=
    fun hp => .bind hp fun _ hy => .some_pure hy
  refine .kind_bind fun k => ?_
  split
  · exact .skip_bind (hsome (selector hx))
  · exact .skip_bind (hsome (h.index hx))
  · exact .skip_bind (hsome (h.call hx))
  · split
    · rename_i type isName htype
      refine .of (.literalsAllowed_bind fun allowed => ?_)
      split
      · exact .none_pure
      · exact hsome (h.composite (regular_of_literalType htype hx))
    · exact .of .none_pure
  · exact .of .none_pure

theorem functionOperand (h : RegularGrammar W g) :
    Yields W (Parse.functionOperand g) (·.Regular W) := by
  refine .bind h.signature fun signature hsignature => .isAt_bind (.of ?_) ?_
  · exact .bind h.block fun body hbody => .pure (.functionLiteral hsignature hbody)
  · exact .pure (.type rfl (.function hsignature))

theorem parenOperand (h : RegularGrammar W g) : Yields W (Parse.parenOperand g) (·.Regular W) :=
  .bind (.withLiterals (h.binary 1)) fun _ hinner => .bind (.expectSymbol _) fun _ _ =>
    .pure (.paren hinner)

theorem operand (h : RegularGrammar W g) : Yields W (Parse.operand g) (·.Regular W) := by
  refine .of_at fun k => .current_bind fun t ht hword => ?_
  rw [ht]
  split
  · exact .skip_bind (.pure (.ident (hword nofun)))
  · exact .skip_bind (.pure (.literal (hword nofun)))
  · exact .skip_bind h.parenOperand
  · exact .skip_bind h.functionOperand
  · split
    · rename_i hstarts
      refine fun r hk hr => .bind ((h.typeExprAt _ r hk hr).mono fun type r' htype => ?_)
      exact Yields.pure (.type (htype.1.2 hstarts) htype.1.1) r' htype.2
    · exact .of (.refuse _)

theorem primary (h : RegularGrammar W g) : Yields W (Parse.primary g) (·.Regular W) :=
  .bind h.operand fun _ hx => .iterate h.suffix hx

end RegularGrammar

theorem Yields.unaryOp? : Yields W Parse.unaryOp? fun _ => True := by
  refine .kind_bind fun k => .of ?_
  split
  · refine .kindAt_bind fun k => ?_
    split
    · exact .pure trivial
    · exact .pure trivial
  · exact .pure trivial
  · exact .pure trivial

theorem Yields.binaryOp? : Yields W Parse.binaryOp? fun _ => True := by
  refine .kind_bind fun k => .of ?_
  split
  · exact .pure trivial
  · exact .pure trivial

namespace RegularGrammar

variable {g : Grammar}

theorem unary_above (h : RegularGrammar W g) : Yields W (Parse.unary g) (·.Regular W) := by
  refine .bind .unaryOp? fun op _ => ?_
  split
  · exact .skip_bind (.bind h.unary fun x hx => .pure (.unary hx))
  · exact h.primary

theorem binaryStep (h : RegularGrammar W g) (least : Nat) (x : Expr) (hx : x.Regular W) :
    Yields W (Parse.binaryStep g least x) (∀ y ∈ ·, y.Regular W) := by
  refine .bind .binaryOp? fun op _ => ?_
  split
  · split
    · exact .none_pure
    · exact .skip_bind (.bind (h.binary _) fun y hy => .some_pure (.binary hx hy))
  · exact .none_pure

theorem binary_above (h : RegularGrammar W g) (least : Nat) :
    Yields W (Parse.binary g least) (·.Regular W) :=
  .bind h.unary_above fun _ hx => .iterate (h.binaryStep least) hx

theorem exprs (h : RegularGrammar W g) :
    Yields W (Parse.exprs g) fun es => es ≠ [] ∧ ∀ e ∈ es, e.Regular W :=
  .commaSeparated (h.binary_above 1)

theorem element_above (h : RegularGrammar W g) : Yields W (Parse.element g) (·.RegularPart W) :=
  .isAt_bind (.of h.untypedComposite) ((h.binary_above 1).mono fun _ hx => .value hx)

theorem single (fault : SyntaxFault) {lhs : List Expr} (hlhs : ∀ e ∈ lhs, e.Regular W) :
    Yields W (Parse.single fault lhs) (·.Regular W) := by
  unfold Parse.single
  split
  · exact .pure (hlhs _ List.mem_cons_self)
  · exact .fail _

theorem simpleFrom (h : RegularGrammar W g) {lhs : List Expr} (hne : lhs ≠ [])
    (hlhs : ∀ e ∈ lhs, e.Regular W) :
    Yields W (Parse.simpleFrom g lhs) fun s => s.Regular W ∧ s.isSimple := by
  refine .kind_bind fun k => ?_
  split
  · exact .skip_bind (.bind h.exprs fun rhs hrhs =>
      .pure ⟨.assign hlhs hrhs.2 hne hrhs.1 nofun, rfl⟩)
  · exact .skip_bind (.bind h.exprs fun rhs hrhs =>
      .pure ⟨.assign hlhs hrhs.2 hne hrhs.1 nofun, rfl⟩)
  · exact .skip_bind (.bind (single _ hlhs) fun x hx => .pure ⟨.incDec hx, rfl⟩)
  · exact .skip_bind (.bind (single _ hlhs) fun x hx => .pure ⟨.incDec hx, rfl⟩)
  · exact .skip_bind (.bind (single _ hlhs) fun x hx => .bind (h.binary_above 1) fun y hy =>
      .pure ⟨.send hx hy, rfl⟩)
  · split
    · exact .of (.fail _)
    · split
      · refine .skip_bind (.bind (h.binary_above 1) fun rhs hrhs => .pure ⟨?_, rfl⟩)
        exact .assign hlhs (List.forall_mem_singleton.mpr hrhs) hne nofun fun _ _ => rfl
      · split
        · exact .of (.pure ⟨.expr (hlhs _ List.mem_cons_self), rfl⟩)
        · exact .of (.refuse _)

theorem simple (h : RegularGrammar W g) :
    Yields W (Parse.simple g) fun s => s.Regular W ∧ s.isSimple :=
  .bind h.exprs fun _ hlhs => h.simpleFrom hlhs.1 hlhs.2

theorem condition {s : Stmt} (hs : s.Regular W) :
    Yields W (Parse.condition s) (·.Regular W) := by
  unfold Parse.condition
  split
  · cases hs with
    | expr hvalue => exact .pure hvalue
  · exact .fail _

end RegularGrammar

/-- A header that makes a regular loop of every regular body. -/
def Header.Regular (W : Piece → Prop) (header : Header) : Prop :=
  ∀ body : List Stmt, (∀ s ∈ body, s.Regular W) → (header.statement body).Regular W

namespace RegularGrammar

variable {g : Grammar}

theorem rangeOver (h : RegularGrammar W g) (define : Bool) {vars : List Expr}
    (hvars : ∀ e ∈ vars, e.Regular W) : Yields W (Parse.rangeOver g define vars) (·.Regular W) := by
  unfold Parse.rangeOver
  split
  · exact .fail _
  · refine .bind (h.binary_above 1) fun subject hsubject => .pure fun body hbody => ?_
    refine .range (fun e he => ?_) (fun e he => ?_) ?_ hsubject hbody
    · exact hvars e (List.mem_of_getElem? he)
    · exact hvars e (List.mem_of_getElem? he)
    · rcases vars with _ | ⟨key, _ | ⟨value, rest⟩⟩
      · nofun
      · nofun
      · exact fun _ => rfl

theorem loopClauses (h : RegularGrammar W g) {init : Option Stmt}
    (hinit : ∀ s ∈ init, s.Regular W ∧ s.isSimple) :
    Yields W (Parse.loopClauses g init) (·.Regular W) := by
  have hend : ∀ {condition : Option Expr} {post : Option Stmt}, (∀ e ∈ condition, e.Regular W) →
      (∀ s ∈ post, s.Regular W ∧ s.isSimple) → (Header.loop init condition post).Regular W :=
    fun hcondition hpost body hbody => .for_ (fun s hs => (hinit s hs).1)
      (fun s hs => (hinit s hs).2) hcondition (fun s hs => (hpost s hs).1)
      (fun s hs => (hpost s hs).2) hbody
  have hpost : ∀ {condition : Option Expr}, (∀ e ∈ condition, e.Regular W) →
      Yields W (do
        expectSymbol .semicolon
        let post ← if ← isAt Symbol.braceOpen then pure none else some <$> Parse.simple g
        return Header.loop init condition post) (·.Regular W) :=
    fun hcondition => .bind (.expectSymbol _) fun _ _ => .isAt_bind
      (.of (.bind .none_pure fun _ hpost => .pure (hend hcondition hpost)))
      (.bind (.some_map h.simple) fun _ hpost => .pure (hend hcondition hpost))
  exact .isAt_bind (.of (.bind .none_pure fun _ hcondition => hpost hcondition))
    (.bind (.some_map (h.binary_above 1)) fun _ hcondition => hpost hcondition)

theorem statementHeader (h : RegularGrammar W g) :
    Yields W (Parse.statementHeader g) (·.Regular W) := by
  refine .bind h.exprs fun lhs hlhs => .kind_bind fun k => .of (.kindAt_bind fun k' => ?_)
  split
  · exact .skip_bind (.skip_bind (h.rangeOver _ hlhs.2))
  · refine .bind (h.simpleFrom hlhs.1 hlhs.2) fun first hfirst => .accept_bind ?_ ?_
    · refine h.loopClauses ?_
      rintro _ ⟨⟩
      exact hfirst
    · refine .bind (condition hfirst.1) fun e he => .pure fun body hbody => ?_
      refine .for_ nofun nofun ?_ nofun nofun hbody
      rintro _ ⟨⟩
      exact he

theorem header (h : RegularGrammar W g) : Yields W (Parse.header g) (·.Regular W) := by
  refine .accept_bind (.bind (h.binary_above 1) fun subject hsubject => ?_) ?_
  · exact .pure fun body hbody => .range nofun nofun nofun hsubject hbody
  · exact .accept_bind (h.loopClauses nofun) h.statementHeader

theorem forStatement (h : RegularGrammar W g) : Yields W (Parse.forStatement g) (·.Regular W) := by
  refine .isAt_bind (.of (.bind h.block fun body hbody => ?_)) ?_
  · exact .pure (.for_ nofun nofun nofun nofun nofun hbody)
  · exact .bind (.withLiterals h.header) fun _ hheader => .bind h.block fun body hbody =>
      .pure (hheader body hbody)

theorem ifHeader (h : RegularGrammar W g) : Yields W (Parse.ifHeader g) fun x =>
    (∀ s ∈ x.1, s.Regular W ∧ s.isSimple) ∧ x.2.Regular W := by
  refine .bind h.simple fun first hfirst => .accept_bind ?_ ?_
  · refine .bind (h.binary_above 1) fun e he => .pure ⟨?_, he⟩
    rintro _ ⟨⟩
    exact hfirst
  · exact .bind (condition hfirst.1) fun e he => .pure ⟨nofun, he⟩

theorem elseBody (h : RegularGrammar W g) : Yields W (Parse.elseBody g) fun s =>
    s.Regular W ∧ (s.isConditional ∨ s.isBlock) := by
  refine .kind_bind fun k => ?_
  split
  · exact (h.statement (.keyword .if_) nofun).mono fun s hs => ⟨hs.1, .inl (hs.2 rfl)⟩
  · exact .of (.bind h.block fun body hbody => .pure ⟨.block hbody, .inr rfl⟩)
  · exact .of (.refuse _)

theorem ifStatement (h : RegularGrammar W g) :
    Yields W (Parse.ifStatement g) fun s => s.Regular W ∧ s.isConditional := by
  refine .bind (.withLiterals h.ifHeader) ?_
  rintro ⟨init, condition⟩ ⟨hinit, hcondition⟩
  refine .bind h.block fun body hbody => ?_
  have hend : ∀ orElse : Option Stmt, (∀ s ∈ orElse, s.Regular W ∧ (s.isConditional ∨ s.isBlock)) →
      Yields W (pure (Stmt.if_ init condition body orElse)) fun s =>
        s.Regular W ∧ s.isConditional :=
    fun orElse helse => .pure ⟨.if_ (fun s hs => (hinit s hs).1) (fun s hs => (hinit s hs).2)
      hcondition hbody (fun s hs => (helse s hs).1) fun s hs => (helse s hs).2, rfl⟩
  exact .accept_bind (.bind (.some_map h.elseBody) hend) (.bind .none_pure hend)

/-- Nothing behind the semicolons in front of a statement of a case is one. -/
theorem clauseStep (h : RegularGrammar W g) :
    Yields W (Parse.clauseStep g) (∀ s ∈ ·, s.Regular W) := by
  refine .skipSemicolons_bind fun k hk => .kind_bind ?_
  split
  · exact .of .none_pure
  · refine fun r hr hall => .bind ((h.statement k hk r hr hall).mono fun s r' hs => ?_)
    refine (Yields.kind_bind fun k => .of ?_ : Yields W _ (∀ s ∈ ·, Stmt.Regular W s)) r' hs.2
    split
    · exact .some_pure hs.1.1
    · exact .some_pure hs.1.1
    · exact .bind .statementEnd fun _ _ => .some_pure hs.1.1

theorem clauseBody (h : RegularGrammar W g) {comm : Option Stmt}
    (hcomm : ∀ s ∈ comm, s.Regular W ∧ s.isSimple) :
    Yields W (Parse.clauseBody g comm) (∀ c ∈ ·, c.Regular W) :=
  .bind (.expectSymbol _) fun _ _ => .bind (.collect h.clauseStep) fun _ hbody =>
    .some_pure (.mk (fun s hs => (hcomm s hs).1) (fun s hs => (hcomm s hs).2) hbody)

theorem commClause (h : RegularGrammar W g) :
    Yields W (Parse.commClause g) (∀ c ∈ ·, c.Regular W) := by
  refine .skipSemicolons_bind fun k _ => .kind_bind ?_
  split
  · exact .skip_bind .none_pure
  · refine .skip_bind (.bind h.simple fun comm hcomm => h.clauseBody ?_)
    rintro _ ⟨⟩
    exact hcomm
  · exact .skip_bind (h.clauseBody nofun)
  · exact .of (.refuse _)

theorem selectStatement (h : RegularGrammar W g) :
    Yields W (Parse.selectStatement g) (·.Regular W) :=
  .bind (.expectSymbol _) fun _ _ => .bind (.withLiterals (.collect h.commClause))
    fun _ hclauses => .pure (.select hclauses)

theorem returnStatement (h : RegularGrammar W g) :
    Yields W (Parse.returnStatement g) (·.Regular W) := by
  refine .kind_bind fun k => .of ?_
  split
  · exact .pure (.return_ nofun)
  · exact .bind h.exprs fun values hvalues => .pure (.return_ hvalues.2)

theorem jumpStatement (jump : Jump) : Yields W (Parse.jumpStatement jump) (·.Regular W) :=
  .accept_bind (.pure (.jump jump)) (.pure (.jump jump))

theorem block_above (h : RegularGrammar W g) :
    Yields W (Parse.block g) (∀ s ∈ ·, s.Regular W) := by
  refine .bind (.expectSymbol _) fun _ _ => .withLiterals (.statementsClosed _ fun k hk => ?_)
  exact .isAt_bind (.of (.refuse _)) ((h.statement k hk).mono fun s hs => hs.1)

theorem specs {α : Type} {spec : Parse α} {F : α → Prop} (hspec : Yields W spec F) :
    Yields W (Parse.specs spec) (∀ x ∈ ·, F x) :=
  .accept_bind (.statementsClosed _ fun _ _ => .of hspec)
    (.bind hspec fun _ hx => .pure (List.forall_mem_singleton.mpr hx))

theorem valueSpec (h : RegularGrammar W g) : Yields W (Parse.valueSpec g) (·.Regular W) := by
  refine .bind (.commaSeparated .identifier) fun names hnames => .kind_bind fun k => .of ?_
  have hvalues : ∀ type : Option TypeExpr, (∀ t ∈ type, t.Regular W) → Yields W (do
      let values ← if ← accept Symbol.assign then Parse.exprs g else pure []
      return ValueSpec.mk names type values) (·.Regular W) :=
    fun type htype => .accept_bind
      (.bind h.exprs fun _ hvalues => .pure (.mk hnames.1 hnames.2 htype hvalues.2))
      (.bind (.pure (F := (· = [])) rfl) fun _ hvalues =>
        .pure (.mk hnames.1 hnames.2 htype (hvalues ▸ nofun)))
  split
  · exact .bind .none_pure hvalues
  · exact .bind (.some_map h.type) hvalues

theorem looksGeneric : Yields W Parse.looksGeneric fun _ => True :=
  .isAt_bind (.of (.kindAt_bind fun _ => .kindAt_bind fun _ => .pure trivial))
    (.kindAt_bind fun _ => .kindAt_bind fun _ => .pure trivial)

theorem typeSpec (h : RegularGrammar W g) : Yields W (Parse.typeSpec g) (·.Regular W) := by
  refine .bind .identifier fun name hname => .bind looksGeneric fun generic _ => ?_
  split
  · exact .fail _
  · exact .accept_bind (.bind h.type fun _ htype => .pure (.mk hname htype))
      (.bind h.type fun _ htype => .pure (.mk hname htype))

theorem localDecl (h : RegularGrammar W g) :
    Yields W (Parse.localDecl g) fun d => d.Regular W ∧ d.isFunction = false := by
  refine .kind_bind fun k => ?_
  split
  · exact .skip_bind (.bind (specs h.valueSpec) fun specs hspecs => .pure ⟨.const hspecs, rfl⟩)
  · exact .skip_bind (.bind (specs h.valueSpec) fun specs hspecs => .pure ⟨.var hspecs, rfl⟩)
  · exact .skip_bind (.bind (specs h.typeSpec) fun specs hspecs => .pure ⟨.type hspecs, rfl⟩)
  · exact .of (.refuse _)

theorem statement_above (h : RegularGrammar W g) (k : TokenKind) (hk : k ≠ .symbol .semicolon) :
    YieldsAt k W (Parse.statement g) fun s =>
      s.Regular W ∧ (k = .keyword .if_ → s.isConditional) := by
  have hany : ∀ {p : Parse Stmt} {k : TokenKind}, k ≠ .keyword .if_ → Yields W p (·.Regular W) →
      Yields W p fun s => s.Regular W ∧ (k = .keyword .if_ → s.isConditional) :=
    fun hk hp => hp.mono fun s hs => ⟨hs, fun hif => absurd hif hk⟩
  refine .current_bind fun t ht _ => ?_
  rw [ht]
  split
  · exact .skip_bind (hany nofun h.returnStatement)
  · exact .skip_bind (h.ifStatement.mono fun s hs => ⟨hs.1, fun _ => hs.2⟩)
  · exact .skip_bind (hany nofun h.forStatement)
  · exact .skip_bind (hany nofun h.selectStatement)
  · exact .skip_bind (hany nofun (.bind (h.binary_above 1) fun e he => .pure (.go he)))
  · exact .skip_bind (hany nofun (jumpStatement _))
  · exact .skip_bind (hany nofun (jumpStatement _))
  · exact .of (hany nofun (.bind h.block_above fun body hbody => .pure (.block hbody)))
  · exact absurd rfl hk
  · rename_i hif _ _ _ _ _ _
    have hkeyword : ∀ {w : Keyword}, ¬ w = .if_ → TokenKind.keyword w ≠ .keyword .if_ :=
      fun hw hif => hw (TokenKind.keyword.inj hif)
    refine .of (hany (hkeyword ‹_›) ?_)
    split
    · exact .bind h.localDecl fun d hd => .pure (.declare hd.1 hd.2)
    · split
      · exact .fail _
      · exact h.simple.mono fun s hs => hs.1
  · exact .of (hany ‹_› (h.simple.mono fun s hs => hs.1))

theorem receiver (h : RegularGrammar W g) :
    Yields W (Parse.receiver g) (∀ r ∈ ·, r.Regular W) := by
  refine .isAt_bind (.of (.bind h.params fun fields hfields => ?_)) .none_pure
  split
  · exact .some_pure (hfields.1 _ List.mem_cons_self)
  · exact .fail _

theorem functionDecl (h : RegularGrammar W g) :
    Yields W (Parse.functionDecl g) (·.Regular W) := by
  refine .bind h.receiver fun receiver hreceiver => .bind .identifier fun name hname =>
    .isAt_bind (.of (.fail _)) (.bind h.signature fun type htype => ?_)
  have hend : ∀ body : Option (List Stmt), (∀ ss ∈ body, ∀ s ∈ ss, s.Regular W) →
      Yields W (pure (FunctionDecl.mk name receiver type body)) (·.Regular W) :=
    fun body hbody => .pure (.mk hname hreceiver htype hbody)
  exact .isAt_bind (.of (.bind (.some_map h.block) hend)) (.bind .none_pure hend)

theorem topDecl (h : RegularGrammar W g) : Yields W (Parse.topDecl g) (·.Regular W) :=
  .accept_bind (.bind h.functionDecl fun _ hf => .pure (.function hf))
    (h.localDecl.mono fun _ hd => hd.1)

theorem declStep (h : RegularGrammar W g) :
    Yields W (Parse.declStep g) (∀ d ∈ ·, d.Regular W) := by
  refine .skipSemicolons_bind fun k _ => .of (.isAt_bind (.of .none_pure) ?_)
  exact .bind h.topDecl fun d hd => .bind .statementEnd fun _ _ => .some_pure hd

end RegularGrammar

namespace Yields

theorem importAlias : Yields W Parse.importAlias fun _ => True := by
  refine .of_at fun k => .current_bind fun t ht _ => ?_
  rw [ht]
  split
  · exact .skip_bind (.pure trivial)
  · exact .skip_bind (.pure trivial)
  · exact .of (.pure trivial)

theorem importSpec : Yields W Parse.importSpec fun _ => True := by
  refine .bind .importAlias fun alias? _ => .of_at fun k => .current_bind fun t ht _ => ?_
  split
  · exact .skip_bind (.pure trivial)
  · exact .of (.refuse _)

theorem importStep : Yields W Parse.importStep fun _ => True := by
  refine .accept_bind (.bind (RegularGrammar.specs .importSpec) fun _ _ =>
    .bind .statementEnd fun _ _ => ?_) (.pure trivial)
  exact .skipSemicolons_bind fun _ _ => .of (.pure trivial)

theorem packageClause : Yields W Parse.packageClause fun _ => True :=
  .skipSemicolons_bind fun _ _ => .of (.bind (.expectKeyword _) fun _ _ =>
    .bind .identifier fun _ _ => .bind .statementEnd fun _ _ => .pure trivial)

end Yields

theorem RegularGrammar.fileOver {g : Grammar} (h : RegularGrammar W g) :
    Yields W (Parse.fileOver g) fun file => ∀ d ∈ file.decls, d.Regular W := by
  refine .bind .packageClause fun _ _ => .skipSemicolons_bind fun _ _ => .of ?_
  have himports : Yields W (Parse.collect importStep) (∀ x ∈ ·, True) :=
    .collect (Yields.importStep.mono fun _ _ _ _ => trivial)
  exact .bind himports fun _ _ => .bind (.collect h.declStep) fun _ hdecls => .pure hdecls

theorem regular_ofDepth (W : Piece → Prop) (d : Nat) : RegularGrammar W (ofDepth d) := by
  induction d with
  | zero =>
    exact ⟨fun _ => .fail _, .fail _, .fail _, .fail _, .fail _, fun _ _ => .of (.fail _)⟩
  | succ d ih =>
    exact ⟨ih.binary_above, ih.unary_above, ih.element_above, ih.typeExpr, ih.block_above,
      ih.statement_above⟩

end Parse

/-- All declarations of a source file are regular, with the pieces of its tokens. -/
theorem regular_of_parseFile {source : String} {file : File} (h : parseFile source = .ok file)
    {ts : List Token} (hts : tokenize source = .ok ts) (hW : ∀ t ∈ ts, W t.piece) :
    ∀ d ∈ file.decls, d.Regular W := by
  obtain ⟨us, eof, s, htokens, -, -, hs⟩ := Parse.exists_run_of_parseFile h
  obtain rfl := Except.ok.inj (hts.symm.trans htokens)
  exact ((Parse.regular_ofDepth W _).fileOver us
    (fun t ht => hW t (List.mem_append_left _ ht)) rfl hs).1

end BoundedGo
