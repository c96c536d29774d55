import BoundedGo.Proofs.Termination

/-!
What a parser leaves behind besides its place in the stream. Headers of control statements forbid
literals of named types for as long as they are read, and brackets allow them again; whatever
happens in between, the setting of before is put back. The productions call each other to any
depth, so this is told of all of them together, from what is known of their progress.
Main statement: behind every call, whether it succeeds or fails, the tokens and the literals that
are allowed are the ones of before, and so are those behind any calls (`calls_framed`).
-/
namespace BoundedGo

namespace Stream

/-- The stream at the place that has `k` tokens behind it. -/
def seek (s : Stream) (k : Nat) : Stream :=
  { s with
    seen := ((s.seen.reverse ++ s.rest).take k).reverse
    rest := (s.seen.reverse ++ s.rest).drop k }

theorem seek_cursor (s : Stream) : s.seek s.cursor = s := by
  obtain ⟨seen, rest, finish, literals⟩ := s
  have hlength : seen.length = seen.reverse.length := List.length_reverse.symm
  simp only [seek, cursor]
  rw [hlength, List.take_left, List.drop_left, List.reverse_reverse]

/-- Streams further on differ in their place only. -/
theorem LeadsTo.seek_eq {s t : Stream} (h : s.LeadsTo t) (k : Nat) : t.seek k = s.seek k := by
  obtain ⟨ts, hrest, hseen⟩ := h.tokens
  have hall : t.seen.reverse ++ t.rest = s.seen.reverse ++ s.rest := by
    rw [hseen, hrest, List.reverse_append, List.reverse_reverse, List.append_assoc]
  simp only [seek, hall, h.finish, h.literals]

end Stream

namespace Parse

open Grammar

/-- The parsers of the grammar, by what they give. -/
inductive Production : Type → Type 1
  | skip : Production Unit
  | skipSemicolons : Production Unit
  | accept (k : TokenKind) : Production Bool
  | expectSymbol (c : Symbol) : Production Unit
  | expectKeyword (w : Keyword) : Production Unit
  | identifier : Production String
  | statementEnd : Production Unit
  | param : Production Param
  | params : Production (List Field)
  | results : Production (List Field)
  | signature : Production FunctionType
  | bracketType : Production TypeExpr
  | mapType : Production TypeExpr
  | channelType : Production TypeExpr
  | receiveType : Production TypeExpr
  | embeddedField : Production Field
  | namedField : Production Field
  | untaggedField : Production Field
  | structField : Production Field
  | structType : Production TypeExpr
  | embeddedInterface : Production Field
  | method : Production Field
  | interfaceElement : Production Field
  | interfaceType : Production TypeExpr
  | typeName (name : String) : Production TypeExpr
  | parenType : Production TypeExpr
  | typeExpr : Production TypeExpr
  | keyedElement : Production Expr
  | composite (type : Option TypeExpr) : Production Expr
  | argument : Production Expr
  | selector (x : Expr) : Production Expr
  | index (x : Expr) : Production Expr
  | arguments : Production (List Expr)
  | call (x : Expr) : Production Expr
  | suffix (x : Expr) : Production (Option Expr)
  | functionOperand : Production Expr
  | parenOperand : Production Expr
  | operand : Production Expr
  | primary : Production Expr
  | unary : Production Expr
  | binaryStep (least : Nat) (x : Expr) : Production (Option Expr)
  | binary (least : Nat) : Production Expr
  | exprs : Production (List Expr)
  | element : Production Expr
  | looksGeneric : Production Bool
  | valueSpec : Production ValueSpec
  | typeSpec : Production TypeSpec
  | valueSpecs : Production (List ValueSpec)
  | typeSpecs : Production (List TypeSpec)
  | localDecl : Production Decl
  | simpleFrom (lhs : List Expr) : Production Stmt
  | simple : Production Stmt
  | condition (stmt : Stmt) : Production Expr
  | rangeOver (define : Bool) (vars : List Expr) : Production Header
  | loopClauses (init : Option Stmt) : Production Header
  | statementHeader : Production Header
  | header : Production Header
  | forStatement : Production Stmt
  | ifHeader : Production (Option Stmt × Expr)
  | elseBody : Production Stmt
  | ifStatement : Production Stmt
  | clauseStep : Production (Option Stmt)
  | clauseBody (comm : Option Stmt) : Production (Option CommClause)
  | commClause : Production (Option CommClause)
  | selectStatement : Production Stmt
  | returnStatement : Production Stmt
  | jumpStatement (jump : Jump) : Production Stmt
  | block : Production (List Stmt)
  | statement : Production Stmt
  | importAlias : Production (Option String)
  | importSpec : Production Import
  | importStep : Production (Option (List Import))
  | receiver : Production (Option Field)
  | functionDecl : Production FunctionDecl
  | topDecl : Production Decl
  | declStep : Production (Option Decl)
  | packageClause : Production String
  | file : Production File
  /-- Any of them where literals of named types are allowed, or are not. -/
  | withLiterals {α : Type} (allowed : Bool) (p : Production α) : Production α

namespace Production

/-- The production with a grammar for what is nested in it. -/
def parser (g : Grammar) : {α : Type} → Production α → Parse α
  | _, .skip => Parse.skip
  | _, .skipSemicolons => Parse.skipSemicolons
  | _, .accept k => Parse.accept k
  | _, .expectSymbol c => Parse.expectSymbol c
  | _, .expectKeyword w => Parse.expectKeyword w
  | _, .identifier => Parse.identifier
  | _, .statementEnd => Parse.statementEnd
  | _, .param => Parse.param g
  | _, .params => Parse.params g
  | _, .results => Parse.results g
  | _, .signature => Parse.signature g
  | _, .bracketType => Parse.bracketType g
  | _, .mapType => Parse.mapType g
  | _, .channelType => Parse.channelType g
  | _, .receiveType => Parse.receiveType g
  | _, .embeddedField => Parse.embeddedField g
  | _, .namedField => Parse.namedField g
  | _, .untaggedField => Parse.untaggedField g
  | _, .structField => Parse.structField g
  | _, .structType => Parse.structType g
  | _, .embeddedInterface => Parse.embeddedInterface g
  | _, .method => Parse.method g
  | _, .interfaceElement => Parse.interfaceElement g
  | _, .interfaceType => Parse.interfaceType g
  | _, .typeName name => Parse.typeName name
  | _, .parenType => Parse.parenType g
  | _, .typeExpr => Parse.typeExpr g
  | _, .keyedElement => Parse.keyedElement g
  | _, .composite type => Parse.composite g type
  | _, .argument => Parse.argument g
  | _, .selector x => Parse.selector x
  | _, .index x => Parse.index g x
  | _, .arguments => Parse.commaClosed .parenClose (Parse.argument g)
  | _, .call x => Parse.call g x
  | _, .suffix x => Parse.suffix g x
  | _, .functionOperand => Parse.functionOperand g
  | _, .parenOperand => Parse.parenOperand g
  | _, .operand => Parse.operand g
  | _, .primary => Parse.primary g
  | _, .unary => Parse.unary g
  | _, .binaryStep least x => Parse.binaryStep g least x
  | _, .binary least => Parse.binary g least
  | _, .exprs => Parse.exprs g
  | _, .element => Parse.element g
  | _, .looksGeneric => Parse.looksGeneric
  | _, .valueSpec => Parse.valueSpec g
  | _, .typeSpec => Parse.typeSpec g
  | _, .valueSpecs => Parse.specs (Parse.valueSpec g)
  | _, .typeSpecs => Parse.specs (Parse.typeSpec g)
  | _, .localDecl => Parse.localDecl g
  | _, .simpleFrom lhs => Parse.simpleFrom g lhs
  | _, .simple => Parse.simple g
  | _, .condition stmt => Parse.condition stmt
  | _, .rangeOver define vars => Parse.rangeOver g define vars
  | _, .loopClauses init => Parse.loopClauses g init
  | _, .statementHeader => Parse.statementHeader g
  | _, .header => Parse.header g
  | _, .forStatement => Parse.forStatement g
  | _, .ifHeader => Parse.ifHeader g
  | _, .elseBody => Parse.elseBody g
  | _, .ifStatement => Parse.ifStatement g
  | _, .clauseStep => Parse.clauseStep g
  | _, .clauseBody comm => Parse.clauseBody g comm
  | _, .commClause => Parse.commClause g
  | _, .selectStatement => Parse.selectStatement g
  | _, .returnStatement => Parse.returnStatement g
  | _, .jumpStatement jump => Parse.jumpStatement jump
  | _, .block => Parse.block g
  | _, .statement => Parse.statement g
  | _, .importAlias => Parse.importAlias
  | _, .importSpec => Parse.importSpec
  | _, .importStep => Parse.importStep
  | _, .receiver => Parse.receiver g
  | _, .functionDecl => Parse.functionDecl g
  | _, .topDecl => Parse.topDecl g
  | _, .declStep => Parse.declStep g
  | _, .packageClause => Parse.packageClause
  | _, .file => Parse.fileOver g
  | _, .withLiterals allowed p => Parse.withLiterals allowed (p.parser g)

theorem proceeds {n : Nat} {g g' : Grammar} (h : DeepGrammar n g g') {α : Type}
    (p : Production α) (s : Stream) : Proceeds n Free (p.parser g) (p.parser g') s := by
  induction p generalizing s with
  | skip => exact .skip_free
  | skipSemicolons => exact ⟨⟨.skipSemicolons s, False.elim⟩, fun _ => rfl⟩
  | accept k => exact .accept_free
  | expectSymbol c => exact (Proceeds.expectSymbol c).free
  | expectKeyword w => exact (Proceeds.expectKeyword w).free
  | identifier => exact Proceeds.identifier.free
  | statementEnd => exact .statementEnd
  | param => exact h.param
  | params => exact h.params.free
  | results => exact h.results
  | signature => exact h.signature.free
  | bracketType => exact h.bracketType
  | mapType => exact h.mapType
  | channelType => exact h.channelType
  | receiveType => exact h.receiveType
  | embeddedField => exact h.embeddedField.free
  | namedField => exact h.namedField.free
  | untaggedField => exact h.untaggedField.free
  | structField => exact h.structField.free
  | structType => exact h.structType
  | embeddedInterface => exact h.embeddedInterface.free
  | method => exact h.method.free
  | interfaceElement => exact h.interfaceElement.free
  | interfaceType => exact h.interfaceType
  | typeName name => exact .typeName name
  | parenType => exact h.parenType
  | typeExpr => exact h.typeExpr.shallow.free
  | keyedElement => exact h.keyedElement
  | composite type => exact (h.composite type).shallow.free
  | argument => exact h.argument
  | selector x => exact .selector x
  | index x => exact h.index x
  | arguments => exact .commaClosed fun _ => h.argument
  | call x => exact h.call x
  | suffix x => exact (h.suffix x).free
  | functionOperand => exact h.functionOperand
  | parenOperand => exact h.parenOperand
  | operand => exact h.operand.shallow.free
  | primary => exact h.primary.shallow.free
  | unary => exact h.unary_above.shallow.free
  | binaryStep least x => exact (h.binaryStep least x).free
  | binary least => exact (h.binary_above least).shallow.free
  | exprs => exact h.exprs.shallow.free
  | element => exact h.element_above.shallow.free
  | looksGeneric => exact .looksGeneric
  | valueSpec => exact h.valueSpec.free
  | typeSpec => exact h.typeSpec.free
  | valueSpecs => exact .specs fun _ => h.valueSpec
  | typeSpecs => exact .specs fun _ => h.typeSpec
  | localDecl => exact h.localDecl.shallow.free
  | simpleFrom lhs => exact h.simpleFrom lhs
  | simple => exact h.simple.shallow.free
  | condition stmt => exact .condition stmt
  | rangeOver define vars => exact h.rangeOver define vars
  | loopClauses init => exact h.loopClauses init
  | statementHeader => exact h.statementHeader
  | header => exact h.header
  | forStatement => exact h.forStatement
  | ifHeader => exact h.ifHeader
  | elseBody => exact h.elseBody
  | ifStatement => exact h.ifStatement
  | clauseStep => exact h.clauseStep.free
  | clauseBody comm => exact h.clauseBody comm
  | commClause => exact h.commClause.free
  | selectStatement => exact h.selectStatement
  | returnStatement => exact h.returnStatement
  | jumpStatement jump => exact .jumpStatement jump
  | block => exact h.block_above.shallow.free
  | statement => exact h.statement_above.shallow.free
  | importAlias => exact .importAlias
  | importSpec => exact Proceeds.importSpec.free
  | importStep => exact Proceeds.importStep.free
  | receiver => exact h.receiver
  | functionDecl => exact h.functionDecl
  | topDecl => exact h.topDecl.free
  | declStep => exact h.declStep.free
  | packageClause => exact Proceeds.packageClause.free
  | file => exact h.fileOver.free
  | withLiterals allowed p ih => exact .withLiterals ih

end Production

/-- What can be asked of a parser: an expression, a type, a block, a file, or one of the productions
in them, nested without a bound or to some depth. -/
inductive Call : Type → Type 1
  | expression : Call Expr
  | type : Call TypeExpr
  | block : Call (List Stmt)
  | file : Call File
  | production {α : Type} (p : Production α) : Call α
  | ofDepth {α : Type} (n : Nat) (p : Production α) : Call α

namespace Production

theorem leadsTo_ofDepth {α : Type} (p : Production α) (n : Nat) (s : Stream) :
    s.LeadsTo (left (p.parser (ofDepth n) s)) :=
  (p.proceeds (deep_unbounded n) s).proper.leadsTo_left

/-- A depth greater than the number of tokens ahead is as good as none. -/
theorem leadsTo_unbounded {α : Type} (p : Production α) (s : Stream) :
    s.LeadsTo (left (p.parser unbounded s)) := by
  have hsame := (p.proceeds (deep_unbounded (s.rest.length + 1)) s).same (Nat.lt_succ_self _)
  rw [hsame]
  exact p.leadsTo_ofDepth _ s

end Production

namespace Call

def parser : {α : Type} → Call α → Parse α
  | _, .expression => Parse.expression
  | _, .type => Parse.typeExpression
  | _, .block => Parse.blockStatement
  | _, .file => Parse.file
  | _, .production p => p.parser unbounded
  | _, .ofDepth n p => p.parser (Grammar.ofDepth n)

/-- The stream behind one call after the other, whether they succeed or fail. -/
def leftByAll (calls : List (Σ α : Type, Call α)) (s : Stream) : Stream :=
  calls.foldl (fun s c => left (c.2.parser s)) s

theorem leadsTo {α : Type} (c : Call α) (s : Stream) : s.LeadsTo (left (c.parser s)) := by
  cases c with
  | expression => exact (Production.binary 1).leadsTo_ofDepth _ s
  | type => exact Production.typeExpr.leadsTo_ofDepth _ s
  | block => exact Production.block.leadsTo_ofDepth _ s
  | file => exact Production.file.leadsTo_ofDepth _ s
  | production p => exact p.leadsTo_unbounded s
  | ofDepth n p => exact p.leadsTo_ofDepth n s

theorem leadsTo_leftByAll (calls : List (Σ α : Type, Call α)) (s : Stream) :
    s.LeadsTo (leftByAll calls s) := by
  induction calls generalizing s with
  | nil => exact .refl s
  | cons c calls ih => exact (c.2.leadsTo s).trans (ih (left (c.2.parser s)))

end Call

/-- An answer or an error that leaves the tokens and the literals that are allowed as they are. -/
def Frames (s : Stream) {α : Type} : EStateM.Result SyntaxError Stream α → Prop
  | .ok _ t => t.tokens = s.tokens ∧ t.literals = s.literals
  | .error _ t => t.tokens = s.tokens ∧ t.literals = s.literals

theorem frames_of_leadsTo {α : Type} {s : Stream} {x : EStateM.Result SyntaxError Stream α}
    (h : s.LeadsTo (left x)) : Frames s x := by
  cases x with
  | ok a t => exact ⟨h.tokens_eq, h.literals⟩
  | error e t => exact ⟨h.tokens_eq, h.literals⟩

/-- Whether a brace behind the operand opens a literal. -/
def opensLiteral (s : Stream) (x : Expr) : Bool :=
  (literalType x).any fun (_, isName) => !isName || s.literals

/-- At a brace an operand goes on only with a literal. -/
theorem suffix_brace {s : Stream} (g : Grammar) (x : Expr)
    (hs : headKind s.rest = .symbol .braceOpen) :
    suffix g x s = .ok none s ↔ opensLiteral s x = false := by
  have hstops : (pure none : Parse (Option Expr)) s = .ok none s := rfl
  -- The loop goes on when a literal has been read.
  have hgoes : ∀ type : TypeExpr, (some <$> composite g (some type)) s ≠ .ok none s := by
    intro type h
    change EStateM.map some (composite g (some type)) s = .ok none s at h
    unfold EStateM.map at h
    split at h
    · cases h
    · cases h
  rw [suffix, bind_ok (kind_eq s), hs, opensLiteral]
  rcases literalType x with _ | ⟨type, _ | _⟩
  · exact iff_of_true hstops rfl
  · exact iff_of_false (hgoes type) nofun
  · dsimp only
    rw [bind_ok (show literalsAllowed s = .ok s.literals s from rfl)]
    cases hallowed : s.literals with
    | false => exact iff_of_true hstops rfl
    | true => exact iff_of_false (hgoes type) nofun

/-- Every call, with an answer or with an error, leaves the tokens and the literals that are
allowed as they are, and so does any sequence of calls. Behind them a later call is a call of the
parser of before at the place that they have reached, and a brace behind an operand opens a literal
where it did before. -/
theorem calls_framed (calls : List (Σ α : Type, Call α)) (s : Stream) :
    (∀ {α : Type} (c : Call α), Frames s (c.parser s)) ∧
      let t := Call.leftByAll calls s
      t.tokens = s.tokens ∧ t.literals = s.literals ∧
      (∀ {α : Type} (later : Call α), later.parser t = later.parser (s.seek t.cursor)) ∧
      ∀ (g : Grammar) (x : Expr), headKind t.rest = .symbol .braceOpen →
        (suffix g x t = .ok none t ↔ opensLiteral s x = false) := by
  have hall := Call.leadsTo_leftByAll calls s
  refine ⟨fun c => frames_of_leadsTo (c.leadsTo s), ?_⟩
  intro t
  refine ⟨hall.tokens_eq, hall.literals, fun later => ?_, fun g x hbrace => ?_⟩
  · rw [← hall.seek_eq, Stream.seek_cursor]
  · rw [suffix_brace g x hbrace, opensLiteral, opensLiteral, hall.literals]

end Parse

end BoundedGo
