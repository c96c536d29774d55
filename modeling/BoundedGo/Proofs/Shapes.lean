import BoundedGo.Proofs.Occurrence
import BoundedGo.Proofs.RegularTrees
import BoundedGo.Proofs.Showing
import BoundedGo.Proofs.Termination

/-!
The shapes of parsed trees, node by node. What a rule for regular trees says of a whole tree is said
here of every node of it by itself, and of every node with one of its children: keys, and composite
literals without a type, are told by where they stand. A regular node hands on to its children that
they are regular and that they stand where they may; so one descent reaches every depth.
Main statement: whatever the stream and whatever is asked of the parser, a tree that it gives is in
shape (`inShape_of_ok`).
-/
namespace BoundedGo

/-- Whether the names of the parameters are given for all of them or for none, and the names of the
results likewise. -/
def FunctionType.IsGrouped (t : FunctionType) : Prop :=
  Field.Grouped t.params ∧ Field.Grouped t.results

namespace Node

/-- What the shape of a node is, whatever its children look like. -/
def InShape : Node → Prop
  | .expr (.functionLiteral signature _) => signature.IsGrouped
  | .expr (.type operand) => operand.isWrittenOut
  | .type (.interface elements) => ∀ f ∈ elements, f.IsInterfaceElement
  | .type (.function signature) => signature.IsGrouped
  | .stmt (.declare d) => d.isFunction = false
  | .stmt (.assign lhs op rhs) =>
    lhs ≠ [] ∧ rhs ≠ [] ∧ ∀ compound, op = .compound compound → rhs.length = 1
  | .stmt (.if_ init _ _ orElse) =>
    (∀ s ∈ init, s.isSimple) ∧ ∀ s ∈ orElse, s.isConditional ∨ s.isBlock
  | .stmt (.for_ init _ post _) => (∀ s ∈ init, s.isSimple) ∧ ∀ s ∈ post, s.isSimple
  | .stmt (.range key value _ _ _) => value.isSome → key.isSome
  | .stmt (.select clauses) => ∀ c ∈ clauses, ∀ s ∈ c.comm, s.isSimple
  | .stmt .empty => False
  | .decl (.function f) => f.type.IsGrouped
  | .decl (.const specs) => ∀ s ∈ specs, s.names ≠ []
  | .decl (.var specs) => ∀ s ∈ specs, s.names ≠ []
  | _ => True

/-- A key with its value. -/
def isKeyValue : Node → Bool
  | .expr (.keyValue ..) => true
  | _ => false

def isComposite : Node → Bool
  | .expr (.composite ..) => true
  | _ => false

/-- A composite literal without a type. -/
def isUntyped : Node → Bool
  | .expr (.composite none _) => true
  | _ => false

/-- Nodes that may stand by themselves. -/
def StandsAlone (n : Node) : Prop :=
  n.isKeyValue = false ∧ n.isUntyped = false

/-- Where the other nodes may stand: a key with its value is an element of a composite literal, and
a literal without a type is such an element or one of the two parts of a key with its value. -/
structure Admits (n c : Node) : Prop where
  keyValue : c.isKeyValue → n.isComposite
  untyped : c.isUntyped → n.isComposite ∨ n.isKeyValue

theorem StandsAlone.admits {c : Node} (h : c.StandsAlone) (n : Node) : n.Admits c where
  keyValue hc := by
    rw [h.1] at hc
    cases hc
  untyped hc := by
    rw [h.2] at hc
    cases hc

section

variable (W : Piece → Prop)

/-- A regular node that may stand by itself. -/
inductive RegularAlone : Node → Prop
  | expr {e : Expr} (h : e.Regular W) : RegularAlone (.expr e)
  | type {t : TypeExpr} (h : t.Regular W) : RegularAlone (.type t)
  | stmt {s : Stmt} (h : s.Regular W) : RegularAlone (.stmt s)
  | decl {d : Decl} (h : d.Regular W) : RegularAlone (.decl d)

/-- A regular node at its place. -/
inductive Regular : Node → Prop
  | alone {n : Node} (h : RegularAlone W n) : Regular n
  | element {e : Expr} (h : e.RegularElement W) : Regular (.expr e)

end

variable {W : Piece → Prop}

theorem RegularAlone.standsAlone {n : Node} (h : n.RegularAlone W) : n.StandsAlone := by
  cases h with
  | expr h => cases h <;> exact ⟨rfl, rfl⟩
  | type | stmt | decl => exact ⟨rfl, rfl⟩

/-- A child that is regular and stands where it may. -/
def Keeps (W : Piece → Prop) (n c : Node) : Prop :=
  c.Regular W ∧ n.Admits c

theorem RegularAlone.keeps {c : Node} (h : c.RegularAlone W) (n : Node) : Keeps W n c :=
  ⟨.alone h, h.standsAlone.admits n⟩

variable {n c : Node}

theorem keeps_exprs {es : List Expr} (h : ∀ e ∈ es, e.Regular W) (hc : c ∈ es.map Node.expr) :
    Keeps W n c := by
  obtain ⟨e, he, rfl⟩ := List.mem_map.mp hc
  exact (RegularAlone.expr (h e he)).keeps n

theorem keeps_stmts {ss : List Stmt} (h : ∀ s ∈ ss, s.Regular W) (hc : c ∈ ss.map Node.stmt) :
    Keeps W n c := by
  obtain ⟨s, hs, rfl⟩ := List.mem_map.mp hc
  exact (RegularAlone.stmt (h s hs)).keeps n

theorem keeps_fields {fs : List Field} (h : ∀ f ∈ fs, f.Regular W) (hc : c ∈ Field.nodes fs) :
    Keeps W n c := by
  obtain ⟨f, hf, rfl⟩ := List.mem_map.mp hc
  cases h f hf with
  | mk _ htype => exact (RegularAlone.type htype).keeps n

theorem keeps_signature {t : FunctionType} (h : t.Regular W) (hc : c ∈ t.nodes) :
    Keeps W n c := by
  cases h with
  | mk hparams hresults =>
    rcases List.mem_append.mp hc with hc | hc
    · exact keeps_fields hparams hc
    · exact keeps_fields hresults hc

theorem keeps_type {t : TypeExpr} (h : t.Regular W) : Keeps W n (.type t) :=
  (RegularAlone.type h).keeps n

theorem keeps_expr {e : Expr} (h : e.Regular W) : Keeps W n (.expr e) :=
  (RegularAlone.expr h).keeps n

theorem keeps_option_expr {o : Option Expr} (h : ∀ e ∈ o, e.Regular W)
    (hc : c ∈ o.toList.map Node.expr) : Keeps W n c :=
  keeps_exprs (fun e he => h e (Option.mem_toList.mp he)) hc

theorem keeps_option_stmt {o : Option Stmt} (h : ∀ s ∈ o, s.Regular W)
    (hc : c ∈ o.toList.map Node.stmt) : Keeps W n c :=
  keeps_stmts (fun s hs => h s (Option.mem_toList.mp hs)) hc

theorem keeps_option_type {o : Option TypeExpr} (h : ∀ t ∈ o, t.Regular W)
    (hc : c ∈ o.toList.map Node.type) : Keeps W n c := by
  obtain ⟨t, ht, rfl⟩ := List.mem_map.mp hc
  exact keeps_type (h t (Option.mem_toList.mp ht))

/-- The elements of a composite literal may be of all forms. -/
theorem keeps_elements {type : Option TypeExpr} {elements : List Expr}
    (h : ∀ e ∈ elements, e.RegularElement W) (hc : c ∈ elements.map Node.expr) :
    Keeps W (.expr (.composite type elements)) c := by
  obtain ⟨e, he, rfl⟩ := List.mem_map.mp hc
  exact ⟨.element (h e he), fun _ => rfl, fun _ => .inl rfl⟩

/-- A part of a key with its value is no such pair. -/
theorem keeps_part {key value e : Expr} (h : e.RegularPart W) :
    Keeps W (.expr (.keyValue key value)) (.expr e) := by
  cases h with
  | value h => exact keeps_expr h
  | untyped h => exact ⟨.element (.part (.untyped h)), nofun, fun _ => .inr rfl⟩

theorem keeps_of_expr {e : Expr} (h : e.Regular W) (hc : c ∈ e.children) :
    Keeps W (.expr e) c := by
  cases h with
  | ident | literal => cases hc
  | paren h | unary h | selector h =>
    obtain rfl := List.mem_singleton.mp hc
    exact keeps_expr h
  | binary hl hr | index hl hr =>
    rcases List.mem_pair.mp hc with rfl | rfl
    · exact keeps_expr hl
    · exact keeps_expr hr
  | call hcallee harguments =>
    rcases List.mem_cons.mp hc with rfl | hc
    · exact keeps_expr hcallee
    · exact keeps_exprs harguments hc
  | composite htype helements =>
    rcases List.mem_append.mp hc with hc | hc
    · obtain rfl := List.mem_singleton.mp hc
      exact keeps_type htype
    · exact keeps_elements helements hc
  | functionLiteral hsignature hbody =>
    rcases List.mem_append.mp hc with hc | hc
    · exact keeps_signature hsignature hc
    · exact keeps_stmts hbody hc
  | type _ h =>
    obtain rfl := List.mem_singleton.mp hc
    exact keeps_type h

theorem keeps_of_element {e : Expr} (h : e.RegularElement W) (hc : c ∈ e.children) :
    Keeps W (.expr e) c := by
  cases h with
  | part h =>
    cases h with
    | value h => exact keeps_of_expr h hc
    | untyped h => exact keeps_elements h hc
  | keyValue hkey hvalue =>
    rcases List.mem_pair.mp hc with rfl | rfl
    · exact keeps_part hkey
    · exact keeps_part hvalue

theorem keeps_of_type {t : TypeExpr} (h : t.Regular W) (hc : c ∈ t.children) :
    Keeps W (.type t) c := by
  cases h with
  | named | qualified => cases hc
  | array hlength helement =>
    rcases List.mem_pair.mp hc with rfl | rfl
    · exact keeps_expr hlength
    · exact keeps_type helement
  | slice h | channel h | pointer h =>
    obtain rfl := List.mem_singleton.mp hc
    exact keeps_type h
  | struct h | interface h =>
    exact keeps_fields h hc
  | map hkey hvalue =>
    rcases List.mem_pair.mp hc with rfl | rfl
    · exact keeps_type hkey
    · exact keeps_type hvalue
  | function h => exact keeps_signature h hc

theorem keeps_clause {k : CommClause} (h : k.Regular W) (hc : c ∈ k.nodes) : Keeps W n c := by
  cases h with
  | mk hcomm _ hbody =>
    rcases List.mem_append.mp hc with hc | hc
    · exact keeps_option_stmt hcomm hc
    · exact keeps_stmts hbody hc

theorem keeps_of_stmt {s : Stmt} (h : s.Regular W) (hc : c ∈ s.children) :
    Keeps W (.stmt s) c := by
  cases h with
  | jump => cases hc
  | declare h =>
    obtain rfl := List.mem_singleton.mp hc
    exact (RegularAlone.decl h).keeps _
  | incDec h | expr h | go h =>
    obtain rfl := List.mem_singleton.mp hc
    exact keeps_expr h
  | assign hlhs hrhs =>
    rcases List.mem_append.mp hc with hc | hc
    · exact keeps_exprs hlhs hc
    · exact keeps_exprs hrhs hc
  | return_ h => exact keeps_exprs h hc
  | if_ hinit _ hcondition hbody helse =>
    simp only [Stmt.children, List.mem_append, List.mem_cons] at hc
    rcases hc with hc | rfl | hc | hc
    · exact keeps_option_stmt hinit hc
    · exact keeps_expr hcondition
    · exact keeps_stmts hbody hc
    · exact keeps_option_stmt helse hc
  | for_ hinit _ hcondition hpost _ hbody =>
    simp only [Stmt.children, List.mem_append] at hc
    rcases hc with ((hc | hc) | hc) | hc
    · exact keeps_option_stmt hinit hc
    · exact keeps_option_expr hcondition hc
    · exact keeps_option_stmt hpost hc
    · exact keeps_stmts hbody hc
  | range hkey hvalue _ hsubject hbody =>
    simp only [Stmt.children, List.mem_append, List.mem_cons] at hc
    rcases hc with (hc | hc) | rfl | hc
    · exact keeps_option_expr hkey hc
    · exact keeps_option_expr hvalue hc
    · exact keeps_expr hsubject
    · exact keeps_stmts hbody hc
  | send hchannel hvalue =>
    rcases List.mem_pair.mp hc with rfl | rfl
    · exact keeps_expr hchannel
    · exact keeps_expr hvalue
  | select h =>
    obtain ⟨k, hk, hc⟩ := List.mem_flatMap.mp hc
    exact keeps_clause (h k hk) hc
  | block h => exact keeps_stmts h hc

theorem keeps_specs {specs : List ValueSpec} (h : ∀ s ∈ specs, s.Regular W)
    (hc : c ∈ specs.flatMap ValueSpec.nodes) : Keeps W n c := by
  obtain ⟨s, hs, hc⟩ := List.mem_flatMap.mp hc
  cases h s hs with
  | mk _ _ htype hvalues =>
    rcases List.mem_append.mp hc with hc | hc
    · exact keeps_option_type htype hc
    · exact keeps_exprs hvalues hc

theorem keeps_function {f : FunctionDecl} (h : f.Regular W) (hc : c ∈ f.nodes) :
    Keeps W n c := by
  cases h with
  | mk _ hreceiver htype hbody =>
    simp only [FunctionDecl.nodes, List.mem_append] at hc
    rcases hc with (hc | hc) | hc
    · exact keeps_fields (fun r hr => hreceiver r (Option.mem_toList.mp hr)) hc
    · exact keeps_signature htype hc
    · cases hf : f.body with
      | none =>
        rw [hf] at hc
        cases hc
      | some body =>
        rw [hf] at hc
        exact keeps_stmts (hbody body hf) hc

theorem keeps_of_decl {d : Decl} (h : d.Regular W) (hc : c ∈ d.children) :
    Keeps W (.decl d) c := by
  cases h with
  | function h => exact keeps_function h hc
  | const h | var h => exact keeps_specs h hc
  | type h =>
    obtain ⟨s, hs, rfl⟩ := List.mem_map.mp hc
    cases h s hs with
    | mk _ htype => exact keeps_type htype

/-- One step down. -/
theorem Regular.keeps (h : n.Regular W) (hc : c ∈ n.children) : Keeps W n c := by
  cases h with
  | alone h =>
    cases h with
    | expr h => exact keeps_of_expr h hc
    | type h => exact keeps_of_type h hc
    | stmt h => exact keeps_of_stmt h hc
    | decl h => exact keeps_of_decl h hc
  | element h => exact keeps_of_element h hc

/-- All the way down. -/
theorem Regular.within {m : Node} (h : n.Regular W) (hm : m.Within n) : m.Regular W := by
  induction hm with
  | self => exact h
  | child hc _ ih => exact ih (h.keeps hc).1

theorem isGrouped {t : FunctionType} (h : t.Regular W) : t.IsGrouped := by
  cases h with
  | mk _ _ hparams hresults => exact ⟨hparams, hresults⟩

theorem inShape_expr {e : Expr} (h : e.Regular W) : InShape (.expr e) := by
  cases h with
  | functionLiteral h => exact isGrouped h
  | type hform => exact hform
  | _ => exact trivial

theorem inShape_type {t : TypeExpr} (h : t.Regular W) : InShape (.type t) := by
  cases h with
  | interface _ hshape => exact hshape
  | function h => exact isGrouped h
  | _ => exact trivial

theorem inShape_stmt {s : Stmt} (h : s.Regular W) : InShape (.stmt s) := by
  cases h with
  | declare _ hform => exact hform
  | assign _ _ hlhs hrhs hcompound => exact ⟨hlhs, hrhs, hcompound⟩
  | if_ _ hsimple _ _ _ hform => exact ⟨hsimple, hform⟩
  | for_ _ hinit _ _ hpost => exact ⟨hinit, hpost⟩
  | range _ _ hfirst => exact hfirst
  | select h =>
    intro c hc
    cases h c hc with
    | mk _ hsimple => exact hsimple
  | _ => exact trivial

theorem names_ne_nil {specs : List ValueSpec} (h : ∀ s ∈ specs, s.Regular W) :
    ∀ s ∈ specs, s.names ≠ [] := by
  intro s hs
  cases h s hs with
  | mk hne => exact hne

theorem inShape_decl {d : Decl} (h : d.Regular W) : InShape (.decl d) := by
  cases h with
  | function h =>
    cases h with
    | mk _ _ htype => exact isGrouped htype
  | const h | var h => exact names_ne_nil h
  | type => exact trivial

theorem Regular.inShape (h : n.Regular W) : n.InShape := by
  cases h with
  | alone h =>
    cases h with
    | expr h => exact inShape_expr h
    | type h => exact inShape_type h
    | stmt h => exact inShape_stmt h
    | decl h => exact inShape_decl h
  | element h =>
    cases h with
    | keyValue => exact trivial
    | part h =>
      cases h with
      | value h => exact inShape_expr h
      | untyped => exact trivial

end Node

namespace Answer

/-- The nodes that an answer is made of. -/
def nodes : Answer → List Node
  | .expression e => [.expr e]
  | .type t => [.type t]
  | .block body => body.map .stmt
  | .file f => f.decls.map .decl

/-- Whether an answer is in shape at every depth. -/
structure InShape (a : Answer) : Prop where
  standsAlone : ∀ n ∈ a.nodes, n.StandsAlone
  inShape : ∀ n ∈ a.nodes, ∀ m : Node, m.Within n → m.InShape
  admits : ∀ n ∈ a.nodes, ∀ m : Node, m.Within n → ∀ c ∈ m.children, m.Admits c

theorem inShape_of_regular {W : Piece → Prop} {a : Answer}
    (h : ∀ n ∈ a.nodes, n.RegularAlone W) : a.InShape where
  standsAlone n hn := (h n hn).standsAlone
  inShape n hn _ hm := ((Node.Regular.alone (h n hn)).within hm).inShape
  admits n hn _ hm _ hc := (((Node.Regular.alone (h n hn)).within hm).keeps hc).2

end Answer

namespace Request

open Parse

theorem production_regular (r : Request) {W : Piece → Prop} {g : Grammar}
    (h : RegularGrammar W g) :
    Yields W (r.production g) fun a => ∀ n ∈ a.nodes, n.RegularAlone W := by
  cases r with
  | expression => exact (h.binary_above 1).map fun e he => List.forall_mem_singleton.mpr (.expr he)
  | type => exact h.typeExpr.map fun t ht => List.forall_mem_singleton.mpr (.type ht)
  | block =>
    exact h.block_above.map fun body hbody =>
      List.forall_mem_map.mpr fun s hs => .stmt (hbody s hs)
  | file =>
    exact h.fileOver.map fun f hf => List.forall_mem_map.mpr fun d hd => .decl (hf d hd)

end Request

/-- Whatever the tokens and the place among them, a tree that a parser gives is in shape. -/
theorem inShape_of_ok {r : Request} {s t : Stream} {a : Answer} (h : r.parser s = .ok a t) :
    a.InShape := by
  rw [r.parser_eq] at h
  have hread := r.production_regular (Parse.regular_ofDepth (fun _ => True) (s.rest.length + 1))
  exact Answer.inShape_of_regular (hread s.rest (fun _ _ => trivial) rfl h).1

/-- The tokens of `T{{}, 1: {a}}`. -/
def nestedLiteralTokens : List Token :=
  [(.ident, "T"), Symbol.braceOpen.piece, Symbol.braceOpen.piece, Symbol.braceClose.piece,
    Symbol.comma.piece, (.literal .int, "1"), Symbol.colon.piece, Symbol.braceOpen.piece,
    (.ident, "a"), Symbol.braceClose.piece, Symbol.braceClose.piece].map Token.ofPiece

def nestedLiteral : Expr :=
  .composite (some (.named "T")) [.composite none [],
    .keyValue (.literal ⟨.int, "1"⟩) (.composite none [.ident "a"])]

theorem inShape_nestedLiteral :
    ∃ t, Request.parser .expression (Stream.ofTokens nestedLiteralTokens)
        = .ok (.expression nestedLiteral) t ∧ (Answer.expression nestedLiteral).InShape := by
  have hread : Request.parser .expression (Stream.ofTokens nestedLiteralTokens)
      = .ok (.expression nestedLiteral)
        ⟨nestedLiteralTokens.reverse, [], ⟨Position.origin, Position.origin⟩, true⟩ := by
    rfl
  exact ⟨_, hread, inShape_of_ok hread⟩

end BoundedGo
