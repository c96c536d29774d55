import BoundedGo.Restriction
import Mathlib.Data.List.Forall2

/-!
Where the forbidden constructs of a file stand. A syntax tree has expressions, types, statements
and declarations as its nodes; the children of a node are given in the order of the source, with
nothing left out, also below the nodes that are forbidden. Reading a tree from the top and from
left to right meets every node once, each with the nodes that it lies in.
Main statement: the violations of a file are the forbidden nodes that lie in no other forbidden
node, in that order, and a file is accepted when no node of it is forbidden (`validate_exact`).
-/
namespace BoundedGo

/-- The parts of a syntax tree that are constructs of their own. -/
inductive Node
  | expr (e : Expr)
  | type (t : TypeExpr)
  | stmt (s : Stmt)
  | decl (d : Decl)

def Field.nodes (fs : List Field) : List Node :=
  fs.map (fun f => .type f.type)

def FunctionType.nodes (t : FunctionType) : List Node :=
  Field.nodes t.params ++ Field.nodes t.results

def ValueSpec.nodes (s : ValueSpec) : List Node :=
  s.type.toList.map .type ++ s.values.map .expr

def CommClause.nodes (c : CommClause) : List Node :=
  c.comm.toList.map .stmt ++ c.body.map .stmt

def FunctionDecl.nodes (f : FunctionDecl) : List Node :=
  Field.nodes f.receiver.toList ++ f.type.nodes ++ (f.body.getD []).map .stmt

def Expr.children : Expr → List Node
  | .ident _ => []
  | .literal _ => []
  | .paren inner => [.expr inner]
  | .unary _ operand => [.expr operand]
  | .binary _ lhs rhs => [.expr lhs, .expr rhs]
  | .call callee arguments => .expr callee :: arguments.map .expr
  | .selector base _ => [.expr base]
  | .index base place => [.expr base, .expr place]
  | .composite written elements => written.toList.map .type ++ elements.map .expr
  | .keyValue key value => [.expr key, .expr value]
  | .functionLiteral signature body => signature.nodes ++ body.map .stmt
  | .type operand => [.type operand]

def TypeExpr.children : TypeExpr → List Node
  | .named _ => []
  | .qualified _ _ => []
  | .array length element => [.expr length, .type element]
  | .slice element => [.type element]
  | .struct fields => Field.nodes fields
  | .map key value => [.type key, .type value]
  | .channel _ element => [.type element]
  | .interface elements => Field.nodes elements
  | .function signature => signature.nodes
  | .pointer target => [.type target]

def Stmt.children : Stmt → List Node
  | .declare decl => [.decl decl]
  | .assign lhs _ rhs => lhs.map .expr ++ rhs.map .expr
  | .incDec target _ => [.expr target]
  | .expr value => [.expr value]
  | .return_ values => values.map .expr
  | .if_ init condition body orElse =>
    init.toList.map .stmt ++ .expr condition :: (body.map .stmt ++ orElse.toList.map .stmt)
  | .for_ init condition post body =>
    init.toList.map .stmt ++ condition.toList.map .expr ++ post.toList.map .stmt ++ body.map .stmt
  | .range key value _ subject body =>
    key.toList.map .expr ++ value.toList.map .expr ++ .expr subject :: body.map .stmt
  | .go started => [.expr started]
  | .send channel value => [.expr channel, .expr value]
  | .select clauses => clauses.flatMap CommClause.nodes
  | .block body => body.map .stmt
  | .jump _ => []
  | .empty => []

def Decl.children : Decl → List Node
  | .function decl => decl.nodes
  | .const specs => specs.flatMap ValueSpec.nodes
  | .var specs => specs.flatMap ValueSpec.nodes
  | .type specs => specs.map (fun s => .type s.type)

namespace Node

def children : Node → List Node
  | .expr e => e.children
  | .type t => t.children
  | .stmt s => s.children
  | .decl d => d.children

/-- The feature that makes a node forbidden, whatever it holds. -/
def feature? : Node → Option Feature
  | .stmt (.for_ ..) => some .loop
  | .stmt (.range ..) => some .loop
  | .stmt (.go _) => some .goroutine
  | .stmt (.send ..) => some .channel
  | .stmt (.select _) => some .channel
  | .type (.slice _) => some .slice
  | .type (.map ..) => some .map
  | .type (.channel ..) => some .channel
  | .type (.interface _) => some .interface
  | _ => none

def isForbidden (n : Node) : Bool := n.feature?.isSome

/-- A node of the tree below another node, or that node itself. -/
inductive Within : Node → Node → Prop
  | self (n : Node) : Within n n
  | child {n c m : Node} (hc : c ∈ n.children) (hm : Within m c) : Within m n

end Node

/-! Every child is smaller than its node, so a tree can be read by going down. -/

section Size

variable {c : Node}

theorem Expr.sizeOf_le_of_mem_nodes {es : List Expr} (h : c ∈ es.map Node.expr) :
    sizeOf c ≤ sizeOf es := by
  obtain ⟨e, he, rfl⟩ := List.mem_map.mp h
  have hlist := List.sizeOf_lt_of_mem he
  simp only [Node.expr.sizeOf_spec]
  omega

theorem Stmt.sizeOf_le_of_mem_nodes {ss : List Stmt} (h : c ∈ ss.map Node.stmt) :
    sizeOf c ≤ sizeOf ss := by
  obtain ⟨s, hs, rfl⟩ := List.mem_map.mp h
  have hlist := List.sizeOf_lt_of_mem hs
  simp only [Node.stmt.sizeOf_spec]
  omega

theorem Field.sizeOf_lt_of_mem_nodes {fs : List Field} (h : c ∈ Field.nodes fs) :
    sizeOf c < sizeOf fs := by
  obtain ⟨f, hf, rfl⟩ := List.mem_map.mp h
  have hlist := List.sizeOf_lt_of_mem hf
  have hfield : sizeOf f = 1 + sizeOf f.names + sizeOf f.type := by cases f; rfl
  simp only [Node.type.sizeOf_spec]
  omega

/-- What an optional part gives is not larger than the option. -/
theorem Node.sizeOf_le_of_mem_option {α : Type} [SizeOf α] {node : α → Node} {o : Option α}
    (hnode : ∀ a, sizeOf (node a) = 1 + sizeOf a) (h : c ∈ o.toList.map node) :
    sizeOf c ≤ sizeOf o := by
  cases o with
  | none => simp at h
  | some a =>
    obtain rfl : c = node a := by simpa using h
    simp [hnode]

theorem FunctionType.sizeOf_lt_of_mem_nodes {t : FunctionType} (h : c ∈ t.nodes) :
    sizeOf c < sizeOf t := by
  obtain ⟨params, results⟩ := t
  rcases List.mem_append.mp h with h | h
  · have hpart : sizeOf c < sizeOf params := Field.sizeOf_lt_of_mem_nodes h
    simp only [FunctionType.mk.sizeOf_spec]
    omega
  · have hpart : sizeOf c < sizeOf results := Field.sizeOf_lt_of_mem_nodes h
    simp only [FunctionType.mk.sizeOf_spec]
    omega

theorem ValueSpec.sizeOf_lt_of_mem_nodes {s : ValueSpec} (h : c ∈ s.nodes) :
    sizeOf c < sizeOf s := by
  obtain ⟨names, type, values⟩ := s
  rcases List.mem_append.mp h with h | h
  · have hpart : sizeOf c ≤ sizeOf type := Node.sizeOf_le_of_mem_option (fun _ => by rfl) h
    simp only [ValueSpec.mk.sizeOf_spec]
    omega
  · have hpart : sizeOf c ≤ sizeOf values := Expr.sizeOf_le_of_mem_nodes h
    simp only [ValueSpec.mk.sizeOf_spec]
    omega

theorem CommClause.sizeOf_lt_of_mem_nodes {k : CommClause} (h : c ∈ k.nodes) :
    sizeOf c < sizeOf k := by
  obtain ⟨comm, body⟩ := k
  rcases List.mem_append.mp h with h | h
  · have hpart : sizeOf c ≤ sizeOf comm := Node.sizeOf_le_of_mem_option (fun _ => by rfl) h
    simp only [CommClause.mk.sizeOf_spec]
    omega
  · have hpart : sizeOf c ≤ sizeOf body := Stmt.sizeOf_le_of_mem_nodes h
    simp only [CommClause.mk.sizeOf_spec]
    omega

theorem FunctionDecl.sizeOf_lt_of_mem_nodes {f : FunctionDecl} (h : c ∈ f.nodes) :
    sizeOf c < sizeOf f := by
  obtain ⟨name, receiver, type, body⟩ := f
  simp only [FunctionDecl.nodes, List.mem_append] at h
  simp only [FunctionDecl.mk.sizeOf_spec]
  rcases h with (h | h) | h
  · cases receiver with
    | none => simp [Field.nodes] at h
    | some field =>
      have := Field.sizeOf_lt_of_mem_nodes h
      simp at this ⊢
      omega
  · have := FunctionType.sizeOf_lt_of_mem_nodes h
    omega
  · cases body with
    | none => simp at h
    | some body =>
      have := Stmt.sizeOf_le_of_mem_nodes h
      simp at this ⊢
      omega

theorem Expr.sizeOf_le_of_mem_children {e : Expr} (h : c ∈ e.children) :
    sizeOf c ≤ sizeOf e := by
  cases e with
  | ident | literal => simp [Expr.children] at h
  | paren | unary | selector | type =>
    obtain rfl := List.mem_singleton.mp h
    simp
  | binary | index | keyValue =>
    rcases List.mem_pair.mp h with rfl | rfl <;> simp <;> omega
  | call callee arguments =>
    rcases List.mem_cons.mp h with rfl | h
    · simp
    · have := Expr.sizeOf_le_of_mem_nodes h
      simp
      omega
  | composite written elements =>
    rcases List.mem_append.mp h with h | h
    · have := Node.sizeOf_le_of_mem_option (fun _ => by rfl) h
      simp
      omega
    · have := Expr.sizeOf_le_of_mem_nodes h
      simp
      omega
  | functionLiteral signature body =>
    rcases List.mem_append.mp h with h | h
    · have := FunctionType.sizeOf_lt_of_mem_nodes h
      simp
      omega
    · have := Stmt.sizeOf_le_of_mem_nodes h
      simp
      omega

theorem TypeExpr.sizeOf_le_of_mem_children {t : TypeExpr} (h : c ∈ t.children) :
    sizeOf c ≤ sizeOf t := by
  cases t with
  | named | qualified => simp [TypeExpr.children] at h
  | slice | channel | pointer =>
    obtain rfl := List.mem_singleton.mp h
    simp
  | array | map =>
    rcases List.mem_pair.mp h with rfl | rfl <;> simp
  | struct | interface =>
    have := Field.sizeOf_lt_of_mem_nodes h
    simp
    omega
  | function signature =>
    have := FunctionType.sizeOf_lt_of_mem_nodes h
    simp
    omega

theorem Stmt.sizeOf_le_of_mem_children {s : Stmt} (h : c ∈ s.children) :
    sizeOf c ≤ sizeOf s := by
  cases s with
  | jump | empty => simp [Stmt.children] at h
  | declare | incDec | expr | go =>
    obtain rfl := List.mem_singleton.mp h
    simp
  | send =>
    rcases List.mem_pair.mp h with rfl | rfl <;> simp
  | assign lhs op rhs =>
    rcases List.mem_append.mp h with h | h <;>
      have := Expr.sizeOf_le_of_mem_nodes h <;> simp <;> omega
  | return_ values =>
    have := Expr.sizeOf_le_of_mem_nodes h
    simp
    omega
  | block body =>
    have := Stmt.sizeOf_le_of_mem_nodes h
    simp
    omega
  | if_ init condition body orElse =>
    simp only [Stmt.children, List.mem_append, List.mem_cons] at h
    rcases h with h | rfl | h | h
    · have := Node.sizeOf_le_of_mem_option (fun _ => by rfl) h
      simp
      omega
    · simp
      omega
    · have := Stmt.sizeOf_le_of_mem_nodes h
      simp
      omega
    · have := Node.sizeOf_le_of_mem_option (fun _ => by rfl) h
      simp
      omega
  | for_ init condition post body =>
    simp only [Stmt.children, List.mem_append] at h
    rcases h with ((h | h) | h) | h
    · have := Node.sizeOf_le_of_mem_option (fun _ => by rfl) h
      simp
      omega
    · have := Node.sizeOf_le_of_mem_option (fun _ => by rfl) h
      simp
      omega
    · have := Node.sizeOf_le_of_mem_option (fun _ => by rfl) h
      simp
      omega
    · have := Stmt.sizeOf_le_of_mem_nodes h
      simp
      omega
  | range key value define subject body =>
    simp only [Stmt.children, List.mem_append, List.mem_cons] at h
    rcases h with (h | h) | rfl | h
    · have := Node.sizeOf_le_of_mem_option (fun _ => by rfl) h
      simp
      omega
    · have := Node.sizeOf_le_of_mem_option (fun _ => by rfl) h
      simp
      omega
    · simp
      omega
    · have := Stmt.sizeOf_le_of_mem_nodes h
      simp
      omega
  | select clauses =>
    obtain ⟨k, hk, hc⟩ := List.mem_flatMap.mp h
    have hlist := List.sizeOf_lt_of_mem hk
    have := CommClause.sizeOf_lt_of_mem_nodes hc
    simp
    omega

theorem Decl.sizeOf_le_of_mem_children {d : Decl} (h : c ∈ d.children) :
    sizeOf c ≤ sizeOf d := by
  cases d with
  | function f =>
    have := FunctionDecl.sizeOf_lt_of_mem_nodes h
    simp
    omega
  | const specs | var specs =>
    obtain ⟨s, hs, hc⟩ := List.mem_flatMap.mp h
    have hlist := List.sizeOf_lt_of_mem hs
    have := ValueSpec.sizeOf_lt_of_mem_nodes hc
    simp
    omega
  | type specs =>
    obtain ⟨s, hs, rfl⟩ := List.mem_map.mp h
    have hlist := List.sizeOf_lt_of_mem hs
    have hspec : sizeOf s = 1 + sizeOf s.name + sizeOf s.isAlias + sizeOf s.type := by
      cases s
      rfl
    simp
    omega

theorem Node.sizeOf_lt_of_mem_children {n : Node} (h : c ∈ n.children) :
    sizeOf c < sizeOf n := by
  cases n with
  | expr e =>
    have := Expr.sizeOf_le_of_mem_children h
    simp
    omega
  | type t =>
    have := TypeExpr.sizeOf_le_of_mem_children h
    simp
    omega
  | stmt s =>
    have := Stmt.sizeOf_le_of_mem_children h
    simp
    omega
  | decl d =>
    have := Decl.sizeOf_le_of_mem_children h
    simp
    omega

end Size

namespace Node

/-- The nodes of a tree from the top and from left to right, each with the nodes that it lies in,
the nearest first. -/
def preorder (above : List Node) (n : Node) : List (List Node × Node) :=
  (above, n) :: n.children.attach.flatMap fun c => c.val.preorder (n :: above)
termination_by sizeOf n
decreasing_by exact sizeOf_lt_of_mem_children c.property

/-- Whether a node is forbidden and lies in no other forbidden node. -/
def isOutermost (visit : List Node × Node) : Bool :=
  visit.2.isForbidden && !visit.1.any isForbidden

/-- The forbidden nodes of a tree that lie in no other forbidden node, in preorder. -/
def outermost (n : Node) : List Node :=
  ((n.preorder []).filter isOutermost).map Prod.snd

/-- What is reported of a node and of all that lies in it. -/
def features : Node → List Feature
  | .expr e => e.features
  | .type t => t.features
  | .stmt s => s.features
  | .decl d => d.features

end Node

/-! Lists are reported part by part. -/

theorem Expr.featuresOf_eq (es : List Expr) :
    Expr.featuresOf es = (es.map Node.expr).flatMap Node.features := by
  induction es with
  | nil => simp [Expr.featuresOf]
  | cons e es ih => simp [Expr.featuresOf, ih, Node.features]

theorem Stmt.featuresOf_eq (ss : List Stmt) :
    Stmt.featuresOf ss = (ss.map Node.stmt).flatMap Node.features := by
  induction ss with
  | nil => simp [Stmt.featuresOf]
  | cons s ss ih => simp [Stmt.featuresOf, ih, Node.features]

theorem Field.featuresOf_eq (fs : List Field) :
    Field.featuresOf fs = (Field.nodes fs).flatMap Node.features := by
  induction fs with
  | nil => simp [Field.featuresOf, Field.nodes]
  | cons f fs ih =>
    obtain ⟨names, type⟩ := f
    simp [Field.featuresOf, Field.features, ih, Field.nodes, Node.features]

theorem FunctionType.features_eq (t : FunctionType) :
    t.features = t.nodes.flatMap Node.features := by
  obtain ⟨params, results⟩ := t
  simp [FunctionType.features, FunctionType.nodes, Field.featuresOf_eq]

theorem ValueSpec.featuresOf_eq (specs : List ValueSpec) :
    ValueSpec.featuresOf specs = (specs.flatMap ValueSpec.nodes).flatMap Node.features := by
  induction specs with
  | nil => simp [ValueSpec.featuresOf]
  | cons s specs ih =>
    obtain ⟨names, type, values⟩ := s
    cases type <;>
      simp [ValueSpec.featuresOf, ValueSpec.features, ValueSpec.nodes, ih, Expr.featuresOf_eq,
        Node.features]

theorem TypeSpec.featuresOf_eq (specs : List TypeSpec) :
    TypeSpec.featuresOf specs = (specs.map (fun s => Node.type s.type)).flatMap Node.features := by
  induction specs with
  | nil => simp [TypeSpec.featuresOf]
  | cons s specs ih =>
    obtain ⟨name, isAlias, type⟩ := s
    simp [TypeSpec.featuresOf, TypeSpec.features, ih, Node.features]

theorem FunctionDecl.features_eq (f : FunctionDecl) :
    f.features = f.nodes.flatMap Node.features := by
  obtain ⟨name, receiver, type, body⟩ := f
  rcases receiver with _ | ⟨names, fieldType⟩ <;> cases body <;>
    simp [FunctionDecl.features, FunctionDecl.nodes, Field.features, Field.nodes,
      FunctionType.features_eq, Stmt.featuresOf_eq, Node.features]

namespace Node

/-- A forbidden node is reported by itself, any other node by its children. -/
theorem features_eq (n : Node) :
    n.features = match n.feature? with
      | some feature => [feature]
      | none => n.children.flatMap features := by
  cases n with
  | expr e =>
    cases e with
    | composite written elements =>
      cases written <;>
        simp [features, feature?, children, Expr.children, Expr.features, Expr.featuresOf_eq]
    | _ =>
      simp [features, feature?, children, Expr.children, Expr.features, Expr.featuresOf_eq,
        FunctionType.features_eq, Stmt.featuresOf_eq]
  | type t =>
    cases t <;>
      simp [features, feature?, children, TypeExpr.children, TypeExpr.features,
        Field.featuresOf_eq, FunctionType.features_eq]
  | stmt s =>
    cases s with
    | if_ init condition body orElse =>
      cases init <;> cases orElse <;>
        simp [features, feature?, children, Stmt.children, Stmt.features, Stmt.featuresOf_eq]
    | _ =>
      simp [features, feature?, children, Stmt.children, Stmt.features, Stmt.featuresOf_eq,
        Expr.featuresOf_eq]
  | decl d =>
    cases d <;>
      simp [features, feature?, children, Decl.children, Decl.features, ValueSpec.featuresOf_eq,
        TypeSpec.featuresOf_eq, FunctionDecl.features_eq]

/-- What holds of a node when it holds of its children holds of every node. -/
theorem induction {P : Node → Prop} (step : ∀ n, (∀ c ∈ n.children, P c) → P n) (n : Node) :
    P n :=
  step n fun c _ => induction step c
termination_by sizeOf n
decreasing_by exact sizeOf_lt_of_mem_children (by assumption)

theorem preorder_eq (above : List Node) (n : Node) :
    n.preorder above = (above, n) :: n.children.flatMap (preorder (n :: above)) := by
  rw [preorder, List.flatMap_subtype fun _ _ => rfl, List.unattach_attach]

/-- Below a forbidden node nothing is outermost. -/
theorem filter_preorder_eq_nil {above : List Node} (habove : above.any isForbidden) (n : Node) :
    (n.preorder above).filter isOutermost = [] := by
  induction n using Node.induction generalizing above with
  | step n ih =>
    have hbelow : (n :: above).any isForbidden := by simp [habove]
    have hself : ¬ isOutermost (above, n) := by simp [isOutermost, habove]
    rw [preorder_eq, List.filter_cons_of_neg hself, List.filter_flatMap]
    exact List.flatMap_eq_nil_iff.mpr fun c hc => ih c hc hbelow

/-- The features of the outermost nodes are what is reported, wherever the tree stands as long as
nothing above it is forbidden. -/
theorem features_of_outermost {above : List Node} (habove : ¬ above.any isForbidden) (n : Node) :
    (((n.preorder above).filter isOutermost).map Prod.snd).filterMap feature? = n.features := by
  induction n using Node.induction generalizing above with
  | step n ih =>
    rw [features_eq, preorder_eq, List.filterMap_map]
    cases hfeature : n.feature? with
    | some feature =>
      have hself : isOutermost (above, n) := by
        simpa [isOutermost, isForbidden, hfeature] using habove
      have hbelow : (n :: above).any isForbidden := by simp [isForbidden, hfeature]
      have hrest : (n.children.flatMap (preorder (n :: above))).filter isOutermost = [] := by
        rw [List.filter_flatMap]
        exact List.flatMap_eq_nil_iff.mpr fun c _ => filter_preorder_eq_nil hbelow c
      rw [List.filter_cons_of_pos hself, hrest]
      simp [hfeature]
    | none =>
      have hself : ¬ isOutermost (above, n) := by simp [isOutermost, isForbidden, hfeature]
      have hbelow : ¬ (n :: above).any isForbidden := by
        simpa [isForbidden, hfeature] using habove
      rw [List.filter_cons_of_neg hself, List.filter_flatMap, List.filterMap_flatMap]
      refine List.flatMap_congr fun c hc => ?_
      rw [← ih c hc hbelow, List.filterMap_map]

theorem filterMap_outermost (n : Node) : n.outermost.filterMap feature? = n.features :=
  features_of_outermost (by simp) n

/-- Reading a tree in preorder meets the nodes within it and no others. -/
theorem mem_preorder_iff {above : List Node} {m n : Node} :
    m ∈ (n.preorder above).map Prod.snd ↔ Within m n := by
  induction n using Node.induction generalizing above with
  | step n ih =>
    rw [preorder_eq, List.map_cons, List.mem_cons, List.map_flatMap, List.mem_flatMap]
    constructor
    · rintro (rfl | ⟨c, hc, hm⟩)
      · exact .self m
      · exact .child hc ((ih c hc).mp hm)
    · intro h
      cases h with
      | self => exact .inl rfl
      | child hc hm => exact .inr ⟨_, hc, (ih _ hc).mpr hm⟩

/-- Nothing is reported of a tree exactly if no node within it is forbidden. -/
theorem features_eq_nil_iff (n : Node) :
    n.features = [] ↔ ∀ m, Within m n → m.feature? = none := by
  induction n using Node.induction with
  | step n ih =>
    rw [features_eq]
    constructor
    · intro h m hm
      cases hfeature : n.feature? with
      | some feature => simp [hfeature] at h
      | none =>
        simp only [hfeature, List.flatMap_eq_nil_iff] at h
        cases hm with
        | self => exact hfeature
        | child hc hm => exact (ih _ hc).mp (h _ hc) m hm
    · intro h
      rw [h n (.self n)]
      exact List.flatMap_eq_nil_iff.mpr fun c hc =>
        (ih c hc).mpr fun m hm => h m (.child hc hm)

end Node

namespace File

/-- A node occurs in a file if it lies within one of its declarations. -/
def Holds (file : File) (n : Node) : Prop :=
  ∃ d ∈ file.decls, Node.Within n (.decl d)

/-- The outermost forbidden nodes of a file in the order of the source, each with the top-level
declaration that it stands in. -/
def outermost (file : File) : List (Node × Decl) :=
  file.decls.flatMap fun d => (Node.decl d).outermost.map fun n => (n, d)

/-- What the check of a file reports, which is nothing if it accepts the file. -/
def reported (file : File) : List Violation :=
  match file.validate with
  | .ok () => []
  | .error violations => violations

end File

/-- A violation speaks of a node by its feature and the label of its declaration. -/
def Violation.Reports (v : Violation) (found : Node × Decl) : Prop :=
  found.1.feature? = some v.feature ∧ v.context = found.2.label

namespace File

theorem validate_eq_ok_iff (file : File) : file.validate = .ok () ↔ file.violations = [] := by
  unfold validate
  cases file.violations <;> simp

theorem validate_eq_error_iff (file : File) (vs : List Violation) :
    file.validate = .error vs ↔ vs ≠ [] ∧ file.violations = vs := by
  unfold validate
  cases hvs : file.violations with
  | nil =>
    simp only [reduceCtorEq, false_iff, not_and]
    intro hne heq
    exact hne heq.symm
  | cons v rest =>
    simp only [Except.error.injEq]
    constructor
    · rintro rfl
      exact ⟨by simp, rfl⟩
    · exact And.right

theorem reported_eq (file : File) : file.reported = file.violations := by
  unfold reported validate
  cases file.violations <;> rfl

end File

theorem Decl.violations_eq_nil_iff (d : Decl) :
    d.violations = [] ↔ ∀ n, Node.Within n (.decl d) → n.feature? = none := by
  rw [Decl.violations, List.map_eq_nil_iff]
  exact Node.features_eq_nil_iff (.decl d)

/-- A file has no violations exactly if no node of it is forbidden. -/
theorem File.violations_eq_nil_iff (file : File) :
    file.violations = [] ↔ ∀ n, file.Holds n → n.feature? = none := by
  rw [File.violations, List.flatMap_eq_nil_iff]
  constructor
  · rintro h n ⟨d, hd, hn⟩
    exact (Decl.violations_eq_nil_iff d).mp (h d hd) n hn
  · intro h d hd
    exact (Decl.violations_eq_nil_iff d).mpr fun n hn => h n ⟨d, hd, hn⟩

namespace Node

theorem isForbidden_of_mem_outermost {m n : Node} (h : m ∈ n.outermost) : m.isForbidden := by
  obtain ⟨visit, hvisit, rfl⟩ := List.mem_map.mp h
  have hkept := (List.mem_filter.mp hvisit).2
  exact (Bool.and_eq_true_iff.mp hkept).1

/-- Forbidden nodes have one feature each. -/
theorem forall₂_feature {ns : List Node} (h : ∀ n ∈ ns, n.isForbidden) :
    List.Forall₂ (fun n feature => n.feature? = some feature) ns (ns.filterMap feature?) := by
  induction ns with
  | nil => exact .nil
  | cons n ns ih =>
    obtain ⟨feature, hfeature⟩ := Option.isSome_iff_exists.mp (h n (List.mem_cons_self ..))
    rw [List.filterMap_cons_some hfeature]
    exact .cons hfeature (ih fun m hm => h m (List.mem_cons_of_mem n hm))

end Node

/-- One violation for every outermost node of a declaration. -/
theorem Decl.forall₂_reports (d : Decl) :
    List.Forall₂ (fun found v => Violation.Reports v found)
      ((Node.decl d).outermost.map fun n => (n, d)) d.violations := by
  have hfeatures : d.features = (Node.decl d).outermost.filterMap Node.feature? :=
    (Node.filterMap_outermost (.decl d)).symm
  rw [Decl.violations, hfeatures, List.forall₂_map_left_iff, List.forall₂_map_right_iff]
  refine (Node.forall₂_feature fun n => Node.isForbidden_of_mem_outermost).imp ?_
  intro n feature hfeature
  exact ⟨hfeature, rfl⟩

theorem File.forall₂_reports (file : File) :
    List.Forall₂ (fun found v => Violation.Reports v found) file.outermost file.violations := by
  unfold File.outermost File.violations
  induction file.decls with
  | nil => exact .nil
  | cons d ds ih => exact List.rel_append d.forall₂_reports ih

/-- A node with its declaration settles the violation. -/
theorem Violation.reports_unique :
    Relator.RightUnique (fun (found : Node × Decl) v => Violation.Reports v found) := by
  rintro found ⟨feature, context⟩ ⟨feature', context'⟩ ⟨hfeature, hcontext⟩ ⟨hfeature', hcontext'⟩
  obtain rfl : feature = feature' := Option.some.inj (hfeature.symm.trans hfeature')
  obtain rfl : context = context' := hcontext.trans hcontext'.symm
  rfl

/-- The check of a file is exact. It accepts the file if no node of it is forbidden, at any depth.
Otherwise it reports the forbidden nodes that lie in no other forbidden node, one violation each,
in the order of the source. What is reported of a list of declarations is what is reported of its
parts, one after the other. -/
theorem validate_exact (file : File) :
    (file.validate = .ok () ↔ ∀ n, file.Holds n → n.feature? = none) ∧
    (∀ vs, file.validate = .error vs ↔
      vs ≠ [] ∧ List.Forall₂ (fun found v => Violation.Reports v found) file.outermost vs) ∧
    (∀ front back, File.reported { file with decls := front ++ back } =
      File.reported { file with decls := front } ++ File.reported { file with decls := back }) := by
  refine ⟨?_, ?_, ?_⟩
  · rw [file.validate_eq_ok_iff, file.violations_eq_nil_iff]
  · intro vs
    rw [file.validate_eq_error_iff]
    constructor
    · rintro ⟨hne, rfl⟩
      exact ⟨hne, file.forall₂_reports⟩
    · rintro ⟨hne, hvs⟩
      exact ⟨hne, List.right_unique_forall₂' Violation.reports_unique file.forall₂_reports hvs⟩
  · intro front back
    simp only [File.reported_eq, File.violations, List.flatMap_append]

end BoundedGo
