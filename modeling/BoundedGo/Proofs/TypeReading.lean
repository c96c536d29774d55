import BoundedGo.Proofs.Climbing
import BoundedGo.Proofs.TypeTrees

/-!
Types are read back from their tokens. A component in parentheses is read whatever follows, so the
only types that care about what comes behind them are names, which a point would go on with, and
functions without results, behind which no type may begin.
Main statement: every well-formed type is read back from its tokens (`typeExpression_reads`).
-/
namespace BoundedGo

namespace Parse

open Grammar

variable {l : Bool} {d : Nat} {C : TokenKind → Prop}

theorem leadKind_parenthesized (ps : List Piece) (next : TokenKind) :
    leadKind (parenthesized ps) next = .symbol .parenOpen := rfl

/-- The tokens that go on with no type. -/
def TypeEnd (k : TokenKind) : Prop :=
  k ≠ .symbol .dot ∧ k ≠ .symbol .parenOpen ∧ startsType k = false

theorem typeEnd_eof : TypeEnd .eof := ⟨by decide, by decide, rfl⟩

theorem typeEnd_parenClose : TypeEnd (.symbol .parenClose) := ⟨by decide, by decide, rfl⟩

theorem typeEnd_semicolon : TypeEnd (.symbol .semicolon) := ⟨by decide, by decide, rfl⟩

/-- A type is read from its tokens by a grammar that is deep enough, and so is the signature of
the type of a function, which also stands behind the name of a method. -/
structure Typable (t : TypeExpr) : Prop where
  takes : ∀ {l : Bool} {d : Nat}, t.pieces.length ≤ d →
    Takes l (typeExpr (ofDepth d)) t.pieces TypeEnd t
  signature : ∀ {type : FunctionType}, t = .function type → ∀ {l : Bool} {d : Nat},
    type.pieces.length ≤ d → Takes l (signature (ofDepth d)) type.pieces TypeEnd type

namespace Typable

variable {t : TypeExpr}

theorem nested (h : Typable t) (hd : t.pieces.length < d) :
    Takes l (ofDepth d).type t.pieces TypeEnd t := by
  cases d with
  | zero => exact absurd hd (Nat.not_lt_zero _)
  | succ d => exact h.takes (Nat.le_of_lt_succ hd)

/-- A component in parentheses. -/
theorem component (h : Typable t) (hd : (parenthesized t.pieces).length < d) :
    Takes l (ofDepth d).type (parenthesized t.pieces) C t := by
  cases d with
  | zero => exact absurd hd (Nat.not_lt_zero _)
  | succ d =>
    have hinner : t.pieces.length < d := by
      simp only [parenthesized, List.length_cons, List.length_append] at hd
      omega
    refine .current_bind fun u hu => ?_
    rw [hu.kind_eq]
    refine .mono ?_ fun _ _ => trivial
    refine .step (.skip _) (.bind (h.nested hinner) (.step (.expectSymbol _) (.pure t)) ?_)
    exact fun _ _ => typeEnd_parenClose

end Typable

namespace Takes

theorem typeName_named (name : String) :
    Takes l (typeName name) [] (· ≠ .symbol .dot) (.named name) :=
  peek (accept_other _) (pure _) fun _ hk => hk

theorem typeExpr_named (g : Grammar) (name : String) :
    Takes l (typeExpr g) [(.ident, name)] (· ≠ .symbol .dot) (.named name) := by
  refine current_bind fun t ht => ?_
  obtain rfl := ht.lexeme_eq rfl
  rw [ht.kind_eq]
  exact step (skip _) (typeName_named _)

/-- A name is read as a type by every grammar that reads types at all. -/
theorem named_nested (name : String) (hd : 0 < d) :
    Takes l (ofDepth d).type [(.ident, name)] (· ≠ .symbol .dot) (.named name) := by
  cases d with
  | zero => exact absurd hd (Nat.not_lt_zero _)
  | succ d => exact typeExpr_named _ name

theorem typeExpr_qualified (g : Grammar) (package name : String) :
    Takes l (typeExpr g) [(.ident, package), Symbol.dot.piece, (.ident, name)] C
      (.qualified package name) := by
  refine mono (current_bind fun t ht => ?_) fun _ _ => trivial
  obtain rfl := ht.lexeme_eq rfl
  rw [ht.kind_eq]
  exact step (skip _) (step (accept rfl) ((identifier name).last (pure _)))

theorem bracketType_array {length : Expr} {element : TypeExpr} (hl : length.WellFormed)
    (h : Typable element)
    (hd : length.pieces.length + (parenthesized element.pieces).length < d) :
    Takes l (bracketType (ofDepth d))
      (length.pieces ++ Symbol.bracketClose.piece :: parenthesized element.pieces) C
      (.array length element) := by
  have hlead : ∀ (qs : List Piece) (k next : TokenKind), Expr.startsTree k = false →
      leadKind (length.pieces ++ qs) next ≠ k := by
    intro qs k next hk
    rw [leadKind_append, ← hl.written_eq]
    exact (hl.placed true).leadKind_ne hk _
  refine peek (accept_other _) (peek (isAt_other _) ?_ fun _ _ => hlead _ _ _ rfl)
    fun _ _ => hlead _ _ _ rfl
  have hlength : Takes true ((ofDepth d).binary 1) length.pieces (ExprEnd true) length := by
    rw [← hl.written_eq] at hd ⊢
    exact (readable_of_placed (hl.placed true)).takes_nested (by omega)
  refine bind (withLiterals hlength) (step (expectSymbol _) ?_) fun _ _ => ⟨rfl, rfl⟩
  exact (h.component (by omega)).last (pure _)

theorem bracketType_slice {element : TypeExpr} (h : Typable element)
    (hd : (parenthesized element.pieces).length < d) :
    Takes l (bracketType (ofDepth d))
      (Symbol.bracketClose.piece :: parenthesized element.pieces) C (.slice element) :=
  step (accept rfl) ((h.component hd).last (pure _))

theorem mapType {key value : TypeExpr} (hk : Typable key) (hv : Typable value)
    (hd : (parenthesized key.pieces).length + (parenthesized value.pieces).length < d) :
    Takes l (Parse.mapType (ofDepth d))
      (Symbol.bracketOpen.piece ::
        (parenthesized key.pieces ++ Symbol.bracketClose.piece :: parenthesized value.pieces)) C
      (.map key value) := by
  have hkey : Takes l (ofDepth d).type (parenthesized key.pieces) Anything key :=
    hk.component (by omega)
  refine step (expectSymbol _) (bind hkey ?_ fun _ _ => trivial)
  exact step (expectSymbol _) ((hv.component (by omega)).last (pure _))

theorem channelType_both {element : TypeExpr} (h : Typable element)
    (hd : (parenthesized element.pieces).length < d) :
    Takes l (channelType (ofDepth d)) (parenthesized element.pieces) C
      (.channel .both element) := by
  refine peek (accept_other _) ((h.component hd).last (pure _)) fun _ _ => ?_
  simp [leadKind_parenthesized]

theorem channelType_send {element : TypeExpr} (h : Typable element)
    (hd : (parenthesized element.pieces).length < d) :
    Takes l (channelType (ofDepth d)) (Symbol.arrow.piece :: parenthesized element.pieces) C
      (.channel .send element) :=
  step (accept rfl) ((h.component hd).last (pure _))

theorem receiveType {element : TypeExpr} (h : Typable element)
    (hd : (parenthesized element.pieces).length < d) :
    Takes l (Parse.receiveType (ofDepth d)) (Keyword.chan.piece :: parenthesized element.pieces) C
      (.channel .receive element) :=
  step (expectKeyword _) ((h.component hd).last (pure _))

end Takes

end Parse

/-- An entry with a name ends a field. -/
theorem Param.group_named (waiting : List String) (name : String) (type : TypeExpr)
    (ps : List Param) :
    group waiting (.named name type :: ps) =
      (group [] ps).map (⟨waiting ++ [name], type⟩ :: ·) := by
  cases waiting <;> simp only [group] <;> cases group [] ps <;> rfl

namespace Field

open Parse

/-- The entries of a parameter list that names with a type make up, with their tokens. -/
def entries (type : TypeExpr) : List String → List (List Piece × Param)
  | [] => [(parenthesized type.pieces, .anonymous type)]
  | [name] => [((.ident, name) :: parenthesized type.pieces, .named name type)]
  | name :: names => ([(.ident, name)], .anonymous (.named name)) :: entries type names

theorem map_fst_entries (type : TypeExpr) (names : List String) :
    (entries type names).map (·.1) = stretches (parenthesized type.pieces) names := by
  induction names with
  | nil => rfl
  | cons name names ih =>
    cases names with
    | nil => rfl
    | cons other names => simpa [entries, stretches] using ih

/-- No entry begins like the end of the list. -/
theorem leadKind_entries {type : TypeExpr} {names : List String} {x : List Piece × Param}
    (hx : x ∈ entries type names) (next : TokenKind) :
    leadKind x.1 next ≠ .symbol .parenClose := by
  induction names with
  | nil =>
    obtain rfl := List.mem_singleton.mp hx
    simp [leadKind_parenthesized]
  | cons name names ih =>
    cases names with
    | nil =>
      obtain rfl := List.mem_singleton.mp hx
      simp
    | cons other names =>
      rcases List.mem_cons.mp hx with rfl | hx
      · simp
      · exact ih hx

/-- The tokens of a type are among those of a list that has a parameter of the type. -/
theorem length_le_paramPieces {fields : List Field} {f : Field} (hf : f ∈ fields) :
    (parenthesized f.type.pieces).length ≤ (commaPieces (paramPieces fields)).length := by
  have hall := length_flatten_le_commaPieces (paramPieces fields)
  obtain ⟨before, behind, rfl⟩ := List.append_of_mem hf
  rw [paramPieces_eq, List.flatMap_append, List.flatMap_cons] at hall ⊢
  simp only [List.flatten_append, List.length_append, flatten_stretches] at hall
  omega

/-- Names that wait get the type of the entry that ends their field. -/
theorem group_entries (type : TypeExpr) (name : String) (names waiting : List String)
    (ps : List Param) :
    Param.group waiting ((entries type (name :: names)).map (·.2) ++ ps) =
      (Param.group [] ps).map (⟨waiting ++ name :: names, type⟩ :: ·) := by
  induction names generalizing name waiting with
  | nil => exact Param.group_named waiting name type ps
  | cons other names ih =>
    simpa [entries, Param.group] using ih other (waiting ++ [name])

theorem group_fields {fields : List Field} (h : ∀ f ∈ fields, f.names ≠ []) :
    Param.group [] (fields.flatMap fun f => (entries f.type f.names).map (·.2)) = some fields := by
  induction fields with
  | nil => rfl
  | cons f fields ih =>
    obtain ⟨names, type⟩ := f
    obtain ⟨name, names, rfl⟩ := List.exists_cons_of_ne_nil (h _ List.mem_cons_self)
    rw [List.flatMap_cons, group_entries, ih fun g hg => h g (List.mem_cons_of_mem _ hg)]
    rfl

theorem any_isNamed_entries (type : TypeExpr) (name : String) (names : List String) :
    ((entries type (name :: names)).map (·.2)).any Param.isNamed := by
  induction names generalizing name with
  | nil => rfl
  | cons other names ih => exact ih other

/-- The entries of fields that all have names, or of which none has, give the fields back. -/
theorem fields?_entries {fields : List Field} (h : NamedAlike fields) :
    Param.fields? (fields.flatMap fun f => (entries f.type f.names).map (·.2)) = some fields := by
  unfold Param.fields?
  rcases h with h | h
  · cases fields with
    | nil => rfl
    | cons f fields =>
      rw [group_fields h, if_pos]
      obtain ⟨names, type⟩ := f
      obtain ⟨name, names, rfl⟩ := List.exists_cons_of_ne_nil (h _ List.mem_cons_self)
      rw [List.flatMap_cons, List.any_append, any_isNamed_entries]
      rfl
  · have hentries : (fields.flatMap fun f => (entries f.type f.names).map (·.2)) =
        fields.map fun f => .anonymous f.type := by
      rw [List.map_eq_flatMap]
      refine List.flatMap_congr fun f hf => ?_
      rw [h f hf]
      rfl
    have hfields : fields.map (fun f => (⟨[], f.type⟩ : Field)) = fields.map id := by
      refine List.map_congr_left fun f hf => ?_
      obtain ⟨names, type⟩ := f
      obtain rfl : names = [] := h _ hf
      rfl
    rw [hentries, if_neg (by simp [Param.isNamed]), List.map_map]
    exact congrArg some (hfields.trans (List.map_id fields))

end Field

namespace Parse

open Grammar

variable {l : Bool} {d : Nat} {C : TokenKind → Prop}

namespace Takes

/-- Behind an entry comes a comma or the end of the list. -/
theorem typeEnd_of_commaOr {k : TokenKind} (h : CommaOr (· = .symbol .parenClose) k) :
    TypeEnd k ∧ (k = .symbol .comma ∨ k = .symbol .parenClose) := by
  rcases h with rfl | rfl
  · exact ⟨⟨by decide, by decide, rfl⟩, .inl rfl⟩
  · exact ⟨typeEnd_parenClose, .inr rfl⟩

theorem param_anonymous {type : TypeExpr} {ps : List Piece}
    (h : Takes l (ofDepth d).type ps (CommaOr (· = .symbol .parenClose)) type)
    (hlead : ∀ k, leadKind ps k ≠ .symbol .ellipsis) :
    Takes l (param (ofDepth d)) ps (CommaOr (· = .symbol .parenClose)) (.anonymous type) := by
  refine peek (accept_other _) (last h (kind_bind fun k hk => ?_)) fun k _ => hlead k
  rcases hk with rfl | rfl <;> exact pure _

theorem param_named {type : TypeExpr} (h : Typable type) (name : String)
    (hd : (parenthesized type.pieces).length < d) :
    Takes l (param (ofDepth d)) ((.ident, name) :: parenthesized type.pieces) C
      (.named name type) := by
  -- The name is read as a type; only the parenthesis behind it shows that it has a type itself.
  have hname : Takes l (ofDepth d).type [(.ident, name)] (· ≠ .symbol .dot) (.named name) :=
    named_nested name (by omega)
  refine peek (accept_other _) (front hname (kind_bind fun k _ => ?_) fun k _ => ?_) fun k _ => ?_
  · rw [leadKind_parenthesized]
    refine peek (accept_other _) ((h.component hd).last (pure _)) fun _ _ => ?_
    simp [leadKind_parenthesized]
  · simp [leadKind_parenthesized]
  · simp

theorem param_entry {type : TypeExpr} (h : Typable type)
    (hd : (parenthesized type.pieces).length < d) {names : List String} {x : List Piece × Param}
    (hx : x ∈ Field.entries type names) :
    Takes l (param (ofDepth d)) x.1 (CommaOr (· = .symbol .parenClose)) x.2 := by
  induction names with
  | nil =>
    obtain rfl := List.mem_singleton.mp hx
    exact param_anonymous (h.component hd) fun k => by simp [leadKind_parenthesized]
  | cons name names ih =>
    cases names with
    | nil =>
      obtain rfl := List.mem_singleton.mp hx
      exact param_named h name hd
    | cons other names =>
      rcases List.mem_cons.mp hx with rfl | hx
      · refine param_anonymous (.mono (named_nested name (by omega)) ?_) fun k => by simp
        exact fun k hk => (typeEnd_of_commaOr hk).1.1
      · exact ih hx

theorem params {fields : List Field} (h : ∀ f ∈ fields, Typable f.type)
    (hnamed : Field.NamedAlike fields)
    (hd : (parenthesized (commaPieces (Field.paramPieces fields))).length ≤ d) :
    Takes l (Parse.params (ofDepth d)) (parenthesized (commaPieces (Field.paramPieces fields))) C
      fields := by
  have hlist : Takes l (Parse.commaClosed .parenClose (param (ofDepth d)))
      (commaPieces (Field.paramPieces fields) ++ [Symbol.parenClose.piece]) Anything
      (fields.flatMap fun f => (Field.entries f.type f.names).map (·.2)) := by
    have hpieces : Field.paramPieces fields =
        (fields.flatMap fun f => Field.entries f.type f.names).map (·.1) := by
      simp only [Field.paramPieces_eq, List.map_flatMap, Field.map_fst_entries]
    rw [hpieces, ← List.map_flatMap]
    refine commaClosed (by decide) (fun x hx => ?_) fun x hx => ?_
    · obtain ⟨f, hf, hx⟩ := List.mem_flatMap.mp hx
      have hlength := Field.length_le_paramPieces hf
      refine param_entry (h f hf) ?_ hx
      simp only [parenthesized, List.length_cons, List.length_append] at hd hlength ⊢
      omega
    · obtain ⟨f, hf, hx⟩ := List.mem_flatMap.mp hx
      exact Field.leadKind_entries hx
  refine mono (step (expectSymbol _) (last hlist ?_)) fun _ _ => trivial
  rw [Field.fields?_entries hnamed]
  exact pure fields

/-- Without results nothing is read behind the parameters. -/
theorem results_nil (g : Grammar) : Takes l (Parse.results g) [] TypeEnd [] := by
  refine kind_bind fun k hk => ?_
  rw [leadKind_nil, if_neg hk.2.1, if_neg (by simp [hk.2.2])]
  exact pure []

theorem signature {type : FunctionType} (hp : ∀ f ∈ type.params, Typable f.type)
    (hr : ∀ f ∈ type.results, Typable f.type) (hparams : Field.NamedAlike type.params)
    (hresults : Field.NamedAlike type.results) (hd : type.pieces.length ≤ d) :
    Takes l (Parse.signature (ofDepth d)) type.pieces TypeEnd type := by
  obtain ⟨params, results⟩ := type
  rw [FunctionType.pieces, List.length_append] at hd
  rw [FunctionType.pieces]
  have hfirst : Takes l (Parse.params (ofDepth d))
      (parenthesized (commaPieces (Field.paramPieces params))) Anything params :=
    Takes.params hp hparams (by omega)
  refine bind hfirst (last ?_ (pure _)) fun _ _ => trivial
  cases results with
  | nil => exact results_nil _
  | cons r rs =>
    refine kind_bind fun k _ => ?_
    exact Takes.params hr hresults (by simpa using Nat.le_of_add_left_le hd)

/-- An embedded field is its type, which shows itself by its first two tokens. -/
theorem untaggedField_embedded {type : TypeExpr} (h : Typable type) (hembedded : type.IsEmbeddable)
    (hd : type.pieces.length < d) :
    Takes l (untaggedField (ofDepth d)) type.pieces (· = .symbol .semicolon) ⟨[], type⟩ := by
  have hfield : Takes l (embeddedField (ofDepth d)) type.pieces (· = .symbol .semicolon)
      ⟨[], type⟩ := by
    refine last ((h.nested hd).mono ?_) (pure _)
    rintro _ rfl
    exact typeEnd_semicolon
  cases type with
  | named name =>
    refine kind_bind fun _ _ => kindAt_bind fun k hk => ?_
    subst hk
    exact hfield
  | qualified package name => exact kind_bind fun _ _ => kindAt_bind fun _ _ => hfield
  | pointer target => exact kind_bind fun _ _ => hfield
  | _ => exact hembedded.elim

theorem names (name : String) (names : List String) :
    Takes l (Parse.commaSeparated Parse.identifier)
      (commaPieces ((name :: names).map fun n => [(.ident, n)])) (· ≠ .symbol .comma)
      (name :: names) := by
  have hlist : Takes l (Parse.commaSeparated Parse.identifier)
      (commaPieces ((([(.ident, name)], name) ::
        names.map fun n => ([(TokenKind.ident, n)], n)).map (·.1))) (· ≠ .symbol .comma)
      ((([(.ident, name)], name) :: names.map fun n => ([(TokenKind.ident, n)], n)).map (·.2)) := by
    refine commaSeparated (fun y hy => ?_) fun _ hk => hk
    rcases List.mem_cons.mp hy with rfl | hy
    · exact (identifier name).mono fun _ _ => trivial
    · obtain ⟨n, -, rfl⟩ := List.mem_map.mp hy
      exact (identifier n).mono fun _ _ => trivial
  simpa [Function.comp_def] using hlist

/-- Behind the first name of a field stands a comma or the parenthesis of its type. -/
theorem untaggedField_named {type : TypeExpr} (h : Typable type) (name : String)
    (others : List String) (hd : (parenthesized type.pieces).length < d) :
    Takes l (untaggedField (ofDepth d))
      (commaPieces ((name :: others).map fun n => [(.ident, n)]) ++ parenthesized type.pieces)
      C ⟨name :: others, type⟩ := by
  have hfield : Takes l (namedField (ofDepth d))
      (commaPieces ((name :: others).map fun n => [(.ident, n)]) ++ parenthesized type.pieces)
      C ⟨name :: others, type⟩ := by
    refine bind (names name others) ((h.component hd).last (pure _)) fun _ _ => ?_
    simp [leadKind_parenthesized]
  refine kind_bind fun _ _ => kindAt_bind fun k _ => ?_
  cases others <;> exact hfield

theorem structField {f : Field} (h : Typable f.type)
    (hembedded : f.names = [] → f.type.IsEmbeddable) (hd : f.structPiece.length < d) :
    Takes l (Parse.structField (ofDepth d)) f.structPiece (· = .symbol .semicolon) f := by
  have huntagged :
      Takes l (untaggedField (ofDepth d)) f.structPiece (· = .symbol .semicolon) f := by
    obtain ⟨_ | ⟨name, names⟩, type⟩ := f
    · exact untaggedField_embedded h (hembedded rfl) hd
    · rw [Field.structPiece, if_neg (by simp), Field.commaPieces_stretches] at hd ⊢
      rw [List.length_append] at hd
      exact untaggedField_named h name names (by omega)
  refine last huntagged (peek (accept_other _) (pure f) ?_)
  rintro _ rfl
  simp

/-- A field of a struct begins with a name or a star. -/
theorem leadKind_structPiece {f : Field} (hembedded : f.names = [] → f.type.IsEmbeddable)
    (next : TokenKind) :
    leadKind f.structPiece next = .ident ∨ leadKind f.structPiece next = .symbol .star := by
  obtain ⟨_ | ⟨name, names⟩, type⟩ := f
  · have hembeddable := hembedded rfl
    cases type with
    | named | qualified => exact .inl rfl
    | pointer => exact .inr rfl
    | _ => exact hembeddable.elim
  · rw [Field.structPiece, if_neg (by simp), Field.commaPieces_stretches]
    exact .inl rfl

/-- Fields in braces, each with a semicolon behind it. -/
theorem fieldsClosed {item : Parse Field} {piece : Field → List Piece} {fields : List Field}
    (h : ∀ f ∈ fields, Takes l item (piece f) (· = .symbol .semicolon) f)
    (hlead : ∀ f ∈ fields, ∀ k, leadKind (piece f) k ≠ .symbol .braceClose ∧
      leadKind (piece f) k ≠ .symbol .semicolon) :
    Takes l (Parse.statementsClosed .braceClose item)
      (endedPieces (fields.map piece) ++ [Symbol.braceClose.piece]) Anything fields := by
  have hlist : Takes l (Parse.statementsClosed .braceClose item)
      (fields.flatMap (fun f => piece f ++ [Symbol.semicolon.piece]) ++
        [Symbol.braceClose.piece]) Anything (fields.map id) :=
    statementsClosed (by decide) h hlead
  simpa [endedPieces, List.flatMap_map] using hlist

theorem structType {fields : List Field} (h : ∀ f ∈ fields, Typable f.type)
    (hembedded : ∀ f ∈ fields, f.names = [] → f.type.IsEmbeddable)
    (hd : (endedPieces (Field.structPieces fields)).length ≤ d) :
    Takes l (Parse.structType (ofDepth d))
      (Symbol.braceOpen.piece ::
        (endedPieces (Field.structPieces fields) ++ [Symbol.braceClose.piece])) C
      (.struct fields) := by
  rw [Field.structPieces_eq] at hd ⊢
  refine mono (step (expectSymbol _) (last (fieldsClosed ?_ ?_) (pure _))) fun _ _ => trivial
  · intro f hf
    have hlength := length_lt_endedPieces (List.mem_map_of_mem (f := Field.structPiece) hf)
    exact structField (h f hf) (hembedded f hf) (by omega)
  · intro f hf k
    rcases leadKind_structPiece (hembedded f hf) k with hk | hk <;> simp [hk]

theorem method {type : FunctionType} (h : Typable (.function type)) (name : String)
    (hd : type.pieces.length ≤ d) :
    Takes l (Parse.method (ofDepth d)) ((.ident, name) :: type.pieces) TypeEnd
      ⟨[name], .function type⟩ :=
  step (identifier name) ((h.signature rfl hd).last (pure _))

/-- In parentheses a type stands alone, so it is no member of a union. -/
theorem embeddedInterface {type : TypeExpr} (h : Typable type)
    (hd : (parenthesized type.pieces).length < d) :
    Takes l (Parse.embeddedInterface (ofDepth d)) (parenthesized type.pieces)
      (· = .symbol .semicolon) ⟨[], type⟩ := by
  refine peek (accept_other _) (last (h.component hd) (last (collect_nil ?_) (pure _))) ?_
  · refine peek (accept_other _) (pure none) ?_
    rintro _ rfl
    simp
  · simp [leadKind_parenthesized]

theorem leadKind_signature (type : FunctionType) (next : TokenKind) :
    leadKind type.pieces next = .symbol .parenOpen := by
  obtain ⟨params, results⟩ := type
  rw [FunctionType.pieces]
  rfl

theorem interfaceElement {f : Field} (h : Typable f.type) (hshape : f.IsElement)
    (hd : f.interfacePiece.length < d) :
    Takes l (Parse.interfaceElement (ofDepth d)) f.interfacePiece (· = .symbol .semicolon) f := by
  obtain ⟨names, type⟩ := f
  rcases hshape with hnames | ⟨name, signature, heq⟩
  · obtain rfl : names = [] := hnames
    refine kind_bind fun _ _ => kindAt_bind fun _ _ => ?_
    exact embeddedInterface h hd
  · obtain ⟨rfl, rfl⟩ := Field.mk.inj heq
    refine kind_bind fun _ _ => kindAt_bind fun k _ => ?_
    rw [if_pos (by rw [leadKind_signature]; rfl)]
    refine (method h name (Nat.le_of_lt (Nat.lt_of_succ_lt hd))).mono ?_
    rintro _ rfl
    exact typeEnd_semicolon

theorem leadKind_interfacePiece (f : Field) (next : TokenKind) :
    leadKind f.interfacePiece next = .ident ∨
      leadKind f.interfacePiece next = .symbol .parenOpen := by
  unfold Field.interfacePiece
  split
  · exact .inl rfl
  · exact .inr rfl

theorem interfaceType {elements : List Field} (h : ∀ f ∈ elements, Typable f.type)
    (hshape : ∀ f ∈ elements, f.IsElement)
    (hd : (endedPieces (Field.interfacePieces elements)).length ≤ d) :
    Takes l (Parse.interfaceType (ofDepth d))
      (Symbol.braceOpen.piece ::
        (endedPieces (Field.interfacePieces elements) ++ [Symbol.braceClose.piece])) C
      (.interface elements) := by
  rw [Field.interfacePieces_eq] at hd ⊢
  refine mono (step (expectSymbol _) (last (fieldsClosed ?_ ?_) (pure _))) fun _ _ => trivial
  · intro f hf
    have hlength := length_lt_endedPieces (List.mem_map_of_mem (f := Field.interfacePiece) hf)
    exact interfaceElement (h f hf) (hshape f hf) (by omega)
  · intro f _ k
    rcases leadKind_interfacePiece f k with hk | hk <;> simp [hk]

end Takes

/-- Every well-formed type is read from its tokens, whatever literals are allowed. -/
theorem typable_of_wellFormed {t : TypeExpr} (h : t.WellFormed) : Typable t := by
  induction h with
  | named name => exact ⟨fun _ => (Takes.typeExpr_named _ name).mono fun _ hk => hk.1, nofun⟩
  | qualified package name => exact ⟨fun _ => .typeExpr_qualified _ package name, nofun⟩
  | @array length element hl _ ih =>
    refine ⟨fun hd => .current_bind fun u hu => ?_, nofun⟩
    rw [hu.kind_eq]
    simp only [TypeExpr.pieces, List.length_cons, List.length_append] at hd
    exact .step (.skip _) (.bracketType_array hl ih (by omega))
  | @slice element _ ih =>
    refine ⟨fun hd => .current_bind fun u hu => ?_, nofun⟩
    rw [hu.kind_eq]
    simp only [TypeExpr.pieces, List.length_cons] at hd
    exact .step (.skip _) (.bracketType_slice ih (by omega))
  | @struct fields _ hembedded ih =>
    refine ⟨fun hd => .current_bind fun u hu => ?_, nofun⟩
    rw [hu.kind_eq]
    simp only [TypeExpr.pieces, List.length_cons, List.length_append] at hd
    exact .step (.skip _) (.structType ih hembedded (by omega))
  | @map key value _ _ ihk ihv =>
    refine ⟨fun hd => .current_bind fun u hu => ?_, nofun⟩
    rw [hu.kind_eq]
    simp only [TypeExpr.pieces, List.length_cons, List.length_append] at hd
    exact .step (.skip _) (.mapType ihk ihv (by omega))
  | @channel direction element _ ih =>
    -- An arrow stands behind `chan` for one direction and in front of it for the other.
    refine ⟨fun hd => ?_, nofun⟩
    cases direction with
    | both =>
      refine .current_bind fun u hu => ?_
      rw [hu.kind_eq]
      exact .step (.skip _) (.channelType_both ih hd)
    | send =>
      refine .current_bind fun u hu => ?_
      rw [hu.kind_eq]
      exact .step (.skip _) (.channelType_send ih (Nat.lt_of_succ_lt hd))
    | receive =>
      refine .current_bind fun u hu => ?_
      rw [hu.kind_eq]
      exact .step (.skip _) (.receiveType ih (Nat.lt_of_succ_lt hd))
  | @interface elements _ hshape ih =>
    refine ⟨fun hd => .current_bind fun u hu => ?_, nofun⟩
    rw [hu.kind_eq]
    simp only [TypeExpr.pieces, List.length_cons, List.length_append] at hd
    exact .step (.skip _) (.interfaceType ih hshape (by omega))
  | @function params results _ _ hparams hresults ihp ihr =>
    have hsignature : ∀ {l : Bool} {d : Nat},
        (FunctionType.pieces ⟨params, results⟩).length ≤ d →
        Takes l (signature (ofDepth d)) (FunctionType.pieces ⟨params, results⟩) TypeEnd
          ⟨params, results⟩ :=
      fun hd => .signature ihp ihr hparams hresults hd
    refine ⟨fun hd => .current_bind fun u hu => ?_, ?_⟩
    · rw [hu.kind_eq]
      exact .step (.skip _) (.last (hsignature (Nat.le_of_succ_le hd)) (.pure _))
    · rintro _ ⟨⟩
      exact hsignature
  | @pointer target _ ih =>
    refine ⟨fun hd => .current_bind fun u hu => ?_, nofun⟩
    rw [hu.kind_eq]
    exact .step (.skip _) (.last (ih.component hd) (.pure _))

/-- The tokens of a well-formed type, with the end of the source behind them, are read as the type,
and the stream stands at the end then. -/
theorem typeExpression_reads {t : TypeExpr} (h : t.WellFormed) {ts : List Token}
    (hts : Shows ts t.pieces) {eof : Token} (heof : eof.kind = .eof) :
    ∃ s, typeExpression (Stream.ofTokens (ts ++ [eof])) = .ok t s ∧
      s.current.kind = .eof ∧ s.cursor = ts.length := by
  have hlength : t.pieces.length ≤ ts.length + 1 := by
    rw [← hts.length_eq]
    exact Nat.le_succ _
  have hreads : Reads true (typeExpr (ofDepth (ts.length + 1))) ts [] t :=
    (typable_of_wellFormed h).takes hlength ts [] hts typeEnd_eof
  refine ⟨⟨ts.reverse, [], eof.span, true⟩, ?_, rfl, by simp [Stream.cursor]⟩
  rw [ofTokens_append_eof heof]
  simpa [typeExpression, Parse.nested] using hreads [] eof.span

/-- A struct of two tables that share a type and an embedded pointer. The tables hold channels of
an interface that has a method with two results and embeds another interface. -/
def tablesType : TypeExpr :=
  .struct
    [⟨["a", "b"],
      .map (.array (.binary .add (.ident "n") (.literal ⟨.int, "1"⟩)) (.named "byte"))
        (.channel .send (.interface
          [⟨["next"], .function
            ⟨[⟨["from", "to"], .named "int"⟩],
              [⟨[], .slice (.named "byte")⟩, ⟨[], .named "bool"⟩]⟩⟩,
            ⟨[], .qualified "io" "Reader"⟩]))⟩,
      ⟨[], .pointer (.channel .receive (.function ⟨[], []⟩))⟩]

theorem tablesType_wellFormed : tablesType.WellFormed := by
  have hlength : (Expr.binary .add (.ident "n") (.literal ⟨.int, "1"⟩)).WellFormed :=
    .binary .add (.ident "n") (.literal ⟨.int, "1"⟩) (by decide) (by decide)
  have hnext : (TypeExpr.function ⟨[⟨["from", "to"], .named "int"⟩],
      [⟨[], .slice (.named "byte")⟩, ⟨[], .named "bool"⟩]⟩).WellFormed := by
    refine .function ?_ ?_ (.inl (by simp)) (.inr (by simp))
    · exact List.forall_mem_singleton.mpr (.named _)
    · simp [TypeExpr.WellFormed.slice, TypeExpr.WellFormed.named]
  have hsource : (TypeExpr.interface [⟨["next"], .function ⟨[⟨["from", "to"], .named "int"⟩],
      [⟨[], .slice (.named "byte")⟩, ⟨[], .named "bool"⟩]⟩⟩,
      ⟨[], .qualified "io" "Reader"⟩]).WellFormed :=
    .interface (by simp [hnext, TypeExpr.WellFormed.qualified]) (by simp [Field.IsElement])
  have hcallback : (TypeExpr.function ⟨[], []⟩).WellFormed :=
    .function (by simp) (by simp) (.inr (by simp)) (.inr (by simp))
  refine .struct ?_ (by simp [TypeExpr.IsEmbeddable])
  simp only [List.forall_mem_cons, List.not_mem_nil, false_implies, implies_true, and_true]
  exact ⟨.map (.array hlength (.named _)) (.channel _ hsource), .pointer (.channel _ hcallback)⟩

theorem typeExpression_reads_tablesType :
    tablesType.pieces.map (·.2) =
      ["struct", "\x7b", "a", ",", "b", "(", "map", "[", "(", "[", "n", "+", "1", "]", "(", "byte",
        ")", ")", "]", "(", "chan", "<-", "(", "interface", "\x7b", "next", "(", "from", ",", "to",
        "(", "int", ")", ")", "(", "(", "[", "]", "(", "byte", ")", ")", ",", "(", "bool", ")", ")",
        ";", "(", "io", ".", "Reader", ")", ";", "\x7d", ")", ")", ")", ";", "*", "(", "<-", "chan",
        "(", "func", "(", ")", ")", ")", ";", "\x7d"] ∧
    ∃ s, typeExpression (Stream.ofTokens
        (tablesType.pieces.map Token.ofPiece ++ [.ofPiece (.eof, "")])) = .ok tablesType s ∧
      s.current.kind = .eof ∧ s.cursor = (tablesType.pieces.map Token.ofPiece).length :=
  ⟨rfl, typeExpression_reads tablesType_wellFormed (.ofPieces _) rfl⟩

end Parse

end BoundedGo
