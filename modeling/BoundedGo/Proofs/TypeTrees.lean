import BoundedGo.Proofs.OperatorTrees
import BoundedGo.Proofs.Taking

/-!
Types written as tokens. Every type that is a component of another one stands in parentheses; the
fields of a struct and the elements of an interface end in a semicolon, and results stand in
parentheses if there are any. An embedded field of a struct is its type and nothing else, so the
type itself has no parentheses, and only names and pointers can be embedded.
-/
namespace BoundedGo

def parenthesized (ps : List Piece) : List Piece :=
  Symbol.parenOpen.piece :: (ps ++ [Symbol.parenClose.piece])

/-- Every piece list with a semicolon behind it. -/
def endedPieces (pss : List (List Piece)) : List Piece :=
  pss.flatMap (· ++ [Symbol.semicolon.piece])

/-- Names that share a component; all but the last of them stand alone. Without names it is the
component alone. -/
def Field.stretches (component : List Piece) : List String → List (List Piece)
  | [] => [component]
  | [name] => [(.ident, name) :: component]
  | name :: names => [(.ident, name)] :: stretches component names

open Parse (commaPieces)

mutual

/-- The tokens of a type. -/
def TypeExpr.pieces : TypeExpr → List Piece
  | .named name => [(.ident, name)]
  | .qualified package name => [(.ident, package), Symbol.dot.piece, (.ident, name)]
  | .array length element =>
    Symbol.bracketOpen.piece ::
      (length.pieces ++ Symbol.bracketClose.piece :: parenthesized element.pieces)
  | .slice element =>
    Symbol.bracketOpen.piece :: Symbol.bracketClose.piece :: parenthesized element.pieces
  | .struct fields =>
    Keyword.struct.piece :: Symbol.braceOpen.piece ::
      (endedPieces (Field.structPieces fields) ++ [Symbol.braceClose.piece])
  | .map key value =>
    Keyword.map.piece :: Symbol.bracketOpen.piece ::
      (parenthesized key.pieces ++ Symbol.bracketClose.piece :: parenthesized value.pieces)
  | .channel .both element => Keyword.chan.piece :: parenthesized element.pieces
  | .channel .send element =>
    Keyword.chan.piece :: Symbol.arrow.piece :: parenthesized element.pieces
  | .channel .receive element =>
    Symbol.arrow.piece :: Keyword.chan.piece :: parenthesized element.pieces
  | .interface elements =>
    Keyword.interface.piece :: Symbol.braceOpen.piece ::
      (endedPieces (Field.interfacePieces elements) ++ [Symbol.braceClose.piece])
  | .function type => Keyword.func.piece :: type.pieces
  | .pointer target => Symbol.star.piece :: parenthesized target.pieces

/-- The tokens of a signature. -/
def FunctionType.pieces : FunctionType → List Piece
  | ⟨params, results⟩ =>
    parenthesized (commaPieces (Field.paramPieces params)) ++
      (if results.isEmpty then [] else parenthesized (commaPieces (Field.paramPieces results)))

/-- The tokens between the commas of a parameter list. -/
def Field.paramPieces : List Field → List (List Piece)
  | [] => []
  | ⟨names, type⟩ :: fields =>
    Field.stretches (parenthesized type.pieces) names ++ Field.paramPieces fields

/-- The tokens of the fields of a struct. -/
def Field.structPieces : List Field → List (List Piece)
  | [] => []
  | ⟨names, type⟩ :: fields =>
    (if names.isEmpty then type.pieces
      else commaPieces (Field.stretches (parenthesized type.pieces) names)) ::
      Field.structPieces fields

/-- The tokens of the elements of an interface: methods and embedded types. -/
def Field.interfacePieces : List Field → List (List Piece)
  | [] => []
  | ⟨[name], .function type⟩ :: elements =>
    ((.ident, name) :: type.pieces) :: Field.interfacePieces elements
  | ⟨_, type⟩ :: elements => parenthesized type.pieces :: Field.interfacePieces elements

end

/-- The types that a struct can embed. -/
def TypeExpr.IsEmbeddable : TypeExpr → Prop
  | .named _ | .qualified .. | .pointer _ => True
  | _ => False

/-- An element of an interface is a method or an embedded type. -/
def Field.IsElement (f : Field) : Prop :=
  f.names = [] ∨ ∃ name type, f = ⟨[name], .function type⟩

/-- All parameters have names or none has. -/
def Field.NamedAlike (fields : List Field) : Prop :=
  (∀ f ∈ fields, f.names ≠ []) ∨ ∀ f ∈ fields, f.names = []

/-- The types that have a written form. -/
inductive TypeExpr.WellFormed : TypeExpr → Prop
  | named (name : String) : WellFormed (.named name)
  | qualified (package name : String) : WellFormed (.qualified package name)
  | array {length : Expr} {element : TypeExpr} (hl : length.WellFormed) (h : WellFormed element) :
    WellFormed (.array length element)
  | slice {element : TypeExpr} (h : WellFormed element) : WellFormed (.slice element)
  | struct {fields : List Field} (h : ∀ f ∈ fields, WellFormed f.type)
    (hembedded : ∀ f ∈ fields, f.names = [] → f.type.IsEmbeddable) : WellFormed (.struct fields)
  | map {key value : TypeExpr} (hk : WellFormed key) (hv : WellFormed value) :
    WellFormed (.map key value)
  | channel (direction : ChannelDirection) {element : TypeExpr} (h : WellFormed element) :
    WellFormed (.channel direction element)
  | interface {elements : List Field} (h : ∀ f ∈ elements, WellFormed f.type)
    (hshape : ∀ f ∈ elements, f.IsElement) : WellFormed (.interface elements)
  | function {params results : List Field} (hp : ∀ f ∈ params, WellFormed f.type)
    (hr : ∀ f ∈ results, WellFormed f.type) (hparams : Field.NamedAlike params)
    (hresults : Field.NamedAlike results) : WellFormed (.function ⟨params, results⟩)
  | pointer {target : TypeExpr} (h : WellFormed target) : WellFormed (.pointer target)

/-! Lists are written part by part. -/

theorem length_lt_endedPieces {ps : List Piece} {pss : List (List Piece)} (h : ps ∈ pss) :
    ps.length < (endedPieces pss).length := by
  obtain ⟨before, behind, rfl⟩ := List.append_of_mem h
  simp only [endedPieces, List.flatMap_append, List.flatMap_cons, List.length_append,
    List.length_singleton]
  omega

namespace Field

theorem flatten_stretches (component : List Piece) (names : List String) :
    (stretches component names).flatten = names.map (TokenKind.ident, ·) ++ component := by
  induction names with
  | nil => simp [stretches]
  | cons name names ih =>
    cases names with
    | nil => simp [stretches]
    | cons other names => simpa [stretches] using ih

/-- In front of the component stand the names with commas between them. -/
theorem commaPieces_stretches (component : List Piece) (name : String) (names : List String) :
    commaPieces (stretches component (name :: names)) =
      commaPieces ((name :: names).map fun n => [(TokenKind.ident, n)]) ++ component := by
  have hbehind : ∀ (name : String) (names : List String),
      (stretches component (name :: names)).flatMap (Symbol.comma.piece :: ·) =
        ((name :: names).map fun n => [(TokenKind.ident, n)]).flatMap (Symbol.comma.piece :: ·)
          ++ component := by
    intro name names
    induction names generalizing name with
    | nil => simp [stretches]
    | cons other names ih => simp [stretches, ih other]
  cases names with
  | nil => simp [stretches, commaPieces]
  | cons other names => simp [stretches, commaPieces, hbehind other names]

/-- The tokens of a field of a struct, without the semicolon behind it. -/
def structPiece (f : Field) : List Piece :=
  if f.names.isEmpty then f.type.pieces
  else commaPieces (stretches (parenthesized f.type.pieces) f.names)

theorem structPieces_eq (fields : List Field) : structPieces fields = fields.map structPiece := by
  induction fields with
  | nil => rw [structPieces, List.map_nil]
  | cons f fields ih =>
    obtain ⟨names, type⟩ := f
    rw [structPieces, ih, List.map_cons, structPiece]

theorem paramPieces_eq (fields : List Field) :
    paramPieces fields =
      fields.flatMap fun f => stretches (parenthesized f.type.pieces) f.names := by
  induction fields with
  | nil => rw [paramPieces, List.flatMap_nil]
  | cons f fields ih =>
    obtain ⟨names, type⟩ := f
    rw [paramPieces, ih, List.flatMap_cons]

/-- The tokens of an element of an interface, without the semicolon behind it. -/
def interfacePiece : Field → List Piece
  | ⟨[name], .function type⟩ => (.ident, name) :: type.pieces
  | ⟨_, type⟩ => parenthesized type.pieces

theorem interfacePieces_eq (elements : List Field) :
    interfacePieces elements = elements.map interfacePiece := by
  induction elements with
  | nil => rw [interfacePieces, List.map_nil]
  | cons f elements ih =>
    rw [List.map_cons, ← ih]
    unfold interfacePiece
    split
    · rw [interfacePieces]
    · rename_i names type hshape
      rw [interfacePieces]
      exact hshape

end Field

end BoundedGo
