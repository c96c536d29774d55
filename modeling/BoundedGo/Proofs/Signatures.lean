import BoundedGo.Emission
import BoundedGo.Proofs.Acceptance
import BoundedGo.Proofs.EntryAssertion

/-!
The parameters of a function and those of its record. A field of a parameter list declares one
parameter for each of its names, or a single one without a name; a call has one argument for each
of them, and a struct with the same fields has one slot for each of them. The record only has the
parameters with a name.
Main statement: the parameters of a record, and the arguments of a call of the function, are those
that are declared with a name, so they are all of them exactly if every parameter has one
(`params_recorded_iff`).
-/
namespace BoundedGo

/-- A parameter as it is declared. -/
structure Declared where
  name? : Option String
  type : TypeExpr

namespace Declared

def isNamed (p : Declared) : Bool := p.name?.isSome

/-- Whether a parameter of a record stands for a declared one. -/
structure RecordedAs (p : Declared) (q : Parameter) : Prop where
  name : ∀ name ∈ p.name?, q.name = Text.snakeCase name
  type : typeText p.type = .ok q.type

end Declared

namespace Field

variable (f : Field)

def namedParams : List Declared := f.names.map fun name => ⟨some name, f.type⟩

/-- The parameters that a field declares. -/
def declared : List Declared := if f.names = [] then [⟨none, f.type⟩] else f.namedParams

theorem isNamed_of_mem_namedParams {p : Declared} (hp : p ∈ f.namedParams) : p.isNamed := by
  obtain ⟨name, -, rfl⟩ := List.mem_map.mp hp
  rfl

theorem filter_declared : f.declared.filter Declared.isNamed = f.namedParams := by
  unfold declared
  by_cases hnames : f.names = []
  · rw [if_pos hnames, namedParams, hnames]
    rfl
  · rw [if_neg hnames, List.filter_eq_self]
    intro p hp
    exact f.isNamed_of_mem_namedParams hp

theorem map_type_declared : f.declared.map Declared.type = List.replicate (max 1 f.names.length)
    f.type := by
  unfold declared
  by_cases hnames : f.names = []
  · rw [if_pos hnames, hnames]
    rfl
  · have hpos : 0 < f.names.length := List.length_pos_iff.mpr hnames
    rw [if_neg hnames, namedParams, List.map_map, Nat.max_eq_right hpos]
    exact List.map_const' ..

end Field

namespace FunctionDecl

variable (f : FunctionDecl)

/-- The parameters of a function, in order. -/
def declared : List Declared := f.type.params.flatMap Field.declared

/-- Those of them that have a name. -/
def namedParams : List Declared := f.declared.filter Declared.isNamed

theorem namedParams_eq : f.namedParams = f.type.params.flatMap Field.namedParams := by
  rw [namedParams, declared, List.filter_flatMap]
  exact List.flatMap_congr fun p _ => p.filter_declared

end FunctionDecl

theorem forall₂_replicate {α β : Type} {R : α → β → Prop} {a : α} {b : β} (h : R a b) (n : Nat) :
    List.Forall₂ R (List.replicate n a) (List.replicate n b) := by
  induction n with
  | zero => exact .nil
  | succ n ih => exact .cons h ih

/-- A struct has one slot for each parameter that its fields would declare. -/
theorem TargetType.slots_declared {fields : List Field} {slots : List TargetType}
    (h : slotsOf fields = .ok slots) :
    List.Forall₂ (fun p slot => ofType p.type = .ok slot) (fields.flatMap Field.declared)
      slots := by
  induction fields generalizing slots with
  | nil =>
    obtain rfl := Except.ok.inj h
    exact .nil
  | cons f fields ih =>
    obtain ⟨names, type⟩ := f
    rw [slotsOf] at h
    split at h
    · cases h
    · rename_i t ht
      split at h
      · cases h
      · rename_i rest hrest
        obtain rfl := Except.ok.inj h
        have hfirst : List.Forall₂ (fun type slot => ofType type = .ok slot)
            ((Field.declared ⟨names, type⟩).map Declared.type)
            (List.replicate (max 1 names.length) t) := by
          rw [Field.map_type_declared]
          exact forall₂_replicate (R := fun type slot => ofType type = .ok slot) ht _
        rw [List.forall₂_map_left_iff] at hfirst
        rw [List.flatMap_cons]
        exact List.rel_append hfirst (ih hrest)

namespace Analysis

variable {f : FunctionDecl} {h : Helper}

/-- A record has the parameters with a name. -/
theorem forall₂_params (hok : helper f = .ok h) :
    List.Forall₂ Declared.RecordedAs f.namedParams h.params := by
  obtain ⟨params, result, hparams, -, rfl⟩ := helper_eq_ok_iff.mp hok
  rw [f.namedParams_eq, List.flatMap_def]
  refine List.rel_flatten ?_
  rw [List.forall₂_map_left_iff]
  refine hparams.imp fun field ps hfield => ?_
  obtain ⟨type, htype, rfl⟩ := paramsOfField_eq_ok_iff.mp hfield
  rw [Field.namedParams, List.forall₂_map_left_iff, List.forall₂_map_right_iff, List.forall₂_same]
  intro name _
  refine ⟨?_, htype⟩
  rintro _ ⟨⟩
  rfl

theorem exists_slots (hok : helper f = .ok h) :
    ∃ slots, TargetType.slotsOf f.type.params = .ok slots := by
  obtain ⟨hparams, -⟩ := (helper_ok_iff f).mp ⟨h, hok⟩
  exact (TargetType.slotsOf_ok_iff f.type.params).mpr hparams

end Analysis

namespace FunctionDecl

variable {f : FunctionDecl}

theorem length_namedParams_eq_iff :
    f.namedParams.length = f.declared.length ↔ ∀ p ∈ f.declared, p.isNamed :=
  List.length_filter_eq_length_iff

theorem namedParams_eq_self (hnamed : ∀ p ∈ f.declared, p.isNamed) :
    f.namedParams = f.declared :=
  List.filter_eq_self.mpr hnamed

/-- A record has all parameters exactly if all of them have a name. -/
theorem forall₂_declared_iff {params : List Parameter}
    (hparams : List.Forall₂ Declared.RecordedAs f.namedParams params) :
    List.Forall₂ Declared.RecordedAs f.declared params ↔ ∀ p ∈ f.declared, p.isNamed := by
  constructor
  · intro hall
    rw [← length_namedParams_eq_iff, hparams.length_eq, hall.length_eq]
  · intro hnamed
    rwa [← namedParams_eq_self hnamed]

end FunctionDecl

/-- What is called is the last function, with as many arguments as its record has parameters. -/
theorem Emission.last_of_chooseAssertion {a : Analysis} {name : String} {arguments : List String}
    (h : (chooseAssertion a).1 = .call name arguments) :
    ∃ last, a.helpers.getLast? = some last ∧ last.name = name ∧
      arguments.length = last.params.length := by
  cases chooseAssertion_eq_iff.mp h with
  | @call hs f used others _ hlast _ hused =>
    refine ⟨f, ?_, rfl, ?_⟩
    · rw [hlast, List.getLast?_concat]
    · rw [List.length_map, hused]

theorem getLast?_of_forall₂ {α β : Type} {R : α → β → Prop} {xs : List α} {ys : List β}
    (h : List.Forall₂ R xs ys) {y : β} (hy : ys.getLast? = some y) :
    ∃ x, xs.getLast? = some x ∧ R x y := by
  rw [List.getLast?_eq_getElem?] at hy
  obtain ⟨x, hx, hxy⟩ := exists_getElem?_of_forall₂ h.flip hy
  refine ⟨x, ?_, hxy⟩
  rwa [List.getLast?_eq_getElem?, h.length_eq]

/-- The parameters of a record are those of the function that have a name, in order and with their
target types, so it has all of them exactly if all of them have a name; a struct with the same
fields has a slot for each of them. A call in the entry point has as many arguments as the last
function has parameters with a name. -/
theorem params_recorded_iff {entry : String} {mode : EvalMode} {file : File} {a : Analysis}
    (ha : analyze entry mode file = .ok a) :
    List.Forall₂ (fun f h =>
        List.Forall₂ Declared.RecordedAs f.namedParams h.params ∧
        (List.Forall₂ Declared.RecordedAs f.declared h.params ↔ ∀ p ∈ f.declared, p.isNamed) ∧
        ∃ slots, TargetType.slotsOf f.type.params = .ok slots ∧
          List.Forall₂ (fun p slot => TargetType.ofType p.type = .ok slot) f.declared slots)
      (file.helperDecls entry) a.helpers ∧
    ∀ name arguments, (Emission.chooseAssertion a).1 = .call name arguments →
      ∃ f, (file.helperDecls entry).getLast? = some f ∧ name = Text.snakeCase f.name ∧
        arguments.length = f.namedParams.length ∧
        (arguments.length = f.declared.length ↔ ∀ p ∈ f.declared, p.isNamed) := by
  obtain ⟨-, -, hhelpers, -⟩ := analyze_eq_ok_iff.mp ha
  constructor
  · refine hhelpers.imp fun f h hok => ?_
    have hparams := Analysis.forall₂_params hok
    obtain ⟨slots, hslots⟩ := Analysis.exists_slots hok
    exact ⟨hparams, FunctionDecl.forall₂_declared_iff hparams, slots, hslots,
      TargetType.slots_declared hslots⟩
  · intro name arguments hcall
    obtain ⟨last, hlast, rfl, hlength⟩ := Emission.last_of_chooseAssertion hcall
    obtain ⟨f, hf, hok⟩ := getLast?_of_forall₂ hhelpers hlast
    have hcount : arguments.length = f.namedParams.length := by
      rw [hlength, (Analysis.forall₂_params hok).length_eq]
    refine ⟨f, hf, ?_, hcount, ?_⟩
    · obtain ⟨params, result, -, -, rfl⟩ := Analysis.helper_eq_ok_iff.mp hok
      rfl
    · rw [hcount]
      exact FunctionDecl.length_namedParams_eq_iff

/-- A check of two values, behind a function whose parameter has no name. -/
def twoChecks : File :=
  ⟨"main", [],
    [.function ⟨"Any", none, ⟨[⟨[], .named "uint8"⟩], [⟨[], .named "bool"⟩]⟩, none⟩,
      .function ⟨"Check", none, ⟨[⟨["a", "b"], .named "bool"⟩], [⟨[], .named "bool"⟩]⟩,
        some [.return_ [.ident "b"]]⟩,
      .function ⟨"main", none, ⟨[], []⟩, some
        [.assign [.ident "aOk"] .define [.ident "true"],
          .assign [.ident "bOk"] .define [.ident "false"]]⟩]⟩

theorem params_recorded_twoChecks :
    ∃ a f h, analyze "main" .approximate twoChecks = .ok a ∧
      (twoChecks.helperDecls "main")[1]? = some f ∧ a.helpers[1]? = some h ∧
      (∀ p ∈ f.declared, p.isNamed) ∧ List.Forall₂ Declared.RecordedAs f.declared h.params ∧
      ∃ arguments, (Emission.chooseAssertion a).1 = .call "check" arguments ∧
        arguments.length = f.declared.length := by
  have ha : analyze "main" .approximate twoChecks
      = .ok ⟨[⟨"a_ok", .deferred, "true"⟩, ⟨"b_ok", .deferred, "false"⟩], [],
          [⟨"any", [], some "bool", .placeholder⟩,
            ⟨"check", [⟨"a", "bool"⟩, ⟨"b", "bool"⟩], some "bool", .name "b"⟩], []⟩ := rfl
  have hcall : (Emission.chooseAssertion ⟨[⟨"a_ok", .deferred, "true"⟩,
      ⟨"b_ok", .deferred, "false"⟩], [], [⟨"any", [], some "bool", .placeholder⟩,
        ⟨"check", [⟨"a", "bool"⟩, ⟨"b", "bool"⟩], some "bool", .name "b"⟩], []⟩).1
      = .call "check" ["A_OK", "B_OK"] := by
    decide
  obtain ⟨hrecords, hcalls⟩ := params_recorded_iff ha
  obtain ⟨f, hf, -, -, harity⟩ := hcalls _ _ hcall
  obtain ⟨h, hh, -, hiff, -⟩ := exists_getElem?_of_forall₂ hrecords (k := 1) hf
  have hnamed : ∀ p ∈ f.declared, p.isNamed := by
    obtain rfl := Option.some.inj hf
    decide
  exact ⟨_, f, h, ha, hf, hh, hnamed, hiff.mpr hnamed, _, hcall, harity.mpr hnamed⟩

/-- A parameter without a name is left out of the record, and of a call. -/
theorem unnamed_params_dropped :
    ∃ (f : FunctionDecl) (h : Helper),
      analyze "main" .approximate (.ofFunction f) = .ok ⟨[], [], [h], []⟩ ∧
      f.declared.length = 1 ∧ h.params.length = 0 ∧
      (Emission.chooseAssertion ⟨[], [], [h], []⟩).1 = .call "check" [] := by
  refine ⟨⟨"Check", none, ⟨[⟨[], .named "bool"⟩], [⟨[], .named "bool"⟩]⟩,
    some [.return_ [.ident "true"]]⟩, ⟨"check", [], some "bool", .name "true"⟩, ?_, ?_, ?_, ?_⟩
  · rfl
  · rfl
  · rfl
  · rfl

end BoundedGo
