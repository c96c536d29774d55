import BoundedGo.Proofs.Termination
import BoundedGo.Proofs.TypeReading

/-!
Lists of parameters. A name by itself is read as a type at first; it turns out to be the name of a
parameter when an entry with a name of its own comes behind it, at any distance. Then every entry
in the list has to be such a name or to have one, and the names in front of an entry share its type.
Main statement: a list is read exactly if no entry has a name of its own, or every entry without one
is a name by itself and the last entry has one, and it is read as the fields that are meant
(`params_grouped`).
-/
namespace BoundedGo

/-- An entry of a parameter list as it is written: a type, which may have a name or dots in front
of it. -/
structure ParamEntry where
  name? : Option String
  dots : Bool
  type : TypeExpr

namespace ParamEntry

/-- A name by itself. -/
def plain (name : String) : ParamEntry := ⟨none, false, .named name⟩

/-- The type of the parameter. Dots stand for a slice. -/
def parameterType (e : ParamEntry) : TypeExpr := Parse.variadic e.dots e.type

/-- What is read of the entry before the whole list is known. -/
def toParam (e : ParamEntry) : Param :=
  match e.name? with
  | none => .anonymous e.parameterType
  | some name => .named name e.parameterType

/-- The name that the entry has, or is. -/
def identifier? (e : ParamEntry) : Option String :=
  match e.name?, e.dots, e.type with
  | some name, _, _ => some name
  | none, false, .named name => some name
  | none, _, _ => none

/-- No entry has a name of its own. -/
def Nameless (es : List ParamEntry) : Prop := ∀ e ∈ es, e.name? = none

/-- Every entry without a name of its own is a name by itself, and the last entry has one. -/
def EndsNamed (es : List ParamEntry) : Prop :=
  (∀ e ∈ es, e.name? = none → ∃ name, e = plain name) ∧
    ∃ e ∈ es.getLast?, e.name?.isSome

end ParamEntry

/-- An entry with a name of its own, and the names by themselves just in front of it. -/
structure ParamGroup where
  before : List String
  name : String
  dots : Bool
  type : TypeExpr

namespace ParamGroup

def entries (g : ParamGroup) : List ParamEntry :=
  g.before.map .plain ++ [⟨some g.name, g.dots, g.type⟩]

def field (g : ParamGroup) : Field := ⟨g.before ++ [g.name], Parse.variadic g.dots g.type⟩

end ParamGroup

namespace Param

open ParamEntry

variable {es : List ParamEntry}

/-- Names by themselves wait, whatever comes behind them. -/
theorem group_plain (waiting names : List String) (ps : List Param) :
    group waiting (names.map (toParam ∘ plain) ++ ps) = group (waiting ++ names) ps := by
  induction names generalizing waiting with
  | nil => rw [List.map_nil, List.nil_append, List.append_nil]
  | cons name names ih =>
    have hone : group waiting (.anonymous (.named name) :: (names.map (toParam ∘ plain) ++ ps)) =
        group (waiting ++ [name]) (names.map (toParam ∘ plain) ++ ps) := by
      cases waiting <;> rfl
    rw [List.map_cons, List.cons_append]
    exact hone.trans ((ih _).trans (by rw [List.append_assoc, List.singleton_append]))

/-- The fields of entries that are cut into groups are those of the groups. -/
theorem group_entries (gs : List ParamGroup) :
    group [] ((gs.flatMap ParamGroup.entries).map toParam) = some (gs.map ParamGroup.field) := by
  induction gs with
  | nil => rfl
  | cons g gs ih =>
    have hentries : ((g :: gs).flatMap ParamGroup.entries).map toParam =
        g.before.map (toParam ∘ plain) ++ .named g.name (Parse.variadic g.dots g.type) ::
          (gs.flatMap ParamGroup.entries).map toParam := by
      simp [ParamGroup.entries, toParam, parameterType]
    rw [hentries, group_plain, group_named, ih]
    rfl

/-- Only names can wait for a type. -/
theorem exists_name_of_group {type : TypeExpr} {waiting : List String} {ps : List Param}
    {fields : List Field} (h : group waiting (.anonymous type :: ps) = some fields) :
    ∃ name, type = .named name ∧ group (waiting ++ [name]) ps = some fields := by
  cases type with
  | named name => exact ⟨name, rfl, (group_plain waiting [name] ps).symm.trans h⟩
  | _ => cases waiting <;> cases h

theorem eq_plain_of_group {e : ParamEntry} {waiting : List String} {ps : List Param}
    {fields : List Field} (he : e.name? = none)
    (h : group waiting (e.toParam :: ps) = some fields) :
    ∃ name, e = plain name ∧ group (waiting ++ [name]) ps = some fields := by
  obtain ⟨name?, dots, type⟩ := e
  obtain rfl : name? = none := he
  obtain ⟨name, hname, hrest⟩ := exists_name_of_group h
  cases dots with
  | false =>
    obtain rfl : type = .named name := hname
    exact ⟨name, rfl, hrest⟩
  | true => cases hname

/-- Entries of which fields are made are cut into groups, the first of which begins with the names
that wait. -/
theorem exists_groups_of_group {waiting : List String} {fields : List Field}
    (h : group waiting (es.map toParam) = some fields) :
    ∃ gs : List ParamGroup, waiting.map plain ++ es = gs.flatMap ParamGroup.entries := by
  -- The names that wait are part of the group that is still open, so they stay in the statement.
  induction es generalizing waiting fields with
  | nil =>
    cases waiting with
    | nil => exact ⟨[], rfl⟩
    | cons name waiting => cases h
  | cons e es ih =>
    cases hname : e.name? with
    | none =>
      obtain ⟨name, rfl, hrest⟩ := eq_plain_of_group hname h
      obtain ⟨gs, hgs⟩ := ih hrest
      refine ⟨gs, ?_⟩
      rw [← hgs, List.map_append, List.append_assoc]
      rfl
    | some name =>
      obtain ⟨name?, dots, type⟩ := e
      obtain rfl : name? = some name := hname
      rw [List.map_cons, toParam, group_named] at h
      obtain ⟨others, hothers, -⟩ := Option.map_eq_some_iff.mp h
      obtain ⟨gs, hgs⟩ := ih hothers
      refine ⟨⟨waiting, name, dots, type⟩ :: gs, ?_⟩
      rw [List.flatMap_cons, ← hgs, ParamGroup.entries, List.append_assoc]
      rfl

/-- Without names of their own the entries are the types of the fields. -/
theorem fields?_nameless (h : Nameless es) :
    fields? (es.map toParam) = some (es.map fun e => ⟨[], e.parameterType⟩) := by
  have hanonymous : es.map toParam = es.map fun e => .anonymous e.parameterType := by
    refine List.map_congr_left fun e he => ?_
    rw [toParam, h e he]
  rw [hanonymous, fields?, if_neg (by simp [isNamed]), List.map_map]
  rfl

theorem fields?_named (h : ¬ Nameless es) :
    fields? (es.map toParam) = group [] (es.map toParam) := by
  obtain ⟨e, he, hname⟩ : ∃ e ∈ es, e.name? ≠ none := by simpa [Nameless] using h
  obtain ⟨name, hname⟩ := Option.ne_none_iff_exists'.mp hname
  have hnamed : isNamed e.toParam = true := by
    rw [toParam, hname]
    rfl
  rw [fields?, if_pos]
  exact List.any_eq_true.mpr ⟨e.toParam, List.mem_map_of_mem he, hnamed⟩

end Param

namespace ParamEntry

variable {e : ParamEntry} {es : List ParamEntry}

theorem EndsNamed.not_nameless (h : EndsNamed es) : ¬ Nameless es := by
  obtain ⟨e, he, hname⟩ := h.2
  intro hall
  rw [hall e (List.mem_of_getLast? he)] at hname
  cases hname

theorem EndsNamed.tail (h : EndsNamed (e :: es)) (hes : es ≠ []) : EndsNamed es := by
  refine ⟨fun x hx => h.1 x (List.mem_cons_of_mem e hx), ?_⟩
  obtain ⟨other, es, rfl⟩ := List.exists_cons_of_ne_nil hes
  exact h.2

theorem mem_entries {g : ParamGroup} (h : e ∈ g.entries) (he : e.name? = none) :
    ∃ name, e = plain name := by
  rcases List.mem_append.mp h with h | h
  · obtain ⟨name, -, rfl⟩ := List.mem_map.mp h
    exact ⟨name, rfl⟩
  · obtain rfl := List.mem_singleton.mp h
    cases he

theorem endsNamed_flatMap {gs : List ParamGroup} (h : gs ≠ []) :
    EndsNamed (gs.flatMap ParamGroup.entries) := by
  refine ⟨fun e he hname => ?_, ?_⟩
  · obtain ⟨g, -, hg⟩ := List.mem_flatMap.mp he
    exact mem_entries hg hname
  · obtain ⟨front, g, rfl⟩ := (List.eq_nil_or_concat gs).resolve_left h
    refine ⟨⟨some g.name, g.dots, g.type⟩, ?_, rfl⟩
    simp [ParamGroup.entries]

/-- Entries of which the last has a name of its own are cut into groups. -/
theorem exists_groups {es : List ParamEntry} (h : EndsNamed es) :
    ∃ gs : List ParamGroup, es = gs.flatMap ParamGroup.entries := by
  induction es with
  | nil => exact ⟨[], rfl⟩
  | cons e es ih =>
    have hrest : ∃ gs : List ParamGroup, es = gs.flatMap ParamGroup.entries := by
      by_cases hes : es = []
      · exact ⟨[], hes⟩
      · exact ih (h.tail hes)
    obtain ⟨gs, hgs⟩ := hrest
    cases hname : e.name? with
    | some name =>
      obtain ⟨name?, dots, type⟩ := e
      obtain rfl : name? = some name := hname
      exact ⟨⟨[], name, dots, type⟩ :: gs, by rw [hgs]; rfl⟩
    | none =>
      -- The entry is a name that waits, so it joins the group behind it, and there is one.
      obtain ⟨name, rfl⟩ := h.1 e List.mem_cons_self hname
      cases gs with
      | nil =>
        obtain ⟨e, he, hnamed⟩ := h.2
        subst hgs
        obtain rfl : plain name = e := by simpa using he
        cases hnamed
      | cons g gs => exact ⟨⟨name :: g.before, g.name, g.dots, g.type⟩ :: gs, by rw [hgs]; rfl⟩

theorem fields?_mixed (h : ¬ (Nameless es ∨ EndsNamed es)) :
    Param.fields? (es.map toParam) = none := by
  obtain ⟨hnameless, hnamed⟩ := not_or.mp h
  rw [Param.fields?_named hnameless]
  cases hgroup : Param.group [] (es.map toParam) with
  | none => rfl
  | some fields =>
    obtain ⟨gs, hgs⟩ := Param.exists_groups_of_group hgroup
    rw [List.map_nil, List.nil_append] at hgs
    subst hgs
    have hne : gs ≠ [] := by
      rintro rfl
      exact hnameless fun _ he => absurd he List.not_mem_nil
    exact absurd (endsNamed_flatMap hne) hnamed

/-- The names of the fields are the names that the entries have or are, none of which is lost. -/
theorem identifiers_flatMap (gs : List ParamGroup) :
    (gs.flatMap ParamGroup.entries).map identifier? =
      ((gs.map ParamGroup.field).flatMap (·.names)).map some := by
  induction gs with
  | nil => rfl
  | cons g gs ih =>
    rw [List.flatMap_cons, List.map_append, ih]
    simp [ParamGroup.entries, ParamGroup.field, Function.comp_def, identifier?, plain]

end ParamEntry

namespace Parse

open Grammar

/-- The tokens of a type in a list: a name by itself, or parentheses around tokens that are read as
the type. -/
inductive TypeText (l : Bool) : List Token → TypeExpr → Prop
  | name {t : Token} (ht : t.kind = .ident) : TypeText l [t] (.named t.lexeme)
  | parens {o c : Token} {us : List Token} {type : TypeExpr}
    (ho : o.kind = .symbol .parenOpen) (hc : c.kind = .symbol .parenClose)
    (h : ∀ post, headKind post = .symbol .parenClose → Reads l typeExpression us post type) :
    TypeText l (o :: us ++ [c]) type

/-- The tokens of an entry. -/
inductive EntryText (l : Bool) : List Token → ParamEntry → Prop
  | type {ts : List Token} {type : TypeExpr} (h : TypeText l ts type) :
    EntryText l ts ⟨none, false, type⟩
  | dots {d : Token} {ts : List Token} {type : TypeExpr} (hd : d.kind = .symbol .ellipsis)
    (h : TypeText l ts type) : EntryText l (d :: ts) ⟨none, true, type⟩
  | named {n : Token} {ts : List Token} {type : TypeExpr} (hn : n.kind = .ident)
    (h : TypeText l ts type) : EntryText l (n :: ts) ⟨some n.lexeme, false, type⟩
  | namedDots {n d : Token} {ts : List Token} {type : TypeExpr} (hn : n.kind = .ident)
    (hd : d.kind = .symbol .ellipsis) (h : TypeText l ts type) :
    EntryText l (n :: d :: ts) ⟨some n.lexeme, true, type⟩

/-- The tokens of entries with commas between them. A comma may stand behind the last one. -/
inductive EntriesText (l : Bool) : List Token → List ParamEntry → Prop
  | nil : EntriesText l [] []
  | last {ts : List Token} {e : ParamEntry} (h : EntryText l ts e) : EntriesText l ts [e]
  | comma {ts us : List Token} {e : ParamEntry} {es : List ParamEntry} {c : Token}
    (h : EntryText l ts e) (hc : c.kind = .symbol .comma) (hes : EntriesText l us es) :
    EntriesText l (ts ++ c :: us) (e :: es)

variable {l : Bool} {ts us post : List Token} {type : TypeExpr} {e : ParamEntry}
  {es : List ParamEntry}

theorem typeExpression_eq_unbounded : typeExpression = unbounded.type := by
  funext s
  have hread := (deep_unbounded (s.rest.length + 1)).typeExpr (s := s)
  have hsame : typeExpr unbounded s = typeExpression s := hread.same (by omega)
  rw [← hsame]
  exact congrFun (congrArg Grammar.type above_unbounded) s

theorem nested_params_eq_unbounded : nested params = params unbounded := by
  funext s
  exact (((deep_unbounded (s.rest.length + 1)).params (s := s)).same (Nat.lt_succ_self _)).symm

namespace TypeText

/-- A type is begun by a name or a parenthesis. -/
theorem headKind_eq (h : TypeText l ts type) (post : List Token) :
    headKind (ts ++ post) = .ident ∨ headKind (ts ++ post) = .symbol .parenOpen := by
  cases h with
  | name ht => exact .inl ht
  | parens ho => exact .inr ho

theorem headKind_ne {k : TokenKind} (h : TypeText l ts type) (hk : k ≠ .ident)
    (hk' : k ≠ .symbol .parenOpen) (post : List Token) : headKind (ts ++ post) ≠ k := by
  rcases h.headKind_eq post with hhead | hhead
  · exact fun heq => hk (heq.symm.trans hhead)
  · exact fun heq => hk' (heq.symm.trans hhead)

theorem reads_name {t : Token} (ht : t.kind = .ident) (hpost : headKind post ≠ .symbol .dot) :
    Reads l unbounded.type [t] post (.named t.lexeme) := by
  rw [← above_unbounded]
  refine .peek (.current t) ?_
  rw [ht]
  exact .step (.skip t) (.peek (.accept_other hpost) (.pure _))

theorem reads (h : TypeText l ts type) (hpost : headKind post ≠ .symbol .dot) :
    Reads l unbounded.type ts post type := by
  cases h with
  | name ht => exact reads_name ht hpost
  | @parens o c us type ho hc h =>
    rw [← above_unbounded]
    refine .peek (.current o) ?_
    rw [ho]
    have hinner : Reads l unbounded.type us ([c] ++ post) type := by
      rw [← typeExpression_eq_unbounded]
      exact h _ hc
    exact .step (.skip o) (.bind hinner (.last (.expectSymbol hc) (.pure _)))

/-- Every well-formed type has a text, its tokens in parentheses. -/
theorem of_wellFormed (h : type.WellFormed) (hts : Shows us type.pieces) {o c : Token}
    (ho : o.kind = .symbol .parenOpen) (hc : c.kind = .symbol .parenClose) :
    TypeText l (o :: us ++ [c]) type := by
  refine .parens ho hc fun post hpost seen finish => ?_
  have hlength : type.pieces.length ≤ (us ++ post).length + 1 := by
    rw [← hts.length_eq, List.length_append]
    omega
  refine (typable_of_wellFormed h).takes hlength us post hts ?_ seen finish
  rw [hpost]
  exact typeEnd_parenClose

end TypeText

/-- A name in front of a type or dots is read as a type itself, and shows to be none then. -/
theorem param_reads_named {n : Token} (hn : n.kind = .ident) {p : Param}
    (hhead : headKind (us ++ post) = .ident ∨ headKind (us ++ post) = .symbol .parenOpen ∨
      headKind (us ++ post) = .symbol .ellipsis)
    (h : Reads l (do
      let dots ← accept Symbol.ellipsis
      return .named n.lexeme (variadic dots (← unbounded.type))) us post p) :
    Reads l (param unbounded) (n :: us) post p := by
  have hfirst : headKind (n :: us ++ post) ≠ .symbol .ellipsis := by simp [hn]
  have hdot : headKind (us ++ post) ≠ .symbol .dot := by
    rcases hhead with h | h | h <;> simp [h]
  refine .peek (.accept_other hfirst) (.step (TypeText.reads_name hn hdot) (.peek .kind ?_))
  rcases hhead with hhead | hhead | hhead <;> rw [hhead] <;> exact h

/-- An entry is read as it is written, in front of a comma or the end of the list. -/
theorem EntryText.reads (h : EntryText l ts e)
    (hpost : headKind post = .symbol .comma ∨ headKind post = .symbol .parenClose) :
    Reads l (param unbounded) ts post e.toParam := by
  have hdot : headKind post ≠ .symbol .dot := by rcases hpost with h | h <;> simp [h]
  cases h with
  | type h =>
    refine .peek (.accept_other (h.headKind_ne (by decide) (by decide) _)) ?_
    refine .last (h.reads hdot) (.peek .kind ?_)
    rcases hpost with hpost | hpost <;> rw [List.nil_append, hpost] <;> exact .pure _
  | dots hd h => exact .step (.accept hd) (.last (h.reads hdot) (.pure _))
  | named hn h =>
    refine param_reads_named hn ((h.headKind_eq post).imp_right .inl) ?_
    have hdots := h.headKind_ne (k := .symbol .ellipsis) (by decide) (by decide) post
    exact .peek (.accept_other hdots) (.last (h.reads hdot) (.pure _))
  | namedDots hn hd h =>
    refine param_reads_named hn (.inr (.inr hd)) ?_
    exact .step (.accept hd) (.last (h.reads hdot) (.pure _))

theorem EntryText.headKind_ne (h : EntryText l ts e) (post : List Token) :
    headKind (ts ++ post) ≠ .symbol .parenClose := by
  cases h with
  | type h => exact h.headKind_ne (by decide) (by decide) post
  | dots hd => simp [hd]
  | named hn => simp [hn]
  | namedDots hn => simp [hn]

/-- A comma and an entry behind it. -/
theorem commaStep_reads {c : Token} (hc : c.kind = .symbol .comma) (h : EntryText l ts e)
    (hpost : headKind post = .symbol .comma ∨ headKind post = .symbol .parenClose) :
    Reads l (commaStep .parenClose (param unbounded)) (c :: ts) post (some e.toParam) := by
  refine .step (.accept hc) (.peek (.isAt _) ?_)
  rw [if_neg (by simpa using h.headKind_ne post)]
  exact .last (h.reads hpost) (.pure _)

/-- The entries behind a comma, with the comma that may stand behind the last one. -/
theorem EntriesText.collects {c : Token} (h : EntriesText l ts es) (hc : c.kind = .symbol .comma)
    (hpost : headKind post = .symbol .parenClose) :
    Collects l (commaStep .parenClose (param unbounded)) (c :: ts) post
      (es.map ParamEntry.toParam) := by
  have hcomma : headKind post ≠ .symbol .comma := by simp [hpost]
  induction h generalizing c with
  | nil =>
    refine .stop (.step (.accept hc) (.peek (.isAt _) ?_))
    rw [List.nil_append, if_pos (decide_eq_true hpost)]
    exact .pure none
  | @last ts e h =>
    have hend : Collects l (commaStep .parenClose (param unbounded)) [] post [] :=
      .stop (.peek (.accept_other hcomma) (.pure none))
    rw [← List.append_nil (c :: ts)]
    exact .next (commaStep_reads hc h (.inr hpost)) hend
  | comma h hd _ ih => exact .next (commaStep_reads hc h (.inl hd)) (ih hd)

/-- The list between its parentheses is read entry by entry. -/
theorem EntriesText.reads {c : Token} (h : EntriesText l ts es) (hc : c.kind = .symbol .parenClose) :
    Reads l (commaClosed .parenClose (param unbounded)) (ts ++ [c]) post
      (es.map ParamEntry.toParam) := by
  have hcomma : headKind (c :: post) ≠ .symbol .comma := by simp [hc]
  cases h with
  | nil => exact .commaClosed_nil hc
  | last h =>
    have hend : Collects l (commaStep .parenClose (param unbounded)) [] (c :: post) [] :=
      .stop (.peek (.accept_other hcomma) (.pure none))
    change Reads l _ (ts ++ ([] ++ [c])) post _
    exact .commaClosed_cons hc (h.headKind_ne _) (h.reads (.inr hc)) hend
  | @comma ts us e es d h hd hes =>
    rw [List.append_assoc, List.cons_append, ← List.cons_append]
    exact .commaClosed_cons hc (h.headKind_ne _) (h.reads (.inl hd)) (hes.collects hd hc)

/-- When all entries are read, the list is what becomes of them. -/
theorem params_eq {o c : Token} (h : EntriesText l ts es) (ho : o.kind = .symbol .parenOpen)
    (hc : c.kind = .symbol .parenClose) (seen post : List Token) (finish : Span) :
    nested params ⟨seen, o :: ts ++ c :: post, finish, l⟩ =
      ((Param.fields? (es.map ParamEntry.toParam)).elim (fail .mixedParams) pure :
        Parse (List Field)) ⟨c :: (ts.reverse ++ o :: seen), post, finish, l⟩ := by
  have hopen : expectSymbol .parenOpen ⟨seen, o :: ts ++ c :: post, finish, l⟩ =
      .ok () ⟨o :: seen, ts ++ c :: post, finish, l⟩ := Reads.expectSymbol ho seen finish
  have hentries : commaClosed .parenClose (param unbounded)
      ⟨o :: seen, ts ++ c :: post, finish, l⟩ =
        .ok (es.map ParamEntry.toParam) ⟨c :: (ts.reverse ++ o :: seen), post, finish, l⟩ := by
    have hreads : Reads l (commaClosed .parenClose (param unbounded)) (ts ++ [c]) post _ :=
      h.reads hc
    simpa using hreads (o :: seen) finish
  rw [nested_params_eq_unbounded, params, bind_ok hopen, bind_ok hentries]
  cases Param.fields? (es.map ParamEntry.toParam) with
  | none => rfl
  | some fields => rfl

open ParamEntry in
/-- A list of parameters is read exactly if no entry has a name of its own, or every entry without
one is a name by itself and the last entry has one. Without names the fields are the types in order.
With names the entries are cut behind each that has a name of its own; each part is a field with the
names in it and the type of its last entry, and so none of the names is lost. -/
theorem params_grouped {o c : Token} (h : EntriesText l ts es) (ho : o.kind = .symbol .parenOpen)
    (hc : c.kind = .symbol .parenClose) (seen post : List Token) (finish : Span) :
    let read := nested params ⟨seen, o :: ts ++ c :: post, finish, l⟩
    let behind : Stream := ⟨c :: (ts.reverse ++ o :: seen), post, finish, l⟩
    ((∃ fields t, read = .ok fields t) ↔ Nameless es ∨ EndsNamed es) ∧
      (Nameless es → read = .ok (es.map fun e => ⟨[], e.parameterType⟩) behind) ∧
      (EndsNamed es → ∃ gs : List ParamGroup, es = gs.flatMap ParamGroup.entries ∧
        read = .ok (gs.map ParamGroup.field) behind ∧
        es.map identifier? = ((gs.map ParamGroup.field).flatMap (·.names)).map some) ∧
      (¬ (Nameless es ∨ EndsNamed es) →
        read = .error ⟨.mixedParams, behind.current.span⟩ behind) := by
  intro read behind
  have hread : read = ((Param.fields? (es.map toParam)).elim (fail .mixedParams) pure :
      Parse (List Field)) behind := params_eq h ho hc seen post finish
  have hnameless (hes : Nameless es) :
      read = .ok (es.map fun e => ⟨[], e.parameterType⟩) behind := by
    rw [hread, Param.fields?_nameless hes]
    rfl
  have hnamed (hes : EndsNamed es) : ∃ gs : List ParamGroup, es = gs.flatMap ParamGroup.entries ∧
      read = .ok (gs.map ParamGroup.field) behind := by
    obtain ⟨gs, hgs⟩ := exists_groups hes
    refine ⟨gs, hgs, ?_⟩
    rw [hread, Param.fields?_named hes.not_nameless, hgs, Param.group_entries]
    rfl
  have hmixed (hes : ¬ (Nameless es ∨ EndsNamed es)) :
      read = .error ⟨.mixedParams, behind.current.span⟩ behind := by
    rw [hread, fields?_mixed hes]
    rfl
  refine ⟨⟨fun hok => ?_, fun hes => ?_⟩, hnameless, fun hes => ?_, hmixed⟩
  · by_contra hes
    obtain ⟨fields, t, hok⟩ := hok
    rw [hmixed hes] at hok
    cases hok
  · rcases hes with hes | hes
    · exact ⟨_, _, hnameless hes⟩
    · obtain ⟨gs, -, hok⟩ := hnamed hes
      exact ⟨_, _, hok⟩
  · obtain ⟨gs, hgs, hok⟩ := hnamed hes
    refine ⟨gs, hgs, hok, ?_⟩
    rw [hgs, identifiers_flatMap]

/-- Two parameters that share a type, and one that takes any number of slices. -/
def sharedEntries : List ParamEntry :=
  [.plain "a", ⟨some "b", false, .named "uint32"⟩, ⟨some "rest", true, .slice (.named "byte")⟩]

/-- The entries as they are written, with a comma behind the last one. -/
def sharedPieces : List Piece :=
  [(.ident, "a"), Symbol.comma.piece, (.ident, "b"), (.ident, "uint32"), Symbol.comma.piece,
    (.ident, "rest"), Symbol.ellipsis.piece] ++
    parenthesized (TypeExpr.slice (.named "byte")).pieces ++ [Symbol.comma.piece]

example : Param.fields? (sharedEntries.map ParamEntry.toParam) =
    some [⟨["a", "b"], .named "uint32"⟩, ⟨["rest"], .slice (.slice (.named "byte"))⟩] :=
  rfl

theorem entriesText_shared : EntriesText true (sharedPieces.map .ofPiece) sharedEntries := by
  have hslice : TypeText true
      ((parenthesized (TypeExpr.slice (.named "byte")).pieces).map Token.ofPiece)
      (.slice (.named "byte")) := by
    have hshows := Shows.ofPieces (TypeExpr.slice (.named "byte")).pieces
    exact .of_wellFormed (.slice (.named _)) hshows rfl rfl
  have ha : EntryText true [.ofPiece (.ident, "a")] (.plain "a") := .type (.name rfl)
  have hb : EntryText true [.ofPiece (.ident, "b"), .ofPiece (.ident, "uint32")]
      ⟨some "b", false, .named "uint32"⟩ := .named rfl (.name rfl)
  have hrest := EntryText.namedDots (n := .ofPiece (.ident, "rest"))
    (d := .ofPiece Symbol.ellipsis.piece) rfl rfl hslice
  exact .comma ha rfl (.comma hb rfl (.comma hrest rfl .nil))

theorem params_grouped_shared :
    EntriesText true (sharedPieces.map .ofPiece) sharedEntries ∧
    ∃ gs : List ParamGroup, sharedEntries = gs.flatMap ParamGroup.entries ∧
      nested params ⟨[], .ofPiece Symbol.parenOpen.piece :: sharedPieces.map .ofPiece ++
        [.ofPiece Symbol.parenClose.piece], ⟨.origin, .origin⟩, true⟩ =
        .ok (gs.map ParamGroup.field) ⟨.ofPiece Symbol.parenClose.piece ::
          ((sharedPieces.map .ofPiece).reverse ++ [.ofPiece Symbol.parenOpen.piece]), [],
          ⟨.origin, .origin⟩, true⟩ ∧
      (gs.map ParamGroup.field).flatMap (·.names) = ["a", "b", "rest"] := by
  have hnamed : ParamEntry.EndsNamed sharedEntries := by
    refine ⟨?_, _, rfl, rfl⟩
    simp [sharedEntries, ParamEntry.plain]
  obtain ⟨gs, hgs, hread, hnames⟩ :=
    (params_grouped (o := .ofPiece Symbol.parenOpen.piece) (c := .ofPiece Symbol.parenClose.piece)
      entriesText_shared rfl rfl [] [] ⟨.origin, .origin⟩).2.2.1 hnamed
  refine ⟨entriesText_shared, gs, hgs, hread, ?_⟩
  have hall : (["a", "b", "rest"].map some : List (Option String)) =
      ((gs.map ParamGroup.field).flatMap (·.names)).map some := hnames
  exact (List.map_injective_iff.mpr (Option.some_injective String) hall).symm

end Parse

end BoundedGo
