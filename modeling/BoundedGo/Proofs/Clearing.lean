import BoundedGo.Proofs.Occurrence
import BoundedGo.Proofs.Outcomes

/-!
Stretches of tokens that begin no forbidden construct, and parsers that read no others. Such a
parser may give values with forbidden constructs in them; if it gives one without, then what it
has read is clean, and so are the values that it made it from. For parsers in a row the second half
turns the value of the last one into the values of those before it (`Clears.bind`), so a
production is judged by what it returns.
-/
namespace BoundedGo

/-- The reserved words that begin forbidden constructs, or occur in no others. -/
def Keyword.isForbidden : Keyword → Bool
  | .for_ | .range | .go | .select | .map | .chan | .interface => true
  | _ => false

/-- The tokens that are clean whatever follows. -/
def TokenKind.isPlain : TokenKind → Bool
  | .keyword w => !w.isForbidden
  | .symbol s => s ≠ .bracketOpen
  | _ => true

namespace Parse

/-- `r` goes on to `r'` over tokens without forbidden words and without an opening bracket in front
of a closing one. -/
inductive Clean : List Token → List Token → Prop
  | refl (r : List Token) : Clean r r
  | plain {t : Token} {r r' : List Token} (ht : t.kind.isPlain) (h : Clean r r') :
    Clean (t :: r) r'
  | bracket {t : Token} {r r' : List Token} (ht : t.kind = .symbol .bracketOpen)
    (hnext : headKind r ≠ .symbol .bracketClose) (h : Clean r r') : Clean (t :: r) r'

variable {α β : Type} {p : Parse α} {f : α → Parse β} {F H : α → Prop} {G : β → Prop} {P P' : Prop}
  {k : TokenKind} {r r' r'' : List Token}

namespace Clean

theorem trans (h : Clean r r') (h' : Clean r' r'') : Clean r r'' := by
  induction h with
  | refl => exact h'
  | plain ht _ ih => exact .plain ht (ih h')
  | bracket ht hnext _ ih => exact .bracket ht hnext (ih h')

theorem isSuffix (h : Clean r r') : r' <:+ r := by
  induction h with
  | refl => exact List.suffix_rfl
  | plain _ _ ih => exact ih.trans (List.suffix_cons _ _)
  | bracket _ _ _ ih => exact ih.trans (List.suffix_cons _ _)

theorem tail (h : (headKind r).isPlain) : Clean r r.tail := by
  cases r with
  | nil => exact .refl []
  | cons t r => exact .plain h (.refl r)

theorem dropWhile {s : Token → Bool} (hs : ∀ t, s t → t.kind.isPlain) (r : List Token) :
    Clean r (r.dropWhile s) := by
  induction r with
  | nil => exact .refl []
  | cons t r ih =>
    rw [List.dropWhile_cons]
    split
    · exact .plain (hs t ‹_›) ih
    · exact .refl _

end Clean

/-- If the parser gives a value with `F`, then `P` holds and what was read is clean. -/
def Clears (p : Parse α) (F : α → Prop) (P : Prop) : Prop :=
  ∀ r, Ensures p r fun a r' => F a → P ∧ Clean r r'

/-- The same in front of a token of the given kind. -/
def ClearsAt (k : TokenKind) (p : Parse α) (F : α → Prop) (P : Prop) : Prop :=
  ∀ r, headKind r = k → Ensures p r fun a r' => F a → P ∧ Clean r r'

theorem ClearsAt.of (h : Clears p F P) : ClearsAt k p F P := fun r _ => h r

/-- A parser all of whose values have forbidden constructs in them may read whatever it likes. -/
theorem ClearsAt.forbidden (h : ∀ r, Ensures p r fun a _ => ¬ F a) : ClearsAt k p F P :=
  fun r _ => (h r).mono fun _ _ ha hF => absurd hF ha

namespace Clears

theorem pure {a : α} (h : F a → P) : Clears (Pure.pure a) F P :=
  fun r => .pure fun hF => ⟨h hF, .refl r⟩

theorem fail (fault : SyntaxFault) : Clears (Parse.fail fault) F P := fun _ => .fail fault

theorem refuse (wanted : Expectation) : Clears (Parse.refuse wanted) F P := fun _ => .refuse wanted

theorem imp (h : Clears p F P) (hP : P → P') : Clears p F P' :=
  fun r => (h r).mono fun _ _ ha hF => ⟨hP (ha hF).1, (ha hF).2⟩

/-- The value of the parser behind tells whether the one in front had read a clean stretch. -/
theorem bind (hp : Clears p H True) (hf : ∀ a, Clears (f a) G (H a ∧ P)) :
    Clears (p >>= f) G P := by
  refine fun r => .bind ((hp r).mono fun a r' ha => ((hf a) r').mono fun b r'' hb hG => ?_)
  obtain ⟨⟨hH, hP⟩, hbehind⟩ := hb hG
  exact ⟨hP, (ha hH).2.trans hbehind⟩

/-- The same where the parser in front tells something itself. -/
theorem bind_back (hp : Clears p H P) (hf : ∀ a, Clears (f a) G (H a)) : Clears (p >>= f) G P := by
  refine fun r => .bind ((hp r).mono fun a r' ha => ((hf a) r').mono fun b r'' hb hG => ?_)
  obtain ⟨hH, hbehind⟩ := hb hG
  exact ⟨(ha hH).1, (ha hH).2.trans hbehind⟩

theorem some_map (hp : Clears p F True) : Clears (some <$> p) (∀ x ∈ ·, F x) True :=
  fun r => .map ((hp r).mono fun _ _ ha hall => ha (hall _ rfl))

theorem kind_bind {f : TokenKind → Parse β} (h : ∀ k, ClearsAt k (f k) G P) :
    Clears (Parse.kind >>= f) G P :=
  fun r => .kind_bind (h _ r rfl)

theorem current_bind {f : Token → Parse β} (h : ∀ t : Token, ClearsAt t.kind (f t) G P) :
    Clears (Parse.current >>= f) G P :=
  fun r => .current_bind fun t ht _ => h t r ht.symm

theorem kindAt_bind {n : Nat} {f : TokenKind → Parse β} (h : ∀ k, Clears (f k) G P) :
    Clears (Parse.kindAt n >>= f) G P :=
  fun r => .kindAt_bind fun k _ => h k r

theorem literalsAllowed_bind {f : Bool → Parse β} (h : ∀ b, Clears (f b) G P) :
    Clears (Parse.literalsAllowed >>= f) G P :=
  fun r => .literalsAllowed_bind fun b => h b r

theorem isAt_bind {f : Bool → Parse β} (hyes : ClearsAt k (f true) G P)
    (hno : Clears (f false) G P) : Clears (Parse.isAt k >>= f) G P :=
  fun r => .isAt_bind (fun hk => hyes r hk) fun _ => hno r

theorem accept_bind {f : Bool → Parse β} (hk : k.isPlain) (hyes : Clears (f true) G P)
    (hno : Clears (f false) G P) : Clears (Parse.accept k >>= f) G P := by
  refine fun r => .accept_bind (fun hhead => ?_) fun _ => hno r
  have hskip : Clean r r.tail := .tail (hhead ▸ hk)
  exact (hyes r.tail).mono fun b r' hb hG => ⟨(hb hG).1, hskip.trans (hb hG).2⟩

theorem expectSymbol {s : Symbol} (hs : s ≠ .bracketOpen) :
    Clears (Parse.expectSymbol s) (fun _ => True) True :=
  accept_bind (decide_eq_true hs) (pure fun _ => trivial) (refuse _)

theorem expectKeyword {w : Keyword} (hw : TokenKind.isPlain (.keyword w)) :
    Clears (Parse.expectKeyword w) (fun _ => True) True :=
  accept_bind hw (pure fun _ => trivial) (refuse _)

theorem identifier : Clears Parse.identifier (fun _ => True) True := by
  refine fun r => .current_bind fun t ht _ => ?_
  split
  · rename_i hk
    exact .bind (.skip (.pure fun _ => ⟨trivial, .tail (by rw [← ht, hk]; rfl)⟩))
  · exact .refuse _

theorem skipSemicolons : Clears Parse.skipSemicolons (fun _ => True) True := by
  refine fun r => .skipSemicolons fun _ => ⟨trivial, .dropWhile (fun t ht => ?_) r⟩
  rw [of_decide_eq_true ht]
  rfl

theorem withLiterals {allowed : Bool} (h : Clears p F P) :
    Clears (Parse.withLiterals allowed p) F P :=
  fun r => .withLiterals (h r)

end Clears

namespace ClearsAt

theorem skip_bind {f : Unit → Parse β} (hk : k.isPlain) (h : Clears (f ()) G P) :
    ClearsAt k (Parse.skip >>= f) G P := by
  rintro r rfl
  refine .bind (.skip ((h r.tail).mono fun b r' hb hG => ?_))
  exact ⟨(hb hG).1, (Clean.tail hk).trans (hb hG).2⟩

/-- An opening bracket is clean if a closing one behind it makes something forbidden. -/
theorem skip_bracket_bind {f : Unit → Parse β} (h : Clears (f ()) G P)
    (hclose : ∀ r, headKind r = .symbol .bracketClose → Ensures (f ()) r fun b _ => ¬ G b) :
    ClearsAt (.symbol .bracketOpen) (Parse.skip >>= f) G P := by
  intro r hr
  obtain ⟨t, r, rfl, ht⟩ := exists_cons_of_headKind hr nofun
  refine .bind (.skip ?_)
  by_cases hnext : headKind r = .symbol .bracketClose
  · exact (hclose r hnext).mono fun b _ hb hG => absurd hG hb
  · exact (h r).mono fun b r' hb hG => ⟨(hb hG).1, .bracket ht hnext (hb hG).2⟩

end ClearsAt

namespace Clears

theorem statementEnd : Clears Parse.statementEnd (fun _ => True) True := by
  refine kind_bind fun k => ?_
  split
  · exact fun r hr => .skip fun _ => ⟨trivial, .tail (by rw [hr]; rfl)⟩
  · exact .of (pure fun _ => trivial)
  · exact .of (pure fun _ => trivial)
  · exact .of (pure fun _ => trivial)
  · exact .of (refuse _)

/-- A loop clears if its steps take the last value back to the first. -/
theorem iterate {step : α → Parse (Option α)}
    (h : ∀ x, Clears (step x) (fun o => F (o.getD x)) (F x)) (x : α) :
    Clears (Parse.iterate step x) F (F x) := by
  intro r
  -- What the value so far tells about the first one is kept from round to round.
  refine .iterate (J := fun y r' => F y → F x ∧ Clean r r') (fun y r' hy => ?_)
    fun hF => ⟨hF, .refl r⟩
  refine ((h y) r').mono fun o r'' ho => ?_
  cases o with
  | none =>
    intro hF
    obtain ⟨hback, hclean⟩ := ho hF
    exact ⟨(hy hback).1, (hy hback).2.trans hclean⟩
  | some z =>
    intro hF
    obtain ⟨hback, hclean⟩ := ho hF
    exact ⟨(hy hback).1, (hy hback).2.trans hclean⟩

theorem collect {step : Parse (Option α)} (h : Clears step (∀ x ∈ ·, F x) True) :
    Clears (Parse.collect step) (∀ x ∈ ·, F x) True := by
  refine Ensures.collect fun r => (h r).mono fun o r' ho => ?_
  cases o with
  | none => exact fun _ => ho nofun
  | some x =>
    intro xs r'' hxs hall
    obtain ⟨hx, hxs'⟩ := List.forall_mem_cons.mp hall
    refine ⟨trivial, (ho ?_).2.trans (hxs hxs').2⟩
    rintro _ ⟨⟩
    exact hx

theorem some_pure {a : α} (h : F a → P) : Clears (Pure.pure (some a)) (∀ x ∈ ·, F x) P :=
  pure fun hall => h (hall a rfl)

theorem commaSeparated (h : Clears p F True) :
    Clears (Parse.commaSeparated p) (∀ x ∈ ·, F x) True := by
  refine bind h fun first => bind (collect (F := F) ?_) fun others => pure ?_
  · refine accept_bind rfl (bind h fun x => some_pure fun hx => ?_) (pure fun _ => trivial)
    exact ⟨hx, trivial⟩
  · intro hall
    obtain ⟨hfirst, hothers⟩ := List.forall_mem_cons.mp hall
    exact ⟨hothers, hfirst, trivial⟩

theorem commaClosed {close : Symbol} (hclose : close ≠ .bracketOpen) (h : Clears p F True) :
    Clears (Parse.commaClosed close p) (∀ x ∈ ·, F x) True := by
  have hend : ∀ (P : Prop) (xs : List α), ((∀ x ∈ xs, F x) → P) →
      Clears (do Parse.expectSymbol close; return xs) (∀ x ∈ ·, F x) P :=
    fun P xs hP => bind (expectSymbol hclose) fun _ => pure fun hall => ⟨trivial, hP hall⟩
  have hothers : Clears (Parse.collect (commaStep close p)) (∀ x ∈ ·, F x) True := by
    refine collect (accept_bind rfl (isAt_bind (.of (pure fun _ => trivial)) ?_)
      (pure fun _ => trivial))
    exact bind h fun x => some_pure fun hx => ⟨hx, trivial⟩
  refine isAt_bind (.of ?_) (bind h fun first => bind hothers fun others => ?_)
  · dsimp only
    rw [if_pos rfl, pure_bind]
    exact hend _ [] fun _ => trivial
  · rw [pure_bind]
    refine hend _ (first :: others) fun hall => ?_
    obtain ⟨hfirst, hbehind⟩ := List.forall_mem_cons.mp hall
    exact ⟨hbehind, hfirst, trivial⟩

theorem statementsClosed {close : Symbol} (hclose : close ≠ .bracketOpen) (h : Clears p F True) :
    Clears (Parse.statementsClosed close p) (∀ x ∈ ·, F x) True := by
  refine collect (bind skipSemicolons fun _ => accept_bind (decide_eq_true hclose)
    (pure fun _ => ⟨trivial, trivial⟩) ?_)
  refine bind h fun x => bind statementEnd fun _ => some_pure fun hx => ?_
  exact ⟨trivial, hx, trivial, trivial⟩

end Clears

end Parse

end BoundedGo
