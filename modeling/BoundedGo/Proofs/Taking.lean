import BoundedGo.Proofs.Reading
import BoundedGo.Proofs.Showing

/-!
Parsers that take pieces. Where a parser reads tokens for what they show, and looks no further
than the token behind them, it is enough to know the pieces and which kinds of tokens may follow.
Then the pieces of parsers in a row are put in a row, if the first piece of each may follow the one
before it (`Takes.bind`); the same goes for the rounds of a loop (`Rounds.items`), and so for items
with commas between them and for items that end like statements.
-/
namespace BoundedGo.Parse

variable {α β : Type} {l : Bool} {ts post : List Token} {ps qs : List Piece}
  {p : Parse α} {f : α → Parse β} {a : α} {b : β} {C D : TokenKind → Prop}

/-- The kind of the first piece, or of what follows if there is none. -/
def leadKind (ps : List Piece) (next : TokenKind) : TokenKind :=
  match ps with
  | [] => next
  | p :: _ => p.1

@[simp] theorem leadKind_nil (next : TokenKind) : leadKind [] next = next := rfl

@[simp] theorem leadKind_cons (p : Piece) (ps : List Piece) (next : TokenKind) :
    leadKind (p :: ps) next = p.1 := rfl

theorem leadKind_append (ps qs : List Piece) (next : TokenKind) :
    leadKind (ps ++ qs) next = leadKind ps (leadKind qs next) := by
  cases ps <;> rfl

theorem headKind_append (h : Shows ts ps) (post : List Token) :
    headKind (ts ++ post) = leadKind ps (headKind post) := by
  cases h with
  | nil => rfl
  | cons ht _ => exact ht.kind_eq

/-- With literals of named types allowed or not, the parser gives `a` on tokens that show `ps`, if
a token of a kind in `C` follows. -/
def Takes (l : Bool) (p : Parse α) (ps : List Piece) (C : TokenKind → Prop) (a : α) : Prop :=
  ∀ ts post, Shows ts ps → C (headKind post) → Reads l p ts post a

/-- Whatever follows. -/
def Anything : TokenKind → Prop := fun _ => True

namespace Takes

theorem mono (h : Takes l p ps C a) (hD : ∀ k, D k → C k) : Takes l p ps D a :=
  fun ts post hts hpost => h ts post hts (hD _ hpost)

theorem pure (a : α) : Takes l (Pure.pure a : Parse α) [] C a := by
  intro ts post hts _
  obtain rfl := hts.eq_nil
  exact .pure a

theorem bind (hp : Takes l p ps C a) (hf : Takes l (f a) qs D b)
    (h : ∀ k, D k → C (leadKind qs k)) : Takes l (p >>= f) (ps ++ qs) D b := by
  intro ts post hts hpost
  obtain ⟨us, vs, rfl, hus, hvs⟩ := hts.exists_append
  refine .bind (hp us _ hus ?_) (hf vs post hvs hpost)
  rw [headKind_append hvs]
  exact h _ hpost

/-- A parser that only looks ahead. -/
theorem peek (hp : Takes l p [] C a) (hf : Takes l (f a) qs D b)
    (h : ∀ k, D k → C (leadKind qs k)) : Takes l (p >>= f) qs D b :=
  bind hp hf h

/-- A parser that goes on by one token. -/
theorem front {x : Piece} (hp : Takes l p [x] C a) (hf : Takes l (f a) qs D b)
    (h : ∀ k, D k → C (leadKind qs k)) : Takes l (p >>= f) (x :: qs) D b :=
  bind hp hf h

/-- A parser that goes on by one token, whatever follows. -/
theorem step {x : Piece} (hp : Takes l p [x] Anything a) (hf : Takes l (f a) qs D b) :
    Takes l (p >>= f) (x :: qs) D b :=
  front hp hf fun _ _ => trivial

/-- A parser behind which nothing more is read. -/
theorem last (hp : Takes l p ps C a) (hf : Takes l (f a) [] C b) :
    Takes l (p >>= f) ps C b := by
  rw [← List.append_nil ps]
  exact bind hp hf fun _ hk => hk

/-- A look at the token ahead. -/
theorem kind_bind {f : TokenKind → Parse β}
    (hf : ∀ k, D k → Takes l (f (leadKind qs k)) qs D b) : Takes l (Parse.kind >>= f) qs D b := by
  intro ts post hts hpost
  refine .peek .kind ?_
  rw [headKind_append hts]
  exact hf _ hpost ts post hts hpost

/-- A look at the token behind the one ahead. -/
theorem kindAt_bind {x : Piece} {f : TokenKind → Parse β}
    (hf : ∀ k, D k → Takes l (f (leadKind qs k)) (x :: qs) D b) :
    Takes l (Parse.kindAt 1 >>= f) (x :: qs) D b := by
  intro ts post hts hpost
  obtain ⟨t, rest, rfl, -, hrest⟩ := hts.exists_cons
  have hnext : Reads l (Parse.kindAt 1) [] (t :: rest ++ post) (leadKind qs (headKind post)) := by
    rw [← headKind_append hrest]
    exact .kindAt_one t
  exact .peek hnext (hf _ hpost _ post hts hpost)

theorem current_bind {f : Token → Parse β} {x : Piece}
    (hf : ∀ t : Token, t.Shows x → Takes l (f t) (x :: qs) D b) :
    Takes l (Parse.current >>= f) (x :: qs) D b := by
  intro ts post hts hpost
  obtain ⟨t, rest, rfl, ht, -⟩ := hts.exists_cons
  exact .peek (.current t) (hf t ht _ post hts hpost)

theorem skip (x : Piece) : Takes l Parse.skip [x] Anything () := by
  intro ts post hts _
  obtain ⟨t, rfl, -⟩ := hts.exists_single
  exact .skip t

theorem isAt (k : TokenKind) : Takes l (Parse.isAt k) [] (· = k) true := by
  intro ts post hts hpost
  obtain rfl := hts.eq_nil
  rw [← decide_eq_true hpost]
  exact .isAt k

theorem isAt_other (k : TokenKind) : Takes l (Parse.isAt k) [] (· ≠ k) false := by
  intro ts post hts hpost
  obtain rfl := hts.eq_nil
  rw [← decide_eq_false hpost]
  exact .isAt k

theorem accept {x : Piece} {k : TokenKind} (h : x.1 = k) :
    Takes l (Parse.accept k) [x] Anything true := by
  intro ts post hts _
  obtain ⟨t, rfl, ht⟩ := hts.exists_single
  exact .accept (ht.kind_eq.trans h)

theorem accept_other (k : TokenKind) : Takes l (Parse.accept k) [] (· ≠ k) false := by
  intro ts post hts hpost
  obtain rfl := hts.eq_nil
  exact .accept_other hpost

theorem expectSymbol (s : Symbol) : Takes l (Parse.expectSymbol s) [s.piece] Anything () :=
  (accept rfl).last (pure ())

theorem expectKeyword (w : Keyword) : Takes l (Parse.expectKeyword w) [w.piece] Anything () :=
  (accept rfl).last (pure ())

theorem identifier (name : String) :
    Takes l Parse.identifier [(.ident, name)] Anything name := by
  intro ts post hts _
  obtain ⟨t, rfl, ht⟩ := hts.exists_single
  obtain rfl := ht.lexeme_eq rfl
  exact .identifier ht.kind_eq

theorem statementEnd : Takes l Parse.statementEnd [Symbol.semicolon.piece] Anything () := by
  intro ts post hts _
  obtain ⟨t, rfl, ht⟩ := hts.exists_single
  exact .statementEnd ht.kind_eq

theorem statementEnd_brace : Takes l Parse.statementEnd [] (· = .symbol .braceClose) () := by
  refine kind_bind ?_
  rintro _ rfl
  exact pure ()

theorem skipSemicolons : Takes l Parse.skipSemicolons [] (· ≠ .symbol .semicolon) () := by
  intro ts post hts hpost
  obtain rfl := hts.eq_nil
  exact .skipSemicolons hpost

theorem withLiterals {allowed : Bool} (h : Takes allowed p ps C a) :
    Takes l (Parse.withLiterals allowed p) ps C a :=
  fun ts post hts hpost => .withLiterals (h ts post hts hpost)

end Takes

/-- The rounds of a loop give `xs` on tokens that show `ps`, if a token of a kind in `C` follows. -/
def Rounds (l : Bool) (step : Parse (Option α)) (ps : List Piece) (C : TokenKind → Prop)
    (xs : List α) : Prop :=
  ∀ ts post, Shows ts ps → C (headKind post) → Collects l step ts post xs

namespace Rounds

variable {step : Parse (Option α)} {x : α} {xs : List α}

theorem takes (h : Rounds l step ps C xs) : Takes l (Parse.collect step) ps C xs :=
  fun ts post hts hpost => (h ts post hts hpost).reads

theorem stop (h : Takes l step ps C none) : Rounds l step ps C [] :=
  fun ts post hts hpost => .stop (h ts post hts hpost)

theorem next (hx : Takes l step ps C (some x)) (hne : ps ≠ []) (h : Rounds l step qs D xs)
    (hnext : ∀ k, D k → C (leadKind qs k)) : Rounds l step (ps ++ qs) D (x :: xs) := by
  intro ts post hts hpost
  obtain ⟨us, vs, rfl, hus, hvs⟩ := hts.exists_append
  have hfollow : C (headKind (vs ++ post)) := headKind_append hvs post ▸ hnext _ hpost
  have hround := hx us _ hus hfollow
  obtain ⟨piece, pieces, rfl⟩ := List.exists_cons_of_ne_nil hne
  obtain ⟨t, us, rfl, -, -⟩ := hus.exists_cons
  exact .next hround (h vs post hvs hpost)

/-- Rounds that take the items one after the other, and those behind them. -/
theorem items {items : List (List Piece × α)}
    (hitem : ∀ x ∈ items, Takes l step x.1 C (some x.2)) (hne : ∀ x ∈ items, x.1 ≠ [])
    (hnext : ∀ x ∈ items, ∀ k, C (leadKind x.1 k)) (h : Rounds l step qs D xs)
    (hlast : ∀ k, D k → C (leadKind qs k)) :
    Rounds l step (items.flatMap (·.1) ++ qs) D (items.map (·.2) ++ xs) := by
  induction items with
  | nil => exact h
  | cons x items ih =>
    rw [List.flatMap_cons, List.append_assoc]
    refine next (hitem x List.mem_cons_self) (hne x List.mem_cons_self)
      (ih (fun y hy => hitem y (List.mem_cons_of_mem _ hy))
        (fun y hy => hne y (List.mem_cons_of_mem _ hy))
        fun y hy => hnext y (List.mem_cons_of_mem _ hy)) fun k hk => ?_
    cases items with
    | nil => exact hlast k hk
    | cons y items =>
      rw [List.flatMap_cons, List.append_assoc, leadKind_append]
      exact hnext y (by simp) _

end Rounds

namespace Takes

/-- A loop whose rounds take the items one after the other and stop behind them. -/
theorem collect {step : Parse (Option α)} {items : List (List Piece × α)} {tail : List Piece}
    (hitem : ∀ x ∈ items, Takes l step x.1 C (some x.2))
    (hne : ∀ x ∈ items, x.1 ≠ []) (hnext : ∀ x ∈ items, ∀ k, C (leadKind x.1 k))
    (hstop : Takes l step tail D none) (htail : ∀ k, D k → C (leadKind tail k)) :
    Takes l (Parse.collect step) (items.flatMap (·.1) ++ tail) D (items.map (·.2)) := by
  rw [← List.append_nil (items.map (·.2))]
  exact (Rounds.items hitem hne hnext (.stop hstop) htail).takes

/-- A loop that stops at once. -/
theorem collect_nil {step : Parse (Option α)} (hstop : Takes l step [] C none) :
    Takes l (Parse.collect step) [] C [] :=
  (Rounds.stop hstop).takes

end Takes

/-- Stretches of pieces with commas between them. -/
def commaPieces : List (List Piece) → List Piece
  | [] => []
  | ps :: rest => ps ++ rest.flatMap (Symbol.comma.piece :: ·)

theorem length_flatten_le_commaPieces (pss : List (List Piece)) :
    pss.flatten.length ≤ (commaPieces pss).length := by
  have hbehind : ∀ qss : List (List Piece),
      qss.flatten.length ≤ (qss.flatMap (Symbol.comma.piece :: ·)).length := by
    intro qss
    induction qss with
    | nil => exact Nat.le_refl _
    | cons qs qss ih =>
      simp only [List.flatten_cons, List.flatMap_cons, List.length_append, List.length_cons]
      omega
  cases pss with
  | nil => exact Nat.le_refl _
  | cons ps pss =>
    simp only [List.flatten_cons, commaPieces, List.length_append]
    exact Nat.add_le_add_left (hbehind pss) _

theorem length_le_commaPieces {ps : List Piece} {pss : List (List Piece)} (h : ps ∈ pss) :
    ps.length ≤ (commaPieces pss).length :=
  (List.sublist_flatten_of_mem h).length_le.trans (length_flatten_le_commaPieces pss)

/-- A comma, or what comes behind the last of the items. -/
def CommaOr (C : TokenKind → Prop) (k : TokenKind) : Prop := k = .symbol .comma ∨ C k

namespace Takes

variable {item : Parse α} {items : List (List Piece × α)} {close : Symbol}

/-- The items behind the first one, each with the comma in front of it. -/
private theorem collect_commas {step : Parse (Option α)}
    (hitem : ∀ x ∈ items, Takes l step (Symbol.comma.piece :: x.1) (CommaOr C) (some x.2))
    (hstop : Takes l step [] C none) :
    Takes l (Parse.collect step) ((items.map (·.1)).flatMap (Symbol.comma.piece :: ·)) C
      (items.map (·.2)) := by
  have hrounds : Takes l (Parse.collect step)
      ((items.map fun x => (Symbol.comma.piece :: x.1, x.2)).flatMap (·.1) ++ []) C
      ((items.map fun x => (Symbol.comma.piece :: x.1, x.2)).map (·.2)) :=
    collect (List.forall_mem_map.mpr hitem)
      (List.forall_mem_map.mpr fun x _ => List.cons_ne_nil _ _)
      (List.forall_mem_map.mpr fun x _ k => .inl rfl) hstop fun _ hk => .inr hk
  simpa [List.flatMap_map, Function.comp_def] using hrounds

/-- Behind an item comes a comma, if it is not the last one. -/
private theorem commaOr_leadKind (items : List (List Piece × α)) {k : TokenKind} (hk : C k) :
    CommaOr C (leadKind ((items.map (·.1)).flatMap (Symbol.comma.piece :: ·)) k) := by
  cases items with
  | nil => exact .inr hk
  | cons y items => exact .inl rfl

theorem commaSeparated {x : List Piece × α}
    (h : ∀ y ∈ x :: items, Takes l item y.1 (CommaOr C) y.2)
    (hC : ∀ k, C k → k ≠ .symbol .comma) :
    Takes l (Parse.commaSeparated item) (commaPieces ((x :: items).map (·.1))) C
      ((x :: items).map (·.2)) := by
  refine bind (h x List.mem_cons_self) (last (collect_commas ?_ ?_) (pure _)) ?_
  · intro y hy
    exact step (accept rfl) ((h y (List.mem_cons_of_mem _ hy)).last (pure _))
  · exact peek (accept_other _) (pure none) hC
  · exact fun k hk => commaOr_leadKind items hk

theorem commaClosed (hclose : close ≠ .comma)
    (h : ∀ y ∈ items, Takes l item y.1 (CommaOr (· = .symbol close)) y.2)
    (hstart : ∀ y ∈ items, ∀ k, leadKind y.1 k ≠ .symbol close) :
    Takes l (Parse.commaClosed close item) (commaPieces (items.map (·.1)) ++ [close.piece])
      Anything (items.map (·.2)) := by
  have hend : ∀ as : List α, Takes l (do Parse.expectSymbol close; return as) [close.piece]
      Anything as := fun as => step (expectSymbol close) (pure as)
  cases items with
  | nil =>
    exact peek (isAt _) (peek (C := Anything) (pure []) (hend []) fun _ _ => trivial) fun _ _ => rfl
  | cons x items =>
    rw [List.map_cons, commaPieces, List.append_assoc]
    refine peek (isAt_other _) (bind (h x List.mem_cons_self)
      (bind (C := (· = .symbol close)) (collect_commas ?_ ?_)
      (peek (C := Anything) (pure _) (hend _) fun _ _ => trivial) ?_) ?_) ?_
    · intro y hy
      have hy' := List.mem_cons_of_mem x hy
      refine step (accept rfl) (peek (isAt_other _) ((h y hy').last (pure _)) ?_)
      exact fun k _ => hstart y hy' k
    · refine peek (accept_other _) (pure none) ?_
      rintro _ rfl heq
      exact hclose (TokenKind.symbol.inj heq)
    · exact fun _ _ => rfl
    · intro k _
      rw [leadKind_append]
      exact commaOr_leadKind items rfl
    · intro k _
      rw [leadKind_append]
      exact hstart x List.mem_cons_self _

end Takes

/-- The step of the loop over items that end like statements. -/
def statementStep (close : Symbol) (item : Parse α) : Parse (Option α) := do
  Parse.skipSemicolons
  if ← accept close then return none
  else do
    let x ← item
    Parse.statementEnd
    return some x

namespace Takes

variable {item : Parse α} {close : Symbol}

theorem statementStep_close (hclose : close ≠ .semicolon) :
    Takes l (statementStep close item) [close.piece] Anything none := by
  refine peek skipSemicolons (step (accept rfl) (pure none)) fun _ _ heq => ?_
  exact hclose (TokenKind.symbol.inj heq)

/-- An item and what ends it. -/
theorem statementStep_item (h : Takes l item ps C a) (hend : Takes l Parse.statementEnd qs D ())
    (hstart : ∀ k, leadKind ps k ≠ .symbol close ∧ leadKind ps k ≠ .symbol .semicolon)
    (hC : ∀ k, D k → C (leadKind qs k)) :
    Takes l (statementStep close item) (ps ++ qs) D (some a) := by
  have hlead : ∀ k, leadKind (ps ++ qs) k ≠ .symbol close ∧
      leadKind (ps ++ qs) k ≠ .symbol .semicolon := by
    intro k
    rw [leadKind_append]
    exact hstart _
  refine peek skipSemicolons (peek (accept_other _) ?_ fun k _ => (hlead k).1)
    fun k _ => (hlead k).2
  exact bind h (hend.last (pure _)) hC

end Takes

section

variable {γ : Type} {item : Parse α} {close : Symbol} {piece : γ → List Piece} {value : γ → α}
  {rows : List γ}

/-- Items with a semicolon behind each of them, and more rounds behind them. -/
theorem Rounds.statements {xs : List α}
    (h : ∀ y ∈ rows, Takes l item (piece y) (· = .symbol .semicolon) (value y))
    (hstart : ∀ y ∈ rows, ∀ k,
      leadKind (piece y) k ≠ .symbol close ∧ leadKind (piece y) k ≠ .symbol .semicolon)
    (hrest : Rounds l (statementStep close item) qs D xs) :
    Rounds l (statementStep close item)
      (rows.flatMap (fun y => piece y ++ [Symbol.semicolon.piece]) ++ qs) D
      (rows.map value ++ xs) := by
  have hrounds : Rounds l (statementStep close item)
      ((rows.map fun y => (piece y ++ [Symbol.semicolon.piece], value y)).flatMap (·.1) ++ qs) D
      ((rows.map fun y => (piece y ++ [Symbol.semicolon.piece], value y)).map (·.2) ++ xs) := by
    refine Rounds.items (C := Anything) (List.forall_mem_map.mpr fun y hy => ?_)
      (List.forall_mem_map.mpr fun y _ => by simp) (fun _ _ _ => trivial) hrest
      fun _ _ => trivial
    exact .statementStep_item (h y hy) .statementEnd (hstart y hy) fun _ _ => rfl
  simpa [List.flatMap_map, Function.comp_def] using hrounds

theorem Takes.statementsClosed (hclose : close ≠ .semicolon)
    (h : ∀ y ∈ rows, Takes l item (piece y) (· = .symbol .semicolon) (value y))
    (hstart : ∀ y ∈ rows, ∀ k,
      leadKind (piece y) k ≠ .symbol close ∧ leadKind (piece y) k ≠ .symbol .semicolon) :
    Takes l (Parse.statementsClosed close item)
      (rows.flatMap (fun y => piece y ++ [Symbol.semicolon.piece]) ++ [close.piece]) Anything
      (rows.map value) := by
  rw [← List.append_nil (rows.map value)]
  exact (Rounds.statements h hstart (.stop (.statementStep_close hclose))).takes

/-- In front of the closing brace there need not be a semicolon. -/
theorem Takes.statementsClosed_last {last : Option γ}
    (h : ∀ y ∈ rows ++ last.toList,
      Takes l item (piece y) (fun k => k = .symbol .semicolon ∨ k = .symbol .braceClose) (value y))
    (hstart : ∀ y ∈ rows ++ last.toList, ∀ k,
      leadKind (piece y) k ≠ .symbol .braceClose ∧ leadKind (piece y) k ≠ .symbol .semicolon) :
    Takes l (Parse.statementsClosed .braceClose item)
      (rows.flatMap (fun y => piece y ++ [Symbol.semicolon.piece]) ++
        (last.elim [] piece ++ [Symbol.braceClose.piece])) Anything
      ((rows ++ last.toList).map value) := by
  have hclose : Takes l (statementStep .braceClose item) [Symbol.braceClose.piece] Anything none :=
    .statementStep_close (by decide)
  have hlast : Rounds l (statementStep .braceClose item)
      (last.elim [] piece ++ [Symbol.braceClose.piece]) Anything (last.toList.map value) := by
    cases last with
    | none => exact .stop hclose
    | some y =>
      have hy : y ∈ rows ++ [y] := List.mem_append_right _ List.mem_cons_self
      have hround : Takes l (statementStep .braceClose item) (piece y ++ [])
          (· = .symbol .braceClose) (some (value y)) :=
        .statementStep_item (h y hy) .statementEnd_brace (hstart y hy) fun _ => .inr
      rw [List.append_nil] at hround
      refine .next hround (fun hnil => ?_) (.stop hclose) fun _ _ => rfl
      have hlead := (hstart y hy (.symbol .semicolon)).2
      rw [show piece y = [] from hnil] at hlead
      exact hlead rfl
  rw [List.map_append]
  refine (Rounds.statements (fun y hy => .mono (h y ?_) fun _ => .inl) (fun y hy => ?_) hlast).takes
  · exact List.mem_append_left _ hy
  · exact hstart y (List.mem_append_left _ hy)

end

end BoundedGo.Parse
