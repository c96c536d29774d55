import BoundedGo.Text.Blank

/-!
The gaps between tokens: white space, comments to the end of the line and block comments. Where a
statement may end, a gap stops at the first line feed outside of a block comment, or behind the
first block comment that holds one.
Main statement: what a gap skips and what it leaves are the text (`gap_skipped_append_rest`).
-/
namespace BoundedGo

/-- Why a gap stops: at the end of a line that ends a statement, in front of a token or the end
of the source, or in front of a block comment that is never closed. -/
inductive GapStop
  | line | element | openComment
  deriving DecidableEq, Repr

structure Gap where
  stop : GapStop
  skipped : List Char
  rest : List Char

/-- A gap with more text in front. -/
def Gap.after (text : List Char) (g : Gap) : Gap :=
  { g with skipped := text ++ g.skipped }

/-- The text of a block comment behind its opening, and what follows its end. -/
def blockComment : List Char → Option (List Char × List Char)
  | [] => none
  | '*' :: '/' :: cs => some (['*', '/'], cs)
  | c :: cs =>
    match blockComment cs with
    | some (text, rest) => some (c :: text, rest)
    | none => none

theorem blockComment_append {cs text rest : List Char}
    (h : blockComment cs = some (text, rest)) : text ++ rest = cs := by
  fun_induction blockComment cs generalizing text with
  | case1 => simp at h
  | case2 cs =>
    obtain ⟨rfl, rfl⟩ : ['*', '/'] = text ∧ cs = rest := by simpa using h
    rfl
  | case3 c cs _ inner tail hinner ih =>
    obtain ⟨rfl, rfl⟩ : c :: inner = text ∧ tail = rest := by simpa using h
    simp [ih hinner]
  | case4 => simp at h

/-- The gap that a text begins with. `pending` tells that a line feed would end a statement. -/
def gap (pending : Bool) (cs : List Char) : Gap :=
  match cs with
  | [] => ⟨.element, [], []⟩
  | '\n' :: cs => if pending then ⟨.line, ['\n'], cs⟩ else (gap pending cs).after ['\n']
  | '/' :: '/' :: cs =>
    (gap pending (cs.dropWhile (· != '\n'))).after ('/' :: '/' :: cs.takeWhile (· != '\n'))
  | '/' :: '*' :: cs =>
    match _closed : blockComment cs with
    | none => ⟨.openComment, [], '/' :: '*' :: cs⟩
    | some (text, rest) =>
      if pending && text.contains '\n' then ⟨.line, '/' :: '*' :: text, rest⟩
      else (gap pending rest).after ('/' :: '*' :: text)
  | c :: cs => if Text.isBlank c then (gap pending cs).after [c] else ⟨.element, [], c :: cs⟩
termination_by cs.length
decreasing_by
  · simp
  · have := (List.dropWhile_sublist (fun c : Char => c != '\n') (l := cs)).length_le
    simp only [List.length_cons]
    omega
  · have := congrArg List.length (blockComment_append _closed)
    simp only [List.length_append, List.length_cons] at this ⊢
    omega
  · simp

theorem gap_skipped_append_rest (pending : Bool) (cs : List Char) :
    (gap pending cs).skipped ++ (gap pending cs).rest = cs := by
  fun_induction gap pending cs with
  | case6 cs text rest h hstop => simp [blockComment_append h]
  | case7 cs text rest h hstop ih => simp [Gap.after, ih, blockComment_append h]
  | _ => simp_all [Gap.after]

/-- A gap that ends a line has skipped its line feed. -/
theorem gap_skipped_length_pos (pending : Bool) (cs : List Char)
    (h : (gap pending cs).stop = .line) : 0 < (gap pending cs).skipped.length := by
  fun_induction gap pending cs <;> simp_all [Gap.after]

end BoundedGo
