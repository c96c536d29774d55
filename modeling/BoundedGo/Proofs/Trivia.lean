import BoundedGo.Token.Gap
import Mathlib.Data.List.TakeWhile

/-!
What stands between tokens. A trivial stretch of text is white space and comments; a comment that
begins with two slashes ends in front of a line feed or with the text, and a block comment ends
where it is closed for the first time.
Main statements: gaps are trivial (`isTrivia_skipped`), and where a statement is pending they end
behind the first line feed that they hold (`newline_mem_of_line`, `newline_not_mem_skipped`).
-/
namespace BoundedGo

inductive IsTrivia : List Char → Prop
  | nil : IsTrivia []
  | blank {c : Char} {cs : List Char} (hc : Text.isBlank c) (h : IsTrivia cs) : IsTrivia (c :: cs)
  | lineComment {text cs : List Char} (htext : '\n' ∉ text) (hend : ∀ c ∈ cs.head?, c = '\n')
    (h : IsTrivia cs) : IsTrivia ('/' :: '/' :: text ++ cs)
  | blockComment {body cs : List Char} (hbody : ¬ ['*', '/'] <:+: body) (h : IsTrivia cs) :
    IsTrivia ('/' :: '*' :: (body ++ ['*', '/']) ++ cs)

/-- The first end of a block comment closes it. -/
theorem exists_body_of_blockComment {cs text rest : List Char}
    (h : blockComment cs = some (text, rest)) :
    ∃ body, text = body ++ ['*', '/'] ∧ ¬ ['*', '/'] <:+: body := by
  fun_induction blockComment cs generalizing text with
  | case1 => cases h
  | case2 cs =>
    obtain ⟨rfl, -⟩ := Prod.mk.inj (Option.some.inj h)
    exact ⟨[], rfl, by decide⟩
  | case3 c cs hopen inner tail hinner ih =>
    obtain ⟨rfl, rfl⟩ := Prod.mk.inj (Option.some.inj h)
    obtain ⟨body, rfl, hbody⟩ := ih hinner
    refine ⟨c :: body, rfl, ?_⟩
    rw [List.infix_cons_iff]
    intro hinfix
    cases hinfix with
    | inl hstart =>
      -- An end at the front would have been found here.
      obtain ⟨behind, hbehind⟩ := hstart
      have hcs := blockComment_append hinner
      rw [List.cons_append, List.cons.injEq] at hbehind
      obtain ⟨rfl, rfl⟩ := hbehind
      exact hopen _ rfl hcs.symm
    | inr hinside => exact hbody hinside
  | case4 => cases h

/-- A line feed is skipped, also where it ends a statement. -/
theorem head?_skipped_newline (pending : Bool) (cs : List Char) :
    (gap pending ('\n' :: cs)).skipped.head? = some '\n' := by
  rw [gap]
  split
  · rfl
  · rfl

theorem newline_not_mem_takeWhile {p : Char → Bool} (hp : p '\n' = false) (cs : List Char) :
    '\n' ∉ cs.takeWhile p := by
  intro hmem
  rw [List.mem_takeWhile_imp hmem] at hp
  cases hp

/-- Behind the text of a comment that begins with two slashes the line ends. -/
theorem head?_skipped_dropWhile (pending : Bool) (cs : List Char) :
    ∀ c ∈ (gap pending (cs.dropWhile (· != '\n'))).skipped.head?, c = '\n' := by
  intro c hc
  cases hrest : cs.dropWhile (· != '\n') with
  | nil =>
    rw [hrest, gap.eq_def] at hc
    cases hc
  | cons d ds =>
    have hd : (d != '\n') = false := by
      have hhead := List.head?_dropWhile_not (· != '\n') cs
      rw [hrest] at hhead
      simpa using hhead
    obtain rfl : d = '\n' := by simpa using hd
    rw [hrest, head?_skipped_newline] at hc
    exact (Option.some.inj hc).symm

theorem isTrivia_skipped (pending : Bool) (cs : List Char) :
    IsTrivia (gap pending cs).skipped := by
  have hnewline : Text.isBlank '\n' := by decide
  fun_induction gap pending cs with
  | case1 => exact .nil
  | case2 => exact .blank hnewline .nil
  | case3 cs hpending ih => exact .blank hnewline ih
  | case4 cs ih =>
    exact .lineComment (newline_not_mem_takeWhile rfl cs) (head?_skipped_dropWhile _ cs) ih
  | case5 => exact .nil
  | case6 cs text rest hclosed hstop =>
    obtain ⟨body, rfl, hbody⟩ := exists_body_of_blockComment hclosed
    simpa using IsTrivia.blockComment hbody .nil
  | case7 cs text rest hclosed hstop ih =>
    obtain ⟨body, rfl, hbody⟩ := exists_body_of_blockComment hclosed
    exact .blockComment hbody ih
  | case8 c cs _ _ _ hblank ih => exact .blank hblank ih
  | case9 => exact .nil

/-- A gap ends a line only for a pending statement, and behind a line feed. -/
theorem newline_mem_of_line {pending : Bool} {cs : List Char}
    (h : (gap pending cs).stop = .line) : pending ∧ '\n' ∈ (gap pending cs).skipped := by
  fun_induction gap pending cs with
  | case1 => cases h
  | case2 cs hpending => exact ⟨hpending, List.mem_singleton_self _⟩
  | case3 cs hpending ih => exact ⟨(ih h).1, List.mem_append_right _ (ih h).2⟩
  | case4 cs ih => exact ⟨(ih h).1, List.mem_append_right _ (ih h).2⟩
  | case5 => cases h
  | case6 cs text rest hclosed hstop =>
    obtain ⟨hpending, htext⟩ := Bool.and_eq_true_iff.mp hstop
    refine ⟨hpending, ?_⟩
    simpa using htext
  | case7 cs text rest hclosed hstop ih => exact ⟨(ih h).1, List.mem_append_right _ (ih h).2⟩
  | case8 c cs _ _ _ hblank ih => exact ⟨(ih h).1, List.mem_append_right _ (ih h).2⟩
  | case9 => cases h

/-- Any other gap of a pending statement holds no line feed. -/
theorem newline_not_mem_skipped {cs : List Char} (h : (gap true cs).stop ≠ .line) :
    '\n' ∉ (gap true cs).skipped := by
  generalize hpending : true = pending at h ⊢
  fun_induction gap pending cs with
  | case1 => exact List.not_mem_nil
  | case2 => exact absurd rfl h
  | case3 cs hnot ih => exact absurd hpending.symm hnot
  | case4 cs ih =>
    have hcomment : '\n' ∉ cs.takeWhile (· != '\n') := newline_not_mem_takeWhile rfl cs
    have hbehind := ih h
    simp only [Gap.after, List.cons_append, List.mem_cons, List.mem_append, not_or]
    exact ⟨by decide, by decide, hcomment, hbehind⟩
  | case5 => exact List.not_mem_nil
  | case6 => exact absurd rfl h
  | case7 cs text rest hclosed hstop ih =>
    have htext : '\n' ∉ text := by
      subst hpending
      simpa using hstop
    have hbehind := ih h
    simp only [Gap.after, List.cons_append, List.mem_cons, List.mem_append, not_or]
    exact ⟨by decide, by decide, htext, hbehind⟩
  | case8 c cs hline hslashes hblock hblank ih =>
    have hbehind := ih h
    simp only [Gap.after, List.cons_append, List.nil_append, List.mem_cons, not_or]
    exact ⟨fun hc => hline hc.symm, hbehind⟩
  | case9 => exact List.not_mem_nil

/-- A gap stops at a comment only if nothing closes it. -/
theorem exists_rest_of_openComment {pending : Bool} {cs : List Char}
    (h : (gap pending cs).stop = .openComment) :
    ∃ inside, (gap pending cs).rest = '/' :: '*' :: inside ∧ blockComment inside = none := by
  fun_induction gap pending cs with
  | case5 cs hopen => exact ⟨cs, rfl, hopen⟩
  | case3 cs hpending ih => exact ih h
  | case4 cs ih => exact ih h
  | case7 cs text rest hclosed hstop ih => exact ih h
  | case8 c cs _ _ _ hblank ih => exact ih h
  | _ => cases h

end BoundedGo
