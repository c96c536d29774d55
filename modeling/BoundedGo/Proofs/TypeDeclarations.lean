import BoundedGo.Proofs.LookingAhead
import BoundedGo.Proofs.SingleDefinition
import BoundedGo.Proofs.Termination

/-!
Declarations of types. Behind the name of a type stands the type, unless a bracket and a name look
like type parameters; then the declaration is refused. An array whose length begins with a name and
goes on is such a case as well, so not every type that can be read can be declared.
Main statement: in a declaration a type is read as it is read by itself, except where its tokens
begin like type parameters (`typeDeclaration_eq`).
-/
namespace BoundedGo

namespace Stream

theorem kindAt_eq (s : Stream) (n : Nat) : s.kindAt n = Parse.headKind (s.rest.drop n) := by
  unfold kindAt
  rw [← List.head?_drop]
  cases s.rest.drop n with
  | nil => rfl
  | cons t r => rfl

end Stream

namespace Parse

open Grammar

variable {α : Type}

/-- Whether tokens begin like the parameters of a generic type: with a bracket and a name, and not
with the length of an array that is a name. -/
def beginsGeneric (ts : List Token) : Bool :=
  headKind ts = .symbol .bracketOpen && headKind (ts.drop 1) = .ident
    && headKind (ts.drop 2) ≠ .symbol .bracketClose

theorem looksGeneric_eq (s : Stream) : looksGeneric s = .ok (beginsGeneric s.rest) s := by
  have h : looksGeneric s = .ok (decide (s.current.kind = .symbol .bracketOpen)
    && decide (s.kindAt 1 = .ident) && decide (s.kindAt 2 ≠ .symbol .bracketClose)) s := rfl
  rw [h, current_kind, Stream.kindAt_eq, Stream.kindAt_eq]
  rfl

/-- Where a type is read there is no sign of an alias. -/
theorem headKind_of_typeExpr {g : Grammar} {s s' : Stream} {t : TypeExpr}
    (h : typeExpr g s = .ok t s') : headKind s.rest ≠ .symbol .assign := by
  intro hassign
  rw [← current_kind] at hassign
  have hrefuse : typeExpr g s = refuse .type s := by
    rw [typeExpr, bind_ok (show current s = .ok s.current s from rfl)]
    rw [hassign]
  rw [hrefuse] at h
  cases h

/-- Every depth that is enough for the tokens ahead reads the same types. -/
theorem type_ofDepth {n : Nat} {s : Stream} (h : s.rest.length + 2 ≤ n) :
    (ofDepth n).type s = typeExpression s :=
  ((deep_ofDepth h).type s).same (by omega)

variable {x w : Token} {seen r : List Token} {finish : Span} {l : Bool} {s' : Stream}
  {t : TypeExpr} {n : Nat}

/-- The name of a type and what stands behind it. -/
theorem typeSpec_eq (hx : x.kind = .ident) (hn : r.length + 2 ≤ n)
    (h : typeExpression ⟨x :: seen, r, finish, l⟩ = .ok t s') :
    typeSpec (ofDepth n) ⟨seen, x :: r, finish, l⟩ =
      if beginsGeneric r then fail .genericType ⟨x :: seen, r, finish, l⟩
      else .ok ⟨x.lexeme, false, t⟩ s' := by
  have hname : identifier ⟨seen, x :: r, finish, l⟩ = .ok x.lexeme ⟨x :: seen, r, finish, l⟩ :=
    Reads.identifier hx seen finish
  have htype : (ofDepth n).type ⟨x :: seen, r, finish, l⟩ = .ok t s' := by
    rw [type_ofDepth hn, h]
  have hassign := headKind_of_typeExpr h
  rw [typeSpec, bind_ok hname, bind_ok (looksGeneric_eq _)]
  split
  · rfl
  · rw [bind_ok (accept_none hassign), bind_ok htype]
    rfl

/-- Without a parenthesis there is one specification. -/
theorem specs_one {spec : Parse α} {s : Stream} (h : headKind s.rest ≠ .symbol .parenOpen) :
    specs spec s = (spec >>= fun one => pure [one]) s := by
  rw [specs, bind_ok (accept_none h)]
  rfl

/-- A declaration of one type. -/
theorem localDecl_type (hw : w.kind = .keyword .type) (hx : x.kind = .ident)
    (hn : r.length + 2 ≤ n) (h : typeExpression ⟨x :: w :: seen, r, finish, l⟩ = .ok t s') :
    localDecl (ofDepth n) ⟨seen, w :: x :: r, finish, l⟩ =
      if beginsGeneric r then fail .genericType ⟨x :: w :: seen, r, finish, l⟩
      else .ok (.type [⟨x.lexeme, false, t⟩]) s' := by
  have hkind : kind ⟨seen, w :: x :: r, finish, l⟩
      = .ok (.keyword .type) ⟨seen, w :: x :: r, finish, l⟩ := by
    rw [← hw]
    rfl
  have hskip : skip ⟨seen, w :: x :: r, finish, l⟩ = .ok () ⟨w :: seen, x :: r, finish, l⟩ := rfl
  have hopen : headKind (x :: r) ≠ .symbol .parenOpen := by simp [hx]
  have hspec := typeSpec_eq hx hn h
  rw [localDecl, bind_ok hkind]
  dsimp only
  have hspecs : specs (typeSpec (ofDepth n)) ⟨w :: seen, x :: r, finish, l⟩ =
      (typeSpec (ofDepth n) >>= fun spec => pure [spec]) ⟨w :: seen, x :: r, finish, l⟩ :=
    specs_one hopen
  rw [bind_ok hskip]
  by_cases hgeneric : beginsGeneric r
  · rw [if_pos hgeneric] at hspec ⊢
    rw [bind_error (hspecs.trans (bind_error hspec))]
    rfl
  · rw [if_neg hgeneric] at hspec ⊢
    rw [bind_ok (hspecs.trans (bind_ok hspec))]
    rfl

/-- With a type as its only declaration, a file ends behind this type. -/
theorem collect_type (hw : w.kind = .keyword .type) (hx : x.kind = .ident)
    (hn : r.length + 2 ≤ n) {us : List Token}
    (h : typeExpression ⟨x :: w :: seen, r, finish, l⟩ = .ok t ⟨us, [], finish, l⟩) :
    collect (declStep (ofDepth n)) ⟨seen, w :: x :: r, finish, l⟩ =
      if beginsGeneric r then fail .genericType ⟨x :: w :: seen, r, finish, l⟩
      else .ok [.type [⟨x.lexeme, false, t⟩]] ⟨us, [], finish, l⟩ := by
  have hdecl := localDecl_type hw hx hn h
  have hskip : skipSemicolons ⟨seen, w :: x :: r, finish, l⟩
      = .ok () ⟨seen, w :: x :: r, finish, l⟩ := by
    have hnone : headKind (w :: x :: r) ≠ .symbol .semicolon := by simp [hw]
    exact Reads.skipSemicolons hnone seen finish
  have hmore : headKind (w :: x :: r) ≠ .eof := by simp [hw]
  have htop : topDecl (ofDepth n) ⟨seen, w :: x :: r, finish, l⟩
      = localDecl (ofDepth n) ⟨seen, w :: x :: r, finish, l⟩ := by
    have hfunc : headKind (w :: x :: r) ≠ .keyword .func := by simp [hw]
    rw [topDecl, bind_ok (accept_none hfunc)]
    rfl
  have hstep : declStep (ofDepth n) ⟨seen, w :: x :: r, finish, l⟩ =
      (topDecl (ofDepth n) >>= fun decl => statementEnd >>= fun _ => pure (some decl))
        ⟨seen, w :: x :: r, finish, l⟩ := by
    rw [declStep, bind_ok hskip, bind_ok (isAt_eq .eof _),
      if_neg fun heof => hmore (of_decide_eq_true heof)]
  have hend : declStep (ofDepth n) ⟨us, [], finish, l⟩ = .ok none ⟨us, [], finish, l⟩ := by
    have hstop : Reads l (declStep (ofDepth n)) [] [] none :=
      .peek (.skipSemicolons (by simp)) (.peek (.isAt .eof) (.pure none))
    exact hstop us finish
  have hclose : statementEnd ⟨us, [], finish, l⟩ = .ok () ⟨us, [], finish, l⟩ := rfl
  rw [collect]
  by_cases hgeneric : beginsGeneric r
  · rw [if_pos hgeneric] at hdecl ⊢
    have herror := hstep.trans (bind_error (htop.trans hdecl))
    rw [collectN, bind_error herror]
    rfl
  · rw [if_neg hgeneric] at hdecl ⊢
    have hone := hstep.trans (bind_ok (htop.trans hdecl))
    rw [bind_ok hclose] at hone
    have hrest : collectN (declStep (ofDepth n)) (w :: x :: r).length ⟨us, [], finish, l⟩
        = .ok [] ⟨us, [], finish, l⟩ := by
      rw [List.length_cons, collectN, bind_ok hend]
      rfl
    rw [collectN, bind_ok hone]
    dsimp only
    rw [bind_ok hrest]
    rfl

theorem leadsTo_typeExpression {s : Stream} (h : typeExpression s = .ok t s') : s.LeadsTo s' := by
  have hproper := ((deep_ofDepth (Nat.le_refl (s.rest.length + 1))).typeExpr (s := s)).proper
  rw [show typeExpr (ofDepth (s.rest.length + 1)) s = .ok t s' from h] at hproper
  exact hproper.1

/-- What is read at the beginning is read behind other tokens. -/
theorem typeExpression_over {base : List Token}
    (h : typeExpression ⟨[], r, finish, l⟩ = .ok t s') :
    typeExpression ⟨base, r, finish, l⟩ = .ok t (s'.over base) := by
  have hlater := forward_typeExpression base ⟨[], r, finish, l⟩
  rw [h] at hlater
  exact hlater

/-- Behind the clause of its package, a file without imports is read by its declarations. -/
theorem file_of_head {head : List Token} {package : String}
    (hhead : Shows head [Keyword.package.piece, (.ident, package), lineEnd])
    (hsemicolon : headKind r ≠ .symbol .semicolon) (himport : headKind r ≠ .keyword .import_) :
    file ⟨[], head ++ r, finish, l⟩ =
      (collect (declStep (ofDepth (r.length + 4))) >>= fun decls =>
        pure (File.mk package [] decls)) ⟨head.reverse, r, finish, l⟩ := by
  obtain ⟨t₁, _, rfl, h₁, hhead⟩ := hhead.exists_cons
  obtain ⟨t₂, _, rfl, h₂, hhead⟩ := hhead.exists_cons
  obtain ⟨t₃, rfl, h₃⟩ := hhead.exists_single
  obtain rfl : t₂.lexeme = package := h₂.lexeme_eq rfl
  have hpackage : packageClause ⟨[], t₁ :: t₂ :: t₃ :: r, finish, l⟩
      = .ok t₂.lexeme ⟨[t₃, t₂, t₁], r, finish, l⟩ :=
    Reads.packageClause h₁.kind_eq h₂.kind_eq h₃.kind_eq [] finish
  have hskip : skipSemicolons ⟨[t₃, t₂, t₁], r, finish, l⟩ = .ok () ⟨[t₃, t₂, t₁], r, finish, l⟩ :=
    Reads.skipSemicolons hsemicolon [t₃, t₂, t₁] finish
  have himports : collect importStep ⟨[t₃, t₂, t₁], r, finish, l⟩
      = .ok [] ⟨[t₃, t₂, t₁], r, finish, l⟩ :=
    Reads.imports_nil himport [t₃, t₂, t₁] finish
  have hproduction : file ⟨[], [t₁, t₂, t₃] ++ r, finish, l⟩
      = fileOver (ofDepth (r.length + 4)) ⟨[], t₁ :: t₂ :: t₃ :: r, finish, l⟩ := rfl
  rw [hproduction, fileOver, bind_ok hpackage, bind_ok hskip, bind_ok himports]
  rfl

/-- A file whose only declaration is that of a type. -/
theorem file_type {head ts : List Token} {eof : Token} {package : String} {s : Stream}
    (hhead : Shows head [Keyword.package.piece, (.ident, package), lineEnd])
    (hw : w.kind = .keyword .type) (hx : x.kind = .ident) (heof : eof.kind = .eof)
    (h : typeExpression (Stream.ofTokens (ts ++ [eof])) = .ok t s) (hs : s.rest = []) :
    file.run (Stream.ofTokens (head ++ w :: x :: ts ++ [eof])) =
      if beginsGeneric ts then
        .error ⟨.genericType, (Stream.ofTokens (ts ++ [eof])).current.span⟩
      else .ok ⟨package, [], [.type [⟨x.lexeme, false, t⟩]]⟩ := by
  rw [ofTokens_append_eof heof] at h ⊢
  rw [ofTokens_append_eof heof]
  -- Behind the name of the type the same tokens are ahead as at the beginning of `ts`.
  have htype : typeExpression ⟨x :: w :: head.reverse, ts, eof.span, true⟩
      = .ok t ⟨s.seen ++ x :: w :: head.reverse, [], eof.span, true⟩ := by
    have hleads := leadsTo_typeExpression h
    rw [typeExpression_over h, Stream.over, hs, hleads.finish, hleads.literals]
  have hdepth : ts.length + 2 ≤ (w :: x :: ts).length + 4 := by
    simp only [List.length_cons]
    omega
  have hdecls := collect_type hw hx hdepth htype
  have hfile : file ⟨[], head ++ w :: x :: ts, eof.span, true⟩ =
      (collect (declStep (ofDepth ((w :: x :: ts).length + 4))) >>= fun decls =>
        pure (File.mk package [] decls)) ⟨head.reverse, w :: x :: ts, eof.span, true⟩ :=
    file_of_head hhead (by simp [hw]) (by simp [hw])
  rw [Parse.run, hfile]
  split at hdecls
  · rename_i hgeneric
    rw [bind_error hdecls, if_pos hgeneric]
    rfl
  · rename_i hgeneric
    rw [bind_ok hdecls, if_neg hgeneric]
    rfl

/-- In a declaration, whatever stands in front of it and behind it, a type is read as by itself,
unless its tokens begin like type parameters; so it is as the only declaration of a file. -/
theorem typeDeclaration_eq {w x eof : Token} {ts : List Token} {t : TypeExpr} {s : Stream}
    (hw : w.kind = .keyword .type) (hx : x.kind = .ident) (heof : eof.kind = .eof)
    (h : typeExpression (Stream.ofTokens (ts ++ [eof])) = .ok t s) :
    (∀ seen : List Token,
      nested localDecl ⟨seen, w :: x :: ts, eof.span, true⟩ =
        if beginsGeneric ts then fail .genericType ⟨x :: w :: seen, ts, eof.span, true⟩
        else .ok (.type [⟨x.lexeme, false, t⟩]) (s.over (x :: w :: seen))) ∧
    ∀ {head : List Token} {package : String},
      Shows head [Keyword.package.piece, (.ident, package), lineEnd] → s.rest = [] →
      file.run (Stream.ofTokens (head ++ w :: x :: ts ++ [eof])) =
        if beginsGeneric ts then
          .error ⟨.genericType, (Stream.ofTokens (ts ++ [eof])).current.span⟩
        else .ok ⟨package, [], [.type [⟨x.lexeme, false, t⟩]]⟩ := by
  refine ⟨fun seen => ?_, fun hhead hs => file_type hhead hw hx heof h hs⟩
  rw [ofTokens_append_eof heof] at h
  have hdepth : ts.length + 2 ≤ (w :: x :: ts).length + 1 := by
    simp only [List.length_cons]
    omega
  exact localDecl_type hw hx hdepth (typeExpression_over h)

/-- The tokens of `package main` and a line end. -/
def headTokens : List Token :=
  [Keyword.package.piece, (.ident, "main"), lineEnd].map Token.ofPiece

def typeToken : Token := .ofPiece Keyword.type.piece

def rowToken : Token := .ofPiece (.ident, "Row")

/-- The tokens of `[n]uint8`. -/
def arrayTokens : List Token :=
  [Symbol.bracketOpen.piece, (.ident, "n"), Symbol.bracketClose.piece,
    (.ident, "uint8")].map Token.ofPiece

def arrayType : TypeExpr := .array (.ident "n") (.named "uint8")

theorem typeDeclaration_array :
    (∃ s, nested localDecl ⟨[], typeToken :: rowToken :: arrayTokens, ⟨.origin, .origin⟩, true⟩
      = .ok (.type [⟨"Row", false, arrayType⟩]) s) ∧
    file.run (Stream.ofTokens
        (headTokens ++ typeToken :: rowToken :: arrayTokens ++ [.ofPiece (.eof, "")]))
      = .ok ⟨"main", [], [.type [⟨"Row", false, arrayType⟩]]⟩ := by
  have hread : typeExpression (Stream.ofTokens (arrayTokens ++ [.ofPiece (.eof, "")]))
      = .ok arrayType ⟨arrayTokens.reverse, [], ⟨.origin, .origin⟩, true⟩ := by
    rfl
  have hdeclared := typeDeclaration_eq (w := typeToken) (x := rowToken) rfl rfl rfl hread
  exact ⟨⟨_, hdeclared.1 []⟩, hdeclared.2 (Shows.ofPieces _) rfl⟩

/-- The tokens of `[n + 1]uint8`. -/
def longerTokens : List Token :=
  [Symbol.bracketOpen.piece, (.ident, "n"), Symbol.plus.piece, (.literal .int, "1"),
    Symbol.bracketClose.piece, (.ident, "uint8")].map Token.ofPiece

/-- An array whose length is a sum can be read, but not declared. -/
theorem longerArray_not_declared :
    (∃ s, typeExpression (Stream.ofTokens (longerTokens ++ [.ofPiece (.eof, "")]))
      = .ok (.array (.binary .add (.ident "n") (.literal ⟨.int, "1"⟩)) (.named "uint8")) s ∧
        s.rest = []) ∧
    file.run (Stream.ofTokens
        (headTokens ++ typeToken :: rowToken :: longerTokens ++ [.ofPiece (.eof, "")]))
      = .error ⟨.genericType, ⟨.origin, .origin⟩⟩ := by
  have hread : typeExpression (Stream.ofTokens (longerTokens ++ [.ofPiece (.eof, "")]))
      = .ok (.array (.binary .add (.ident "n") (.literal ⟨.int, "1"⟩)) (.named "uint8"))
        ⟨longerTokens.reverse, [], ⟨.origin, .origin⟩, true⟩ := by
    rfl
  exact ⟨⟨_, hread, rfl⟩,
    file_type (w := typeToken) (x := rowToken) (Shows.ofPieces _) rfl rfl rfl hread rfl⟩

end Parse

end BoundedGo
