import BoundedGo.Token
import BoundedGo.Token.Fault
import BoundedGo.Text.Alphabetic
import BoundedGo.Text.Numeric

/-!
One lexical element at the front of a text. Every class of elements has its reader, and every
reader splits the text into what it read and what is left, also when what it read is no token.
Main statements: the two parts together are the text (`scan_text_append_rest`), and the first of
them is not empty (`scan_text_length_pos`).
-/
namespace BoundedGo

/-- What a reader found: a kind of token or a fault, the text read and the text left. -/
structure Scan where
  outcome : Except LexFault TokenKind
  text : List Char
  rest : List Char

namespace Scan

/-- Identifiers begin with a letter of any script or an underscore. -/
def startsIdentifier (c : Char) : Bool :=
  c = '_' || Text.isAlphabetic c

/-- Identifiers go on with letters, underscores and numbers. -/
def continuesIdentifier (c : Char) : Bool :=
  c = '_' || Text.isAlphabetic c || Text.isNumeric c

theorem continuesIdentifier_of_startsIdentifier {c : Char} (h : startsIdentifier c) :
    continuesIdentifier c := by
  simp only [startsIdentifier, continuesIdentifier, Bool.or_eq_true] at h ⊢
  exact Or.inl h

def wordKind (text : List Char) : TokenKind :=
  match Keyword.ofSpelling? (String.ofList text) with
  | some w => .keyword w
  | none => .ident

def word (cs : List Char) : Scan :=
  let text := cs.takeWhile continuesIdentifier
  ⟨.ok (wordKind text), text, cs.dropWhile continuesIdentifier⟩

/-- The digits of a decimal number, with the underscores that may part them. -/
def isDecimal (c : Char) : Bool :=
  c.isDigit || c = '_'

/-- An integer whose base is announced by the two characters `intro`. -/
def announced (base : Base) (intro cs : List Char) : Scan :=
  let digits := cs.takeWhile (fun c => base.hasDigit c || c = '_')
  ⟨if digits.isEmpty then .error (.digitExpected base) else .ok (.literal .int),
    intro ++ digits, cs.dropWhile (fun c => base.hasDigit c || c = '_')⟩

/-- The point of a number and the digits behind it, if there is a point. -/
def fraction : List Char → List Char × List Char
  | '.' :: cs => ('.' :: cs.takeWhile isDecimal, cs.dropWhile isDecimal)
  | cs => ([], cs)

/-- The letter that announces an exponent and the sign behind it, if there is such a letter. -/
def exponentMark : List Char → List Char × List Char
  | c :: cs =>
    if c = 'e' ∨ c = 'E' then
      match cs with
      | s :: ds => if s = '+' ∨ s = '-' then ([c, s], ds) else ([c], cs)
      | [] => ([c], [])
    else ([], c :: cs)
  | [] => ([], [])

/-- The digits of an exponent, which are only looked for behind its mark. -/
def exponentDigits (mark cs : List Char) : List Char × List Char :=
  if mark.isEmpty then ([], cs) else (cs.takeWhile isDecimal, cs.dropWhile isDecimal)

/-- A leading zero makes an integer octal, which leaves no place for the digits 8 and 9. -/
def isMisreadOctal (text : List Char) : Bool :=
  text.head? = some '0' && text.any (fun c => c = '8' || c = '9')

/-- A number without announced base. -/
def decimal (cs : List Char) : Scan :=
  let whole := cs.takeWhile isDecimal
  let (point, cs) := fraction (cs.dropWhile isDecimal)
  let (mark, cs) := exponentMark cs
  let (power, cs) := exponentDigits mark cs
  let text := whole ++ point ++ mark ++ power
  if !mark.isEmpty && power.isEmpty then ⟨.error .exponentDigitExpected, text, cs⟩
  else match cs with
    | 'i' :: cs => ⟨.ok (.literal .imag), text ++ ['i'], cs⟩
    | cs =>
      if !point.isEmpty || !mark.isEmpty then ⟨.ok (.literal .float), text, cs⟩
      else if isMisreadOctal text then ⟨.error .octalDigit, text, cs⟩
      else ⟨.ok (.literal .int), text, cs⟩

def number : List Char → Scan
  | '0' :: 'x' :: cs => announced .hex ['0', 'x'] cs
  | '0' :: 'X' :: cs => announced .hex ['0', 'X'] cs
  | '0' :: 'b' :: cs => announced .binary ['0', 'b'] cs
  | '0' :: 'B' :: cs => announced .binary ['0', 'B'] cs
  | '0' :: 'o' :: cs => announced .octal ['0', 'o'] cs
  | '0' :: 'O' :: cs => announced .octal ['0', 'O'] cs
  | cs => decimal cs

/-- How a quoted literal ends: with its quote, with a backslash before the end of the source, or
with the end of the line or the source. -/
inductive QuoteEnd
  | closed | cutEscape | unclosed
  deriving DecidableEq, Repr

/-- The text of a quoted literal behind its opening quote. A backslash takes the next character
with it, whatever that is. -/
def quoted (quote : Char) : List Char → QuoteEnd × List Char × List Char
  | [] => (.unclosed, [], [])
  | '\\' :: [] => (.cutEscape, ['\\'], [])
  | '\\' :: c :: cs =>
    let (ending, text, rest) := quoted quote cs
    (ending, '\\' :: c :: text, rest)
  | c :: cs =>
    if c = quote then (.closed, [c], cs)
    else if c = '\n' then (.unclosed, [c], cs)
    else
      let (ending, text, rest) := quoted quote cs
      (ending, c :: text, rest)

/-- An interpreted string. -/
def string (cs : List Char) : Scan :=
  let (ending, text, rest) := quoted '\x22' cs
  ⟨match ending with
    | .closed => .ok (.literal .string)
    | .cutEscape => .error .cutEscape
    | .unclosed => .error .openString, '\x22' :: text, rest⟩

/-- A rune literal. It may hold several characters but not none. -/
def rune (cs : List Char) : Scan :=
  let (ending, text, rest) := quoted '\x27' cs
  ⟨match ending with
    | .closed => if text = ['\x27'] then .error .emptyRune else .ok (.literal .char)
    | .cutEscape => .error .cutEscape
    | .unclosed => .error .openRune, '\x27' :: text, rest⟩

/-- A raw string, which ends with the next back quote. -/
def rawString (cs : List Char) : Scan :=
  let body := cs.takeWhile (· != '\x60')
  match cs.dropWhile (· != '\x60') with
  | [] => ⟨.error .openRawString, '\x60' :: body, []⟩
  | c :: rest => ⟨.ok (.literal .string), '\x60' :: body ++ [c], rest⟩

/-- An operator or a punctuation mark. -/
def symbol (c : Char) (cs : List Char) : Scan :=
  match Symbol.leading? (c :: cs) with
  | some s =>
    let size := s.spelling.length
    ⟨.ok (.symbol s), (c :: cs).take size, (c :: cs).drop size⟩
  | none => ⟨.error (.unexpected c), [c], cs⟩

/-- A number begins with a digit, or with a point before a digit. -/
def startsNumber (c : Char) (cs : List Char) : Bool :=
  c.isDigit || (c = '.' && cs.head?.any Char.isDigit)

end Scan

/-- Reads the lexical element that the text `c :: cs` begins with. -/
def scan (c : Char) (cs : List Char) : Scan :=
  if Scan.startsIdentifier c then Scan.word (c :: cs)
  else if Scan.startsNumber c cs then Scan.number (c :: cs)
  else if c = '\x22' then Scan.string cs
  else if c = '\x60' then Scan.rawString cs
  else if c = '\x27' then Scan.rune cs
  else Scan.symbol c cs

namespace Scan

theorem word_text_append_rest (cs : List Char) : (word cs).text ++ (word cs).rest = cs := by
  simp [word]

theorem word_text_length_pos {c : Char} (h : startsIdentifier c) (cs : List Char) :
    0 < (word (c :: cs)).text.length := by
  simp [word, continuesIdentifier_of_startsIdentifier h]

theorem announced_text_append_rest (base : Base) (intro cs : List Char) :
    (announced base intro cs).text ++ (announced base intro cs).rest = intro ++ cs := by
  simp [announced]

theorem fraction_append (cs : List Char) : (fraction cs).1 ++ (fraction cs).2 = cs := by
  unfold fraction
  split <;> simp

theorem exponentMark_append (cs : List Char) :
    (exponentMark cs).1 ++ (exponentMark cs).2 = cs := by
  unfold exponentMark
  split
  · split
    · split
      · split <;> simp
      · simp
    · simp
  · simp

theorem exponentDigits_append (mark cs : List Char) :
    (exponentDigits mark cs).1 ++ (exponentDigits mark cs).2 = cs := by
  unfold exponentDigits
  split <;> simp

theorem decimal_text_append_rest (cs : List Char) :
    (decimal cs).text ++ (decimal cs).rest = cs := by
  have whole : cs.takeWhile isDecimal ++ cs.dropWhile isDecimal = cs :=
    List.takeWhile_append_dropWhile
  have point := fraction_append (cs.dropWhile isDecimal)
  have mark := exponentMark_append (fraction (cs.dropWhile isDecimal)).2
  have power := exponentDigits_append (exponentMark (fraction (cs.dropWhile isDecimal)).2).1
    (exponentMark (fraction (cs.dropWhile isDecimal)).2).2
  have all : cs.takeWhile isDecimal ++ (fraction (cs.dropWhile isDecimal)).1
      ++ (exponentMark (fraction (cs.dropWhile isDecimal)).2).1
      ++ (exponentDigits (exponentMark (fraction (cs.dropWhile isDecimal)).2).1
          (exponentMark (fraction (cs.dropWhile isDecimal)).2).2).1
      ++ (exponentDigits (exponentMark (fraction (cs.dropWhile isDecimal)).2).1
          (exponentMark (fraction (cs.dropWhile isDecimal)).2).2).2 = cs := by
    rw [List.append_assoc, power, List.append_assoc, mark, List.append_assoc, point, whole]
  unfold decimal
  dsimp only
  split
  · exact all
  · split
    · rename_i rest heq
      rw [heq] at all
      simpa using all
    · split
      · exact all
      · split <;> exact all

/-- The text of a decimal number holds its whole part and its point. -/
theorem decimal_text_length (cs : List Char) :
    (cs.takeWhile isDecimal).length + (fraction (cs.dropWhile isDecimal)).1.length
      ≤ (decimal cs).text.length := by
  unfold decimal
  dsimp only
  repeat' split
  all_goals simp only [List.length_append]; omega

theorem decimal_text_length_pos {c : Char} {cs : List Char} (h : startsNumber c cs) :
    0 < (decimal (c :: cs)).text.length := by
  have bound := decimal_text_length (c :: cs)
  by_cases hd : c.isDigit
  · have : isDecimal c = true := by simp [isDecimal, hd]
    simp_all
    omega
  · have hc : c = '.' := by
      simp only [startsNumber, hd, Bool.false_or, Bool.and_eq_true] at h
      exact of_decide_eq_true h.1
    subst hc
    have : isDecimal '.' = false := by decide
    simp_all [fraction]
    omega

theorem number_text_append_rest (cs : List Char) :
    (number cs).text ++ (number cs).rest = cs := by
  unfold number
  split <;> first
    | exact decimal_text_append_rest _
    | (rw [announced_text_append_rest]; rfl)

theorem number_text_length_pos {c : Char} {cs : List Char} (h : startsNumber c cs) :
    0 < (number (c :: cs)).text.length := by
  unfold number
  split <;> first
    | exact decimal_text_length_pos h
    | simp [announced]

theorem quoted_append (quote : Char) (cs : List Char) :
    (quoted quote cs).2.1 ++ (quoted quote cs).2.2 = cs := by
  fun_induction quoted quote cs <;> simp_all

theorem string_text_append_rest (cs : List Char) :
    (string cs).text ++ (string cs).rest = '\x22' :: cs := by
  simp [string, quoted_append]

theorem rune_text_append_rest (cs : List Char) :
    (rune cs).text ++ (rune cs).rest = '\x27' :: cs := by
  simp [rune, quoted_append]

theorem rawString_text_append_rest (cs : List Char) :
    (rawString cs).text ++ (rawString cs).rest = '\x60' :: cs := by
  have all : cs.takeWhile (· != '\x60') ++ cs.dropWhile (· != '\x60') = cs :=
    List.takeWhile_append_dropWhile
  unfold rawString
  dsimp only
  split
  · rename_i heq
    rw [heq] at all
    simpa using all
  · rename_i heq
    rw [heq] at all
    simpa using all

theorem symbol_text_append_rest (c : Char) (cs : List Char) :
    (symbol c cs).text ++ (symbol c cs).rest = c :: cs := by
  unfold symbol
  split
  · exact List.take_append_drop _ _
  · rfl

theorem spelling_length_pos (s : Symbol) : 0 < s.spelling.length := by
  cases s <;> decide

theorem symbol_text_length_pos (c : Char) (cs : List Char) :
    0 < (symbol c cs).text.length := by
  unfold symbol
  split
  · rename_i s _
    have := spelling_length_pos s
    simp
    omega
  · simp

end Scan

open Scan in
/-- Reading loses nothing and reorders nothing. -/
theorem scan_text_append_rest (c : Char) (cs : List Char) :
    (scan c cs).text ++ (scan c cs).rest = c :: cs := by
  unfold scan
  split
  · exact word_text_append_rest _
  split
  · exact number_text_append_rest _
  split
  · simp_all [string_text_append_rest]
  split
  · simp_all [rawString_text_append_rest]
  split
  · simp_all [rune_text_append_rest]
  · exact symbol_text_append_rest _ _

open Scan in
/-- Reading makes progress, also when it finds a fault. -/
theorem scan_text_length_pos (c : Char) (cs : List Char) : 0 < (scan c cs).text.length := by
  unfold scan
  split
  · exact word_text_length_pos (by assumption) cs
  split
  · exact number_text_length_pos (by assumption)
  split
  · simp [string]
  split
  · unfold rawString
    dsimp only
    split <;> simp
  split
  · simp [rune]
  · exact symbol_text_length_pos c cs

end BoundedGo
