import BoundedGo.Text.Numeral

/-!
Numbers, dates and times. Only their form and their bounds matter here: whole numbers are words
of 64 bits, numbers with a fraction or an exponent are floating point numbers of that size, and a
date is one of the calendar.
-/
namespace BoundedGo.Toml

/-- The characters of a number, a date or a time without white space. -/
def isScalarChar (c : Char) : Bool := c.isAlphanum || "+-_.:".toList.contains c

/-- Digits, with single underscores between them. -/
def isDigitRun (isDigit : Char → Bool) : List Char → Bool
  | [] => false
  | [c] => isDigit c
  | c :: '_' :: cs => isDigit c && isDigitRun isDigit cs
  | c :: cs => isDigit c && isDigitRun isDigit cs

def isDecimalRun (cs : List Char) : Bool := isDigitRun Char.isDigit cs

def digitsOf (cs : List Char) : List Char := cs.filter (· ≠ '_')

/-- A text without the sign that it may have. -/
def unsigned : List Char → List Char
  | '+' :: cs => cs
  | '-' :: cs => cs
  | cs => cs

/-- Digits that do not start with a zero, unless they are just the zero. -/
def isWholePart (cs : List Char) : Bool :=
  isDecimalRun cs && (cs.length = 1 || cs.head? ≠ some '0')

def isBased (base : Nat) (cs : List Char) : Bool :=
  isDigitRun (fun c => (Text.digitIn? base c).isSome) cs
    && (Text.readBelow? (Nat.pow 2 63) base (digitsOf cs)).isSome

def isInteger : List Char → Bool
  | '0' :: 'x' :: cs => isBased 16 cs
  | '0' :: 'o' :: cs => isBased 8 cs
  | '0' :: 'b' :: cs => isBased 2 cs
  | cs => isWholePart (unsigned cs) && (Text.readWord? (digitsOf cs)).isSome

/-- The point from which on numbers are rounded to infinity. -/
def infinityBound : Nat := Nat.pow 2 1024 - Nat.pow 2 970

/-- Whether a mantissa with a power of ten is rounded to infinity. A number of that many digits
is only written out near the bound. -/
def isInfinite (mantissa : Nat) (exponent : Int) : Bool :=
  let magnitude := (Text.decimalDigits mantissa).length + exponent
  if mantissa = 0 ∨ magnitude < 309 then false
  else if 310 < magnitude then true
  else infinityBound * Nat.pow 10 (-exponent).toNat ≤ mantissa * Nat.pow 10 exponent.toNat

/-- The number behind the letter of an exponent. -/
def exponent? : List Char → Option Int
  | [] => some 0
  | c :: cs =>
    if (c = 'e' || c = 'E') && isDecimalRun (unsigned cs) then
      (Text.readNat? 10 (digitsOf (unsigned cs))).map fun n =>
        if cs.head? = some '-' then -(n : Int) else n
    else none

def isExponentMark (c : Char) : Bool := c = 'e' || c = 'E'

/-- A number with a fraction, an exponent or both. A positive one must not be infinite. -/
def isDecimalFraction (cs : List Char) : Bool :=
  let whole := (unsigned cs).takeWhile (fun c => c ≠ '.' && !isExponentMark c)
  let rest := (unsigned cs).dropWhile (fun c => c ≠ '.' && !isExponentMark c)
  let fraction := (rest.drop 1).takeWhile (fun c => !isExponentMark c)
  let (places, tail) :=
    if rest.head? = some '.' then (fraction, (rest.drop 1).dropWhile (fun c => !isExponentMark c))
    else ([], rest)
  let digits := digitsOf whole ++ digitsOf places
  match exponent? tail, Text.readNat? 10 digits with
  | some e, some m =>
    isWholePart whole && !rest.isEmpty && (rest.head? ≠ some '.' || isDecimalRun places)
      && (cs.head? = some '-' || !isInfinite m (e - (digitsOf places).length))
  | _, _ => false

def isFloat (cs : List Char) : Bool :=
  isDecimalFraction cs || unsigned cs = "inf".toList || unsigned cs = "nan".toList

/-- A number of two digits up to the given one. -/
def isUpTo (bound : Nat) (a b : Char) : Bool :=
  match Text.readNat? 10 [a, b] with
  | some n => n ≤ bound
  | none => false

def daysIn (year month : Nat) : Nat :=
  if month = 2 then if year % 4 = 0 ∧ (year % 100 ≠ 0 ∨ year % 400 = 0) then 29 else 28
  else if [4, 6, 9, 11].contains month then 30
  else 31

def isDate : List Char → Bool
  | [a, b, c, d, '-', e, f, '-', g, h] =>
    match Text.readNat? 10 [a, b, c, d], Text.readNat? 10 [e, f], Text.readNat? 10 [g, h] with
    | some year, some month, some day =>
      1 ≤ month && month ≤ 12 && 1 ≤ day && day ≤ daysIn year month
    | _, _, _ => false
  | _ => false

/-- A time of the day. The sixtieth second is the leap second. -/
def isTime : List Char → Bool
  | a :: b :: ':' :: c :: d :: ':' :: e :: f :: rest =>
    isUpTo 23 a b && isUpTo 59 c d && isUpTo 60 e f &&
      match rest with
      | [] => true
      | '.' :: places => !places.isEmpty && places.all Char.isDigit
      | _ => false
  | _ => false

/-- The distance of a local time from the universal one. -/
def isOffset : List Char → Bool
  | [] => true
  | ['Z'] => true
  | ['z'] => true
  | [sign, a, b, ':', c, d] => (sign = '+' || sign = '-') && isUpTo 23 a b && isUpTo 59 c d
  | _ => false

def isTimeChar (c : Char) : Bool := c.isDigit || c = ':' || c = '.'

/-- A time of the day behind a date, with an offset or without one. -/
def isOffsetTime (cs : List Char) : Bool :=
  isTime (cs.takeWhile isTimeChar) && isOffset (cs.dropWhile isTimeChar)

def isMoment (cs : List Char) : Bool :=
  isTime cs || isDate cs ||
    (isDate (cs.take 10) &&
      match cs.drop 10 with
      | c :: time => (c = 'T' || c = 't') && isOffsetTime time
      | [] => false)

def isScalar (cs : List Char) : Bool := isInteger cs || isFloat cs || isMoment cs

end BoundedGo.Toml
