/-!
Whole numbers as text: digits in a base, with or without a sign, and within the bounds of a
machine word. Letters count as digits from ten on, in either case.
-/
namespace BoundedGo.Text

/-- The value of a digit, whatever base it is meant for. -/
def digitValue? (c : Char) : Option Nat :=
  if '0' ≤ c ∧ c ≤ '9' then some (c.toNat - 48)
  else if 'a' ≤ c ∧ c ≤ 'z' then some (c.toNat - 87)
  else if 'A' ≤ c ∧ c ≤ 'Z' then some (c.toNat - 55)
  else none

/-- The value of a digit of the given base. -/
def digitIn? (base : Nat) (c : Char) : Option Nat :=
  match digitValue? c with
  | some d => if d < base then some d else none
  | none => none

/-- Reads digits behind a number that has already been read. -/
def readDigits (base : Nat) : Nat → List Char → Option Nat
  | n, [] => some n
  | n, c :: cs =>
    match digitIn? base c with
    | some d => readDigits base (n * base + d) cs
    | none => none

/-- A number in the given base, written with one digit or more. -/
def readNat? (base : Nat) (cs : List Char) : Option Nat :=
  if cs.isEmpty then none else readDigits base 0 cs

/-- A number below the bound. A plus sign may stand in front. -/
def readBelow? (bound base : Nat) (cs : List Char) : Option Nat :=
  let digits := match cs with
    | '+' :: cs => cs
    | cs => cs
  match readNat? base digits with
  | some n => if n < bound then some n else none
  | none => none

/-- The numbers of a signed word of 64 bits. -/
def IsWord (n : Int) : Prop :=
  -9223372036854775808 ≤ n ∧ n ≤ 9223372036854775807

instance (n : Int) : Decidable (IsWord n) := by
  unfold IsWord
  infer_instance

/-- A decimal number of a signed word of 64 bits, with an optional sign. -/
def readWord? (cs : List Char) : Option Int :=
  let magnitude := match cs with
    | '-' :: cs => (readNat? 10 cs).map (fun n => -(n : Int))
    | '+' :: cs => (readNat? 10 cs).map Int.ofNat
    | cs => (readNat? 10 cs).map Int.ofNat
  match magnitude with
  | some n => if IsWord n then some n else none
  | none => none

def decimalDigits (n : Nat) : List Char :=
  Nat.toDigits 10 n

def decimal (n : Nat) : String :=
  String.ofList (decimalDigits n)

/-- The decimal text of a number, with a minus sign in front of the negative ones. -/
def signedDecimal (n : Int) : String :=
  if n < 0 then String.ofList ('-' :: decimalDigits n.natAbs) else decimal n.natAbs

end BoundedGo.Text
