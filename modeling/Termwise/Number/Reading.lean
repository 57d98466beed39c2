import Termwise.Number.Decimal
import Termwise.Text.Digit
import Termwise.Text.Blank

/-! Reading decimal texts as binary64 numbers and as integers. Digits of every script count, blanks
around the text are ignored, and a single low line may stand between two digits. -/
namespace Termwise.Number

/-- Blanks of the ASCII range that may surround a number. -/
def isPlainBlank (c : Char) : Bool := c = ' ' || (0x09 ≤ c.toNat && c.toNat ≤ 0x0d)

/-- Writes a digit of any script as one of `0` to `9`, and a blank outside ASCII as a space. A
further character outside ASCII belongs to no number. -/
def plain? (c : Char) : Option Char :=
  if c.toNat < 127 then some c
  else if Text.isBlank c then some ' '
  else (Text.digitValue? c).map fun d => Char.ofNat (48 + d)

/-- The text with its digits and blanks in ASCII, without blanks around it. -/
def normalized? (cs : List Char) : Option (List Char) :=
  if cs.all fun c => c.toNat < 128 then some (Text.trimBy isPlainBlank cs)
  else (cs.mapM plain?).map (Text.trimBy isPlainBlank)

/-- Removes low lines, each of which must stand between two digits. -/
def withoutLowLines? (previous : Char) : List Char → Option (List Char)
  | [] => if previous = '_' then none else some []
  | c :: rest =>
    if c = '_' then
      if Text.isDigit previous then withoutLowLines? c rest else none
    else if previous = '_' ∧ !Text.isDigit c then none
    else (withoutLowLines? c rest).map (c :: ·)

/-- Splits a sign off: whether it is a minus, and what follows. -/
def signOff : List Char → Bool × List Char
  | '-' :: rest => (true, rest)
  | '+' :: rest => (false, rest)
  | cs => (false, cs)

/-- A magnitude `digits · 10 ^ exponent` as it is read. -/
structure Scanned where
  digits : List Char
  exponent : Int

/-- The exponent part: nothing, or a mark, an optional sign and at least one digit. -/
def exponent? : List Char → Option Int
  | [] => some 0
  | mark :: rest =>
    if mark = 'e' ∨ mark = 'E' then
      let (negative, digits) := signOff rest
      (Text.natural? digits).map fun n => if negative then -(n : Int) else n
    else none

/-- Digits with at most one point and at least one digit, then the exponent part. -/
def scan? (cs : List Char) : Option Scanned := do
  let whole := cs.takeWhile Text.isDigit
  let rest := cs.dropWhile Text.isDigit
  let (places, tail) :=
    match rest with
    | '.' :: more => (more.takeWhile Text.isDigit, more.dropWhile Text.isDigit)
    | _ => ([], rest)
  let digits := whole ++ places
  if digits = [] then none
  let e ← exponent? tail
  return ⟨digits, e - places.length⟩

/-- The nearest number. Exponents far outside the range of binary64 are settled without computing
the power of ten. -/
def Scanned.toFloat (negative : Bool) (s : Scanned) : Float :=
  let significand := Text.digitsValue s.digits
  let size : Int := decimalLength significand + s.exponent
  if significand = 0 ∨ size < -400 then nearest negative 0 1
  else if 400 < size then nearest negative (Nat.pow 2 1024) 1
  else
    let (num, den) := scaled 10 significand s.exponent
    nearest negative num den

/-- The words for infinity and NaN, in any case. -/
def word? (negative : Bool) (cs : List Char) : Option Float :=
  match String.ofList (cs.map Char.toLower) with
  | "inf" | "infinity" => some (if negative then -(1.0 / 0.0) else 1.0 / 0.0)
  | "nan" => some (0.0 / 0.0)
  | _ => none

/-- Reads a number in ASCII without blanks around it. -/
def ofPlain? (cs : List Char) : Option Float := do
  let cs ← withoutLowLines? ' ' cs
  let (negative, magnitude) := signOff cs
  match word? negative magnitude with
  | some x => return x
  | none => return (← scan? magnitude).toFloat negative

/-- Reads a number: decimal notation with an optional exponent, or a word for infinity or NaN. -/
def read? (cs : List Char) : Option Float := do ofPlain? (← normalized? cs)

def ofString? (s : String) : Option Float := read? s.toList

/-- Reads an integer: an optional sign and digits. -/
def readInt? (cs : List Char) : Option Int := do
  let cs ← normalized? cs
  let (negative, magnitude) := signOff cs
  let digits ← withoutLowLines? ' ' magnitude
  let n ← Text.natural? digits
  return if negative then -(n : Int) else n

def intOfString? (s : String) : Option Int := readInt? s.toList

end Termwise.Number
