import Termwise.Number.Binary

/-! Decimal texts of binary64 numbers. A positive magnitude is first reduced to a significand and
the place of its decimal point, by one of three rules: the fewest digits that read back, a given
number of significant digits, or a given number of places. A `Layout` then says how such a decimal
is written. -/
namespace Termwise.Number

/-- The magnitude `0.d₁d₂…dₙ · 10 ^ point`, with `d₁ ≠ 0` unless it is zero. -/
structure Decimal where
  digits : List Char
  point : Int
deriving Repr, DecidableEq, Inhabited

namespace Decimal

/-- Removes the zeros at the end of a digit list, keeping at least one digit. -/
def trimZeros (digits : List Char) : List Char :=
  match (digits.reverse.dropWhile (· = '0')).reverse with
  | [] => ['0']
  | trimmed => trimmed

/-- The decimal `significand · 10 ^ exponent`, without zeros at the end. -/
def ofScaled (significand : Nat) (exponent : Int) : Decimal :=
  let digits := Nat.toDigits 10 significand
  ⟨trimZeros digits, if significand = 0 then 1 else digits.length + exponent⟩

/-- The place of the decimal point of a positive quotient: the least `p` with `num / den < 10 ^
p`. -/
def pointOf (num den : Nat) : Int :=
  if den ≤ num then decimalLength (num / den)
  else 1 - (decimalLength ((den - 1) / num) : Int)

/-- The multiple of `10 ^ exponent` nearest to `num / den`, a tie going to the even one. -/
def roundAt (num den : Nat) (exponent : Int) : Nat :=
  let (up, down) := scaled 10 1 exponent
  roundDiv (num * down) (den * up)

/-- `count` significant digits of a positive quotient, rounded to nearest. -/
def significant (count num den : Nat) : Decimal :=
  let exponent := pointOf num den - count
  ofScaled (roundAt num den exponent) exponent

/-- The interval of reals that round to a binary fraction, in units of a quarter of its last place:
its ends as numerators over a common denominator, and whether the ends belong to it. -/
structure Interval where
  low : Nat
  high : Nat
  den : Nat
  closed : Bool

/-- The reals that round to `mantissa · 2 ^ exponent`. Below a power of two the spacing halves. -/
def Interval.around (b : Binary) : Interval :=
  let below := if b.mantissa = Nat.pow 2 52 ∧ -1074 < b.exponent then 1 else 2
  let (low, den) := scaled 2 (4 * b.mantissa - below) (b.exponent - 2)
  let (high, _) := scaled 2 (4 * b.mantissa + 2) (b.exponent - 2)
  ⟨low, high, den, b.mantissa % 2 = 0⟩

/-- Whether `n · up / down` lies in the interval. -/
def Interval.holds (i : Interval) (n up down : Nat) : Bool :=
  let value := n * up * i.den
  let low := i.low * down
  let high := i.high * down
  if i.closed then low ≤ value && value ≤ high else low < value && value < high

/-- The decimal of `count` digits nearest to a positive binary fraction among those that read
back. -/
def readsBack? (b : Binary) (point : Int) (count : Nat) : Option Decimal :=
  let (num, den) := b.ratio
  let interval := Interval.around b
  let exponent := point - count
  let (up, down) := scaled 10 1 exponent
  let under := num * down / (den * up)
  let near := roundDiv (num * down) (den * up)
  let far := if near = under then under + 1 else under
  if interval.holds near up down then some (ofScaled near exponent)
  else if interval.holds far up down then some (ofScaled far exponent)
  else none

/-- The fewest digits that read back, trying `count`, `count + 1`, … for `fuel` counts, and `17`
digits after that. -/
def shortestFrom (b : Binary) (point : Int) : Nat → Nat → Decimal
  | 0, _ =>
    let (num, den) := b.ratio
    significant 17 num den
  | fuel + 1, count =>
    match readsBack? b point count with
    | some d => d
    | none => shortestFrom b point fuel (count + 1)

/-- The shortest decimal that reads back as the given magnitude, and the nearest of those. -/
def shortest (b : Binary) : Decimal :=
  if b.mantissa = 0 then ⟨['0'], 1⟩ else
    let (num, den) := b.ratio
    shortestFrom b (pointOf num den) 17 1

end Decimal

/-- How a decimal is written. The decimal exponent is that of the first digit. -/
structure Layout where
  /-- Exponents below this one are written with an exponent part. -/
  least : Int
  /-- Exponents from this one on are written with an exponent part. -/
  past : Int
  /-- Whether a whole number is followed by a point and a zero. -/
  pointAlways : Bool

namespace Layout

/-- The shortest text that keeps every number apart, and a number apart from an integer. -/
def exact : Layout := ⟨-4, 16, true⟩

/-- The text of a reading with six significant digits. -/
def brief : Layout := ⟨-4, 6, false⟩

/-- Number of significant digits of a brief text. -/
def briefDigits : Nat := 6

/-- Digits with the point at a given place, filled with zeros where the digits do not reach. -/
def positional (pointAlways : Bool) (d : Decimal) : List Char :=
  if d.point ≤ 0 then
    '0' :: '.' :: (List.replicate (-d.point).toNat '0' ++ d.digits)
  else
    let whole := d.point.toNat
    if d.digits.length ≤ whole then
      d.digits ++ List.replicate (whole - d.digits.length) '0' ++
        if pointAlways then ['.', '0'] else []
    else d.digits.take whole ++ '.' :: d.digits.drop whole

/-- At least two digits of an exponent, after its sign. -/
def exponentPart (e : Int) : List Char :=
  let digits := Nat.toDigits 10 e.natAbs
  'e' :: (if e < 0 then '-' else '+') :: if digits.length < 2 then '0' :: digits else digits

/-- One digit, the others after a point, and the exponent. -/
def scientific (d : Decimal) : List Char :=
  d.digits.take 1 ++ (if d.digits.length ≤ 1 then [] else '.' :: d.digits.drop 1)
    ++ exponentPart (d.point - 1)

def write (l : Layout) (d : Decimal) : List Char :=
  let exponent := d.point - 1
  if l.least ≤ exponent ∧ exponent < l.past ∨ d.digits = ['0'] then positional l.pointAlways d
  else scientific d

end Layout

def special (x : Float) : String :=
  if x.isNaN then "nan" else if x < 0.0 then "-inf" else "inf"

/-- Puts a minus sign before the text of a negative magnitude. -/
def withSign (negative : Bool) (text : List Char) : String :=
  String.ofList (if negative then '-' :: text else text)

/-- The shortest text that reads back as the same number: `5.0`, `1e+16`, `-0.0`, `nan`. -/
def exactText (x : Float) : String :=
  match Binary.ofFloat? x with
  | none => special x
  | some b => withSign b.negative (Layout.exact.write (Decimal.shortest b))

/-- The text with six significant digits and no zeros at the end. -/
def briefText (x : Float) : String :=
  match Binary.ofFloat? x with
  | none => special x
  | some b =>
    let (num, den) := b.ratio
    let decimal := if b.mantissa =
      0 then ⟨['0'], 1⟩ else Decimal.significant Layout.briefDigits num den
    withSign b.negative (Layout.brief.write decimal)

/-- The text with a fixed number of places, rounded to nearest with ties to even. -/
def fixedText (places : Nat) (x : Float) : String :=
  match Binary.ofFloat? x with
  | none => special x
  | some b =>
    let (num, den) := b.ratio
    let digits := Nat.toDigits 10 (roundDiv (num * Nat.pow 10 places) den)
    let padded := List.replicate (places + 1 - digits.length) '0' ++ digits
    let whole := padded.length - places
    withSign b.negative (padded.take whole ++ '.' :: padded.drop whole)

/-- A whole number in full as an integer, any other number in its shortest text. -/
def text (x : Float) : String :=
  match Binary.ofFloat? x with
  | some b => if b.isInteger then toString b.truncate else exactText x
  | none => exactText x

end Termwise.Number
