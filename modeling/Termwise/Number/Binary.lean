/-! Binary64 numbers as exact binary fractions, and the nearest binary64 number to an exact
quotient. All arithmetic here is on `Nat` and `Int`: a finite number is `± mantissa · 2 ^ exponent`,
and rounding takes the nearest representable value, a tie going to the even mantissa. -/
namespace Termwise.Number

/-- The exact value `± mantissa · 2 ^ exponent`. -/
structure Binary where
  negative : Bool
  mantissa : Nat
  exponent : Int
deriving Repr, DecidableEq, Inhabited

/-- Quotient of `num` by `den` rounded to the nearest natural, a tie going to the even neighbour. -/
def roundDiv (num den : Nat) : Nat :=
  let q := num / den
  let r := num % den
  if 2 * r < den then q else if 2 * r > den then q + 1 else if q % 2 = 0 then q else q + 1

/-- `n · base ^ e` as a numerator and a denominator. -/
def scaled (base n : Nat) (e : Int) : Nat × Nat :=
  if 0 ≤ e then (n * Nat.pow base e.toNat, 1) else (n, Nat.pow base (-e).toNat)

/-- Number of decimal digits, with none for zero. -/
def decimalLength (n : Nat) : Nat := if n = 0 then 0 else (Nat.toDigits 10 n).length

namespace Binary

/-- The fields of a finite number; `none` for infinities and NaN. -/
def ofFloat? (x : Float) : Option Binary :=
  let bits := x.toBits.toNat
  let field : Nat := bits / Nat.pow 2 52 % Nat.pow 2 11
  let fraction : Nat := bits % Nat.pow 2 52
  let negative := bits / Nat.pow 2 63 = 1
  if field = 2047 then none
  else if field = 0 then some ⟨negative, fraction, -1074⟩
  else some ⟨negative, fraction + Nat.pow 2 52, (field : Int) - 1075⟩

/-- The magnitude as a numerator and a denominator. -/
def ratio (b : Binary) : Nat × Nat := scaled 2 b.mantissa b.exponent

def isInteger (b : Binary) : Bool :=
  let (num, den) := b.ratio
  num % den = 0

def signed (b : Binary) (n : Nat) : Int := if b.negative then -(n : Int) else n

def truncate (b : Binary) : Int :=
  let (num, den) := b.ratio
  b.signed (num / den)

/-- The greatest integer at most the value. -/
def floor (b : Binary) : Int :=
  let (num, den) := b.ratio
  if b.negative then -(((num + den - 1) / den : Nat) : Int) else ((num / den : Nat) : Int)

/-- The least integer at least the value. -/
def ceil (b : Binary) : Int :=
  let (num, den) := b.ratio
  if b.negative then -((num / den : Nat) : Int) else (((num + den - 1) / den : Nat) : Int)

/-- The nearest integer, a half going to the even neighbour. -/
def round (b : Binary) : Int :=
  let (num, den) := b.ratio
  b.signed (roundDiv num den)

end Binary

/-- The bit pattern of the magnitude `mantissa · 2 ^ exponent` for `mantissa ≤ 2 ^ 53` and an
exponent of at least `-1074`; a mantissa of `2 ^ 53` carries into the exponent field. -/
def magnitudeBits (mantissa : Nat) (exponent : Int) : Nat :=
  (exponent + 1074).toNat * Nat.pow 2 52 + mantissa

/-- Bit pattern of the nearest magnitude to `num / den`; a quotient too large for every finite
number gives the pattern of infinity. -/
def nearestBits (num den : Nat) : Nat :=
  if num = 0 then 0 else
    let guess : Int := (Nat.log2 num : Int) - (Nat.log2 den : Int) - 52
    let (up, down) := scaled 2 1 (guess + 52)
    let fine := if num * down < den * up then guess - 1 else guess
    let exponent := max fine (-1074)
    let (up, down) := scaled 2 1 exponent
    min (magnitudeBits (roundDiv (num * down) (den * up)) exponent) (2047 * Nat.pow 2 52)

/-- The nearest binary64 number to `± num / den`, an infinity when the quotient is too large. -/
def nearest (negative : Bool) (num den : Nat) : Float :=
  Float.ofBits (UInt64.ofNat (nearestBits num den + if negative then Nat.pow 2 63 else 0))

/-- The nearest finite number to `± num / den`; `none` when it is too large. -/
def nearestFinite? (negative : Bool) (num den : Nat) : Option Float :=
  if nearestBits num den < 2047 * Nat.pow 2 52 then some (nearest negative num den) else none

/-- The nearest finite number to an integer; `none` when it is too large. -/
def ofInt? (i : Int) : Option Float := nearestFinite? (i < 0) i.natAbs 1

/-- Coerces NaN and infinities to zero. -/
def sanitize (x : Float) : Float := if x.isFinite then x else 0.0

/-- One for true and zero for false. -/
def ofBool (b : Bool) : Float := if b then 1.0 else 0.0

/-- Remainder of the magnitudes of two finite numbers, exact, with the sign of the dividend. -/
def truncatedRemainder (a b : Binary) : Float :=
  let shared := min a.exponent b.exponent
  let left := a.mantissa * Nat.pow 2 (a.exponent - shared).toNat
  let right := b.mantissa * Nat.pow 2 (b.exponent - shared).toNat
  let (up, down) := scaled 2 (left % right) shared
  nearest a.negative up down

/-- Remainder whose sign is that of the divisor: the exact truncated remainder, moved by one divisor
when its sign differs. A zero remainder takes the divisor's sign; NaN and infinite dividends give
NaN. -/
def modulo (x y : Float) : Float :=
  let rest :=
    match Binary.ofFloat? x, Binary.ofFloat? y with
    | some a, some b => if b.mantissa = 0 then 0.0 / 0.0 else truncatedRemainder a b
    | some _, none => if y.isNaN then y else x
    | none, _ => 0.0 / 0.0
  if rest == 0.0 then
    if y.toBits.toNat / Nat.pow 2 63 = 1 then -0.0 else 0.0
  else if (y < 0.0) != (rest < 0.0) then rest + y
  else rest

end Termwise.Number
