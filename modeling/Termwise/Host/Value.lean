import Termwise.Fault
import Termwise.Number.Reading
import Termwise.Text.Quoted

/-! What a host hands over. Floating-point numbers, integers, truth values, fractions and numbers of
the host's own are numbers for the language; all else reads as zero. -/
namespace Termwise.Host

/-- What comes of asking a number of the host's own for a floating-point number. -/
inductive Conversion where
  | number (x : Float)
  | tooLarge
  | failed (failure : Failure)
deriving Inhabited

/-- A value of the host. -/
inductive Value where
  | float (x : Float)
  | int (i : Int)
  | bool (b : Bool)
  | text (s : String)
  | nothing
  | fraction (num den : Int)
  | complex (re im : Float)
  | decimal (s : String)
  /-- A number of a kind of the host's own, with the text that shows it. -/
  | foreign (shown : String) (conversion : Conversion)
deriving Inhabited

/-- A decimal number with the exponent of its last digit, as it was written. -/
structure WrittenDecimal where
  negative : Bool
  digits : List Char
  exponent : Int

namespace WrittenDecimal

/-- The sign of a written decimal and what follows it, without low lines. -/
def split? (s : String) : Option (Bool × List Char) :=
  (Number.normalized? (s.toList.filter (· ≠ '_'))).map Number.signOff

/-- Reads a decimal, dropping zeros in front. -/
def read? (s : String) : Option WrittenDecimal := do
  let (negative, magnitude) ← split? s
  let scanned ← Number.scan? magnitude
  let digits :=
    match scanned.digits.dropWhile (· = '0') with
    | [] => ['0']
    | rest => rest
  return ⟨negative, digits, scanned.exponent⟩

/-- The text of a decimal, which keeps its last digit: positional unless it is tiny or its last
digit is not written. -/
def text (d : WrittenDecimal) : String :=
  let adjusted := d.exponent + d.digits.length - 1
  let body :=
    if d.exponent ≤ 0 ∧ -6 ≤ adjusted then
      if d.exponent = 0 then d.digits
      else
        let places := d.exponent.natAbs
        let padded := List.replicate (places + 1 - d.digits.length) '0' ++ d.digits
        padded.take (padded.length - places) ++ '.' :: padded.drop (padded.length - places)
    else
      d.digits.take 1 ++ (if d.digits.length ≤ 1 then [] else '.' :: d.digits.drop 1)
        ++ 'E' :: (if adjusted < 0 then '-' else '+') :: Nat.toDigits 10 adjusted.natAbs
  Number.withSign d.negative body

/-- The words for what is not finite, as they are read and as they are shown. -/
def words : List (String × String) :=
  [("infinity", "Infinity"), ("inf", "Infinity"), ("nan", "NaN"), ("snan", "sNaN")]

/-- The text of a decimal that is not finite. A number after the word for NaN is kept. -/
def wordText? (s : String) : Option String := do
  let (negative, magnitude) ← split? s
  words.findSome? fun (word, shown) => do
    let rest ← Text.after? word.toList (magnitude.map Char.toLower)
    if rest.all Text.isDigit ∧ (rest = [] ∨ shown ≠ "Infinity") then
      return Number.withSign negative (shown.toList ++ rest.dropWhile (· = '0'))
    else none

/-- How a written decimal is shown: a text that is none stands for itself. -/
def shownText (s : String) : String := ((read? s).map text <|> wordText? s).getD s

end WrittenDecimal

namespace Value

def finite? (x : Float) : Option Float := if x.isFinite then some x else none

/-- The number a value stands for; `none` when it is no number, not finite or too large. Only a
number of the host's own can fail to say. -/
def number : Value → Except Failure (Option Float)
  | .float x | .foreign _ (.number x) => .ok (finite? x)
  | .int i => .ok (Number.ofInt? i)
  | .bool b => .ok (some (Number.ofBool b))
  | .fraction num den =>
    .ok (if den = 0 then none else Number.nearestFinite? ((num < 0) != (den < 0))
      num.natAbs den.natAbs)
  | .text _ | .nothing | .complex _ _ | .decimal _ | .foreign _ .tooLarge => .ok none
  | .foreign _ (.failed failure) => .error failure

def complexPart (x : Float) : String :=
  match Number.Binary.ofFloat? x with
  | none => Number.special x
  | some b =>
    Number.withSign b.negative
      (Number.Layout.write { Number.Layout.exact with pointAlways := false }
        (Number.Decimal.shortest b))

/-- Whether a number carries a minus sign, a negative zero included. -/
def hasMinus (x : Float) : Bool := !x.isNaN && x.toBits.toNat / Nat.pow 2 63 = 1

def shown : Value → String
  | .float x => Number.exactText x
  | .int i => toString i
  | .bool b => if b then "True" else "False"
  | .text s => Text.quoted s
  | .nothing => "None"
  | .fraction num den =>
    let common := Nat.gcd num.natAbs den.natAbs
    let sign : Int := if den < 0 then -1 else 1
    "Fraction(" ++ toString (sign * num / common) ++ ", " ++ toString (sign * den / common) ++ ")"
  | .complex re im =>
    let imaginary := complexPart im ++ "j"
    if re == 0.0 && !hasMinus re then imaginary
    else "(" ++ complexPart re ++ (if hasMinus im then "" else "+") ++ imaginary ++ ")"
  | .decimal s => "Decimal('" ++ WrittenDecimal.shownText s ++ "')"
  | .foreign s _ => s

end Value

end Termwise.Host
