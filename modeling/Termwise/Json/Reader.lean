import Termwise.Json.Basic
import Termwise.Number.Reading

/-! Reading JSON texts. The three words `NaN`, `Infinity` and `-Infinity` are numbers too; control
characters may not stand in a string unescaped; half of a surrogate pair reads as the replacement
character. -/
namespace Termwise.Json

/-- Blanks between the parts of a JSON text. -/
def isBlank (c : Char) : Bool := c = ' ' || c = '\t' || c = '\n' || c = '\r'

def skipBlanks (cs : List Char) : List Char := cs.dropWhile isBlank

def hexDigit? (c : Char) : Option Nat :=
  if '0' ≤ c ∧ c ≤ '9' then some (c.toNat - 48)
  else if 'a' ≤ c ∧ c ≤ 'f' then some (c.toNat - 87)
  else if 'A' ≤ c ∧ c ≤ 'F' then some (c.toNat - 55)
  else none

/-- Four digits to base sixteen. -/
def unit? : List Char → Option (Nat × List Char)
  | a :: b :: c :: d :: rest => do
    let n := ((← hexDigit? a) * 16 + (← hexDigit? b)) * 256 +
      ((← hexDigit? c) * 16 + (← hexDigit? d))
    return (n, rest)
  | _ => none

/-- The character of an escape `\u`, given what follows the mark. Two surrogates in a row make one
character. -/
def unitChar? (cs : List Char) : Option (Char × List Char) := do
  let (high, rest) ← unit? cs
  if 0xd800 ≤ high ∧ high < 0xdc00 then
    match rest with
    | '\\' :: 'u' :: more =>
      let (low, after) ← unit? more
      if 0xdc00 ≤ low ∧ low < 0xe000 then
        return (Char.ofNat (0x10000 + (high - 0xd800) * 1024 + (low - 0xdc00)), after)
      else return ('\ufffd', rest)
    | _ => return ('\ufffd', rest)
  else if 0xdc00 ≤ high ∧ high < 0xe000 then return ('\ufffd', rest)
  else return (Char.ofNat high, rest)

def shortEscape? (c : Char) : Option Char :=
  if c = '"' ∨ c = '\\' ∨ c = '/' then some c
  else if c = 'n' then some '\n'
  else if c = 'r' then some '\r'
  else if c = 't' then some '\t'
  else if c = 'b' then some '\x08'
  else if c = 'f' then some '\x0c'
  else none

/-- The rest of a string after its opening quote. `fuel` bounds the number of characters. -/
def stringBody? : Nat → List Char → Option (List Char × List Char)
  | 0, _ => none
  | fuel + 1, cs =>
    match cs with
    | [] => none
    | '"' :: rest => some ([], rest)
    | '\\' :: 'u' :: rest => do
      let (c, more) ← unitChar? rest
      let (body, after) ← stringBody? fuel more
      return (c :: body, after)
    | '\\' :: e :: rest => do
      let c ← shortEscape? e
      let (body, after) ← stringBody? fuel rest
      return (c :: body, after)
    | c :: rest =>
      if c.toNat < 0x20 ∨ c = '\\' then none
      else do
        let (body, after) ← stringBody? fuel rest
        return (c :: body, after)

/-- A whole part without needless zeros, and what follows. -/
def wholePart? : List Char → Option (List Char × List Char)
  | '0' :: rest => some (['0'], rest)
  | cs =>
    match cs.takeWhile Text.isDigit with
    | [] => none
    | digits => some (digits, cs.dropWhile Text.isDigit)

/-- The places after a point: nothing unless a digit follows the point. -/
def places : List Char → List Char × List Char
  | '.' :: rest =>
    match rest.takeWhile Text.isDigit with
    | [] => ([], '.' :: rest)
    | digits => (digits, rest.dropWhile Text.isDigit)
  | cs => ([], cs)

/-- The exponent: nothing unless a digit follows the mark and the optional sign. -/
def exponent (cs : List Char) : Option Int × List Char :=
  match cs with
  | mark :: rest =>
    if mark = 'e' ∨ mark = 'E' then
      let (negative, body) := Number.signOff rest
      match Text.natural? (body.takeWhile Text.isDigit) with
      | some n => (some (if negative then -(n : Int) else n), body.dropWhile Text.isDigit)
      | none => (none, cs)
    else (none, cs)
  | [] => (none, cs)

def number? (cs : List Char) : Option (Json × List Char) := do
  let (negative, magnitude) :=
    match cs with
    | '-' :: rest => (true, rest)
    | _ => (false, cs)
  let (whole, rest) ← wholePart? magnitude
  let (fraction, rest) := places rest
  let (power, rest) := exponent rest
  if fraction = [] ∧ power.isNone then
    let n : Int := Text.digitsValue whole
    return (.int (if negative then -n else n), rest)
  else
    let scanned : Number.Scanned := ⟨whole ++ fraction, power.getD 0 - fraction.length⟩
    return (.float (scanned.toFloat negative), rest)

def literals : List (String × Json) :=
  [("null", .null), ("true", .bool true), ("false", .bool false), ("NaN", .float (0.0 / 0.0)),
    ("Infinity", .float (1.0 / 0.0)), ("-Infinity", .float (-(1.0 / 0.0)))]

def literal? (cs : List Char) : Option (Json × List Char) :=
  literals.findSome? fun (word, value) => (Text.after? word.toList cs).map fun rest => (value, rest)

mutual

/-- A value and what follows it. Twice the length of the text is enough fuel: a bracket costs two
units and is matched by a closing one. -/
def value? : Nat → List Char → Option (Json × List Char)
  | 0, _ => none
  | fuel + 1, cs =>
    match cs with
    | '"' :: rest =>
      (stringBody? fuel rest).map fun (body, after) => (.string (String.ofList body), after)
    | '[' :: rest =>
      match skipBlanks rest with
      | ']' :: after => some (.array [], after)
      | more => (items? fuel more).map fun (items, after) => (.array items, after)
    | '\x7b' :: rest =>
      match skipBlanks rest with
      | '\x7d' :: after => some (.object [], after)
      | more => (fields? fuel more).map fun (fields, after) => (.object fields, after)
    | _ => literal? cs <|> number? cs

/-- The items of an array up to its closing bracket. -/
def items? : Nat → List Char → Option (List Json × List Char)
  | 0, _ => none
  | fuel + 1, cs => do
    let (item, rest) ← value? fuel cs
    match skipBlanks rest with
    | ',' :: more =>
      let (items, after) ← items? fuel (skipBlanks more)
      return (item :: items, after)
    | ']' :: after => return ([item], after)
    | _ => none

/-- The fields of an object up to its closing brace. -/
def fields? : Nat → List Char → Option (List (String × Json) × List Char)
  | 0, _ => none
  | fuel + 1, cs =>
    match cs with
    | '"' :: more => do
      let (key, rest) ← stringBody? fuel more
      match skipBlanks rest with
      | ':' :: body =>
        let (value, rest) ← value? fuel (skipBlanks body)
        match skipBlanks rest with
        | ',' :: more =>
          let (fields, after) ← fields? fuel (skipBlanks more)
          return ((String.ofList key, value) :: fields, after)
        | '\x7d' :: after => return ([(String.ofList key, value)], after)
        | _ => none
      | _ => none
    | _ => none

end

def read? (cs : List Char) : Option Json := do
  let (value, rest) ← value? (2 * cs.length + 2) (skipBlanks cs)
  if skipBlanks rest = [] then return value else none

end Termwise.Json
