import Termwise.Json.Basic

/-! Compact JSON texts in ASCII: no blanks, and every character outside the printable ASCII range
escaped, one beyond the basic plane as two surrogates. -/
namespace Termwise.Json

def unitEscape (n : Nat) : List Char := '\\' :: 'u' :: Text.hex 4 n

def escapedChar (c : Char) : List Char :=
  if c = '"' ∨ c = '\\' then ['\\', c]
  else if c = '\n' then ['\\', 'n']
  else if c = '\r' then ['\\', 'r']
  else if c = '\t' then ['\\', 't']
  else if c = '\x08' then ['\\', 'b']
  else if c = '\x0c' then ['\\', 'f']
  else if ' ' ≤ c ∧ c ≤ '~' then [c]
  else if c.toNat < 0x10000 then unitEscape c.toNat
  else
    let n := c.toNat - 0x10000
    unitEscape (0xd800 + n / 1024) ++ unitEscape (0xdc00 + n % 1024)

def writeString (s : String) : List Char := '"' :: (s.toList.flatMap escapedChar ++ ['"'])

mutual

/-- A JSON value. Numbers that are NaN or infinite are written as words. -/
def write : Json → List Char
  | .null => "null".toList
  | .bool b => (if b then "true" else "false").toList
  | .int i => (toString i).toList
  | .float x =>
    (if x.isNaN then "NaN" else if x.isInf then (if x < 0.0 then "-Infinity" else "Infinity")
      else Number.exactText x).toList
  | .string s => writeString s
  | .array items => '[' :: (writeItems items ++ [']'])
  | .object fields => '\x7b' :: (writeFields fields ++ ['\x7d'])

def writeItems : List Json → List Char
  | [] => []
  | [item] => item.write
  | item :: next :: rest => item.write ++ ',' :: writeItems (next :: rest)

def writeFields : List (String × Json) → List Char
  | [] => []
  | [(key, value)] => writeString key ++ ':' :: value.write
  | (key, value) :: next :: rest =>
    writeString key ++ ':' :: (value.write ++ ',' :: writeFields (next :: rest))

end

def compress (value : Json) : String := String.ofList value.write

end Termwise.Json
