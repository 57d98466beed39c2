import Termwise.Json.Reader
import Termwise.Text.Utf8

/-! Query strings: `name=value` pairs between ampersands. A plus is a space, a percent sign with two
hex digits is a byte, and bytes are read as UTF-8. -/
namespace Termwise.Codec.Query

/-- The bytes of an ASCII run, with its percent escapes resolved. A percent sign without two hex
digits stands for itself. -/
def runBytes : List Char → List UInt8
  | '%' :: a :: b :: rest =>
    match Json.hexDigit? a, Json.hexDigit? b with
    | some high, some low => UInt8.ofNat (high * 16 + low) :: runBytes rest
    | _, _ => UInt8.ofNat '%'.toNat :: runBytes (a :: b :: rest)
  | c :: rest => UInt8.ofNat c.toNat :: runBytes rest
  | [] => []

def isAscii (c : Char) : Bool := c.toNat < 128

/-- Resolves percent escapes. Every run of ASCII characters is read on its own, with the replacement
character for bytes that are not UTF-8. `run` holds the current run, newest first. -/
def unescapeFrom (run : List Char) : List Char → List Char
  | [] => Text.Utf8.repair (runBytes run.reverse)
  | c :: rest =>
    if isAscii c then unescapeFrom (c :: run) rest
    else Text.Utf8.repair (runBytes run.reverse) ++ c :: unescapeFrom [] rest

/-- A name or value as it is meant. -/
def unescape (cs : List Char) : List Char :=
  let spaced := cs.map fun c => if c = '+' then ' ' else c
  if '%' ∈ spaced then unescapeFrom [] spaced else spaced

/-- A pair; what has no equals sign is a name with an empty value. -/
def pair (cs : List Char) : List Char × List Char :=
  (unescape (cs.takeWhile (· ≠ '=')), unescape ((cs.dropWhile (· ≠ '=')).drop 1))

/-- The pairs of a query string, in order. -/
def pairs (cs : List Char) : List (List Char × List Char) :=
  ((Text.splitAt '&' cs).filter (· ≠ [])).map pair

/-- The value of a name, the last one when it occurs twice. -/
def value? (name : String) (query : List (List Char × List Char)) : Option String :=
  (query.reverse.find? fun (key, _) => String.ofList key = name).map fun (_, value) =>
    String.ofList value

end Termwise.Codec.Query
