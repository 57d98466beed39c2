import Termwise.Codec.Base64
import Termwise.Codec.Query
import Termwise.Codec.Zlib
import Termwise.Document.Basic
import Termwise.Json.Writer

/-! Links: a document as a query string and back. The tokens are written as JSON, compressed and
spelled in letters that are safe in a link; a version stands next to them. -/
namespace Termwise.Document

def formatVersion : String := "1"

/-- Why a link cannot be read. -/
inductive LinkError where
  | version (given : String)
  | corrupt
  | notRows
deriving Repr, DecidableEq, Inhabited

def LinkError.message : LinkError → String
  | .version given => "Unsupported program format version " ++ Text.quoted given
  | .corrupt => "Corrupt program payload"
  | .notRows => "Program payload must be a list of token rows"

def rowsJson (rows : List (List String)) : Json :=
  .array (rows.map fun row => .array (row.map Json.string))

def rowsOfJson? : Json → Option (List (List String))
  | .array rows => rows.mapM fun
    | .array tokens => tokens.mapM fun
      | .string token => some token
      | _ => none
    | _ => none
  | _ => none

def payloadText (rows : List (List String)) : List Char := (rowsJson rows).write

def linkStart : String := "v=" ++ formatVersion ++ "&d="

def payloadLetters (rows : List (List String)) : List Char :=
  Codec.Base64.encode (Codec.Zlib.compress (Text.Utf8.encode (payloadText rows)))

def toQuery (d : Document) : String := linkStart ++ String.ofList (payloadLetters d.tokens)

/-- The letters with the padding that completes the last group. -/
def padded (letters : List Char) : List Char :=
  letters ++ List.replicate ((4 - letters.length % 4) % 4) '='

def payloadJson? (payload : String) : Option Json := do
  let compressed ← Codec.Base64.decode? (padded payload.toList)
  let bytes ← Codec.Zlib.decompress? compressed
  let text ← Text.Utf8.decode? bytes
  Json.read? text

/-- What follows the first question mark, or all of the text. -/
def queryPart (cs : List Char) : List Char :=
  if '?' ∈ cs then (cs.dropWhile (· ≠ '?')).drop 1 else cs

/-- The rows of tokens of a query string; `none` when it carries no document. -/
def decodeQuery (query : String) : Except LinkError (Option (List (List String))) :=
  let fields := Codec.Query.pairs (queryPart query.toList)
  match Codec.Query.value? "d" fields with
  | none => .ok none
  | some payload =>
    let version := (Codec.Query.value? "v" fields).getD formatVersion
    if version ≠ formatVersion then .error (.version version)
    else
      match payloadJson? payload with
      | none => .error .corrupt
      | some data =>
        match rowsOfJson? data with
        | none => .error .notRows
        | some rows => .ok (some rows)

/-- The document of a query string. Unless `strict`, a link that cannot be read carries no
document. -/
def ofQuery (query : String) (strict : Bool) :
    StateM Chance (Except LinkError (Option Document)) := do
  match decodeQuery query with
  | .error e => if strict then return .error e else return .ok none
  | .ok none => return .ok none
  | .ok (some rows) => return .ok (some (← ofTokens rows))

end Termwise.Document
