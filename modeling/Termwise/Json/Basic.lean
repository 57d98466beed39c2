import Termwise.Number.Decimal
import Termwise.Text.Quoted

/-! Structured data: the values of a JSON text, with whole numbers kept apart from the others. -/
namespace Termwise

/-- A JSON value. -/
inductive Json where
  | null
  | bool (b : Bool)
  | int (i : Int)
  | float (x : Float)
  | string (s : String)
  | array (items : List Json)
  | object (fields : List (String × Json))
deriving Inhabited

namespace Json

/-- The field of an object, the last one when a key occurs twice. -/
def field? (key : String) : Json → Option Json
  | .object fields => (fields.reverse.find? fun (k, _) => k = key).map (·.2)
  | _ => none

/-- Whether a value counts as given: not null, false, zero or empty. -/
def isGiven : Json → Bool
  | .null => false
  | .bool b => b
  | .int i => i ≠ 0
  | .float x => x != 0.0
  | .string s => s ≠ ""
  | .array items => !items.isEmpty
  | .object fields => !fields.isEmpty

mutual

def shown : Json → String
  | .null => "None"
  | .bool b => if b then "True" else "False"
  | .int i => toString i
  | .float x => Number.exactText x
  | .string s => Text.quoted s
  | .array items => "[" ++ ", ".intercalate (shownItems items) ++ "]"
  | .object fields => "\x7b" ++ ", ".intercalate (shownFields fields) ++ "\x7d"

def shownItems : List Json → List String
  | [] => []
  | item :: rest => item.shown :: shownItems rest

def shownFields : List (String × Json) → List String
  | [] => []
  | (key, value) :: rest => (Text.quoted key ++ ": " ++ value.shown) :: shownFields rest

end

/-- A value as a word of a message: a text stands for itself. -/
def spelled : Json → String
  | .string s => s
  | value => value.shown

end Json

end Termwise
