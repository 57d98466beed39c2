import Termwise.Json.Basic
import Termwise.Model.Basic
import Termwise.Number.Reading

/-! Models as data, to be kept and loaded again. -/
namespace Termwise.Model

/-- A model as data. Keys are texts of integers; words that are not texts are spelled out. -/
structure Saved where
  smoothing : Option Json
  temperature : Option Json
  words : Option (List (String × Json))
  counts : Option (List (List Json))
deriving Inhabited

/-- What is there, or the reason why it cannot be missing. -/
def orFail {α : Type} (e : ModelError) : Option α → Except ModelError α
  | some a => .ok a
  | none => .error e

/-- A number given as a number or as a text. -/
def number : Json → Except ModelError Float
  | .int i => orFail .tooLarge (Number.ofInt? i)
  | .float x => .ok x
  | .bool b => .ok (Number.ofBool b)
  | .string s => orFail .notNumber (Number.ofString? s)
  | _ => .error .notNumber

/-- A field with a number, or its default. -/
def numberOr (default : Float) (field : Option Json) : Except ModelError Float :=
  match field with
  | none => .ok default
  | some value => number value

def entry (pair : String × Json) : Except ModelError (Int × String) :=
  (orFail .notNumber (Number.intOfString? pair.1)).map fun i => (i, pair.2.spelled)

def countsRow (row : List Json) : Except ModelError (List Float) := row.mapM number

/-- Rows of equal length. -/
def countsMatrix (rows : List (List Json)) : Except ModelError (List (List Float)) :=
  match rows with
  | [] => .ok []
  | first :: rest =>
    if rest.all fun row => row.length = first.length then rows.mapM countsRow else .error .shape

/-- The model of saved data. Of two equal keys or words the later entry counts. -/
def load (saved : Saved) : Except ModelError (Model Float) := do
  let smoothing ← numberOr defaultSmoothing saved.smoothing
  let temperature ← numberOr defaultTemperature saved.temperature
  let entries ← (← orFail .missingField saved.words).mapM entry
  let words := Table.ofList entries
  let indices := Table.ofList (words.map fun (i, word) => (word, i))
  let counts ← countsMatrix (← orFail .missingField saved.counts)
  return ⟨smoothing, temperature, words, indices, counts⟩

def save (m : Model Float) : Saved where
  smoothing := some (.float m.smoothing)
  temperature := some (.float m.temperature)
  words := some (m.words.map fun (i, word) => (toString i, .string word))
  counts := some (m.counts.map fun row => row.map Json.float)

end Termwise.Model
