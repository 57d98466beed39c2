import Termwise.Table
import Termwise.Term.Vocabulary

/-! A model of token sequences: how often each token follows each other one. The carriage return has
index zero and stands at the start and the end of every row. Counts may be numbers of any kind, so
that the same fitting can be read with exact counts. -/
namespace Termwise

/-- What a model cannot do. -/
inductive ModelError where
  /-- The counts do not have the shape of the vocabulary. -/
  | shape
  /-- An index is outside the counts. -/
  | index
  /-- Weights are not numbers, or there are none. -/
  | weights
  /-- Saved data lack a field. -/
  | missingField
  /-- Saved data hold something that is not the number it should be. -/
  | notNumber
  /-- Saved data hold an integer that is too large. -/
  | tooLarge
deriving Repr, DecidableEq, Inhabited

/-- The vocabulary in both directions, the counts of pairs, and how to sample. -/
structure Model (κ : Type) where
  smoothing : Float
  temperature : Float
  words : Table Int String
  indices : Table String Int
  counts : List (List κ)
deriving Inhabited

namespace Model

variable {κ : Type}

def endIndex : Int := 0

def defaultSmoothing : Float := 0.1

def defaultTemperature : Float := 1.0

/-- Number of indices that a prediction may have. -/
def defaultMaxTerms : Int := 100

/-- Number of indices that a generated row may take. -/
def defaultRowTerms : Int := 25

/-- A model that knows the carriage return only. -/
def new [OfNat κ 0] (smoothing temperature : Float) : Model κ where
  smoothing := smoothing
  temperature := temperature
  words := [(endIndex, returnToken)]
  indices := [(returnToken, endIndex)]
  counts := [[0]]

def vocabSize (m : Model κ) : Nat := m.words.length

/-- The index of a token; a new token gets the next one. -/
def indexFor (m : Model κ) (token : String) : Int × Model κ :=
  match m.indices.find? token with
  | some i => (i, m)
  | none =>
    let i : Int := m.words.length
    (i, { m with words := m.words.insert i token, indices := m.indices.insert token i })

def rowIndices : Model κ → List String → List Int × Model κ
  | m, [] => ([], m)
  | m, token :: rest =>
    let (i, m) := m.indexFor token
    let (more, m) := rowIndices m rest
    (i :: more, m)

/-- The index sequences of rows, each between two carriage returns. -/
def sequences : Model κ → List (List String) → List (List Int) × Model κ
  | m, [] => ([], m)
  | m, row :: rest =>
    let (indices, m) := m.rowIndices row
    let (more, m) := sequences m rest
    ((endIndex :: (indices ++ [endIndex])) :: more, m)

def pairs (sequence : List Int) : List (Int × Int) := sequence.zip sequence.tail

/-- Number of columns; a matrix without rows has none. -/
def width (counts : List (List κ)) : Nat := (counts.head?.map List.length).getD 0

/-- A list read as if it had `size` items: a single item stands for all of them. -/
def stretch {α : Type} (size : Nat) (items : List α) : List α :=
  match items with
  | [only] => List.replicate size only
  | _ => items

/-- Whether a length fits a size: it is the size, or a single item stands for all. -/
def fits (length size : Nat) : Bool := length = size || length = 1

/-- Old counts in the upper left corner of a square of zeros. -/
def grown [OfNat κ 0] (size : Nat) (old : List (List κ)) : Except ModelError (List (List κ)) :=
  let corner := min old.length size
  if old = [] ∨ (fits old.length corner ∧ fits (width old) corner) then
    let kept := (stretch corner old).map fun row => stretch corner row ++
      List.replicate (size - corner) 0
    .ok (kept ++ List.replicate (size - corner) (List.replicate size 0))
  else .error .shape

/-- The place of an index in a list; a negative index counts from the end. -/
def place? (length : Nat) (index : Int) : Option Nat :=
  let place := if index < 0 then index + length else index
  if 0 ≤ place ∧ place < length then some place.toNat else none

def countPair [OfNat κ 1] [Add κ] (counts : List (List κ)) (pair : Int × Int) :
    Except ModelError (List (List κ)) :=
  match place? counts.length pair.1, place? (width counts) pair.2 with
  | some i, some j => .ok (counts.modify i fun row => row.modify j (· + 1))
  | _, _ => .error .index

/-- Counts the pairs of rows. The words of the rows stay in the vocabulary even when the counting
fails. -/
def fit [OfNat κ 0] [OfNat κ 1] [Add κ] (m : Model κ) (rows : List (List String)) :
    Except ModelError Unit × Model κ :=
  let (sequences, m) := m.sequences rows
  match grown m.vocabSize m.counts >>=
    fun counts => (sequences.flatMap pairs).foldlM countPair counts with
  | .ok counts => (.ok (), { m with counts := counts })
  | .error e => (.error e, m)

/-- The token of an index; the carriage return for an index without one. -/
def word (m : Model κ) (index : Int) : String := (m.words.find? index).getD returnToken

end Model

end Termwise
