import Termwise.Chance
import Termwise.Model.Basic
import Termwise.Number.Sum

/-! Sampling from a model. How an index is chosen from weights is a parameter; `Chance.pick` is the
choice that follows the running totals of the weights. -/
namespace Termwise

abbrev Sampling := ExceptT ModelError (StateM Chance)

abbrev Chooser := List Float → Sampling Nat

/-- The first place where the running total of the weights passes `u`; the last one when none
does. -/
def firstPast (u : Float) : Float → List Float → Nat
  | _, [] => 0
  | _, [_] => 0
  | total, w :: rest => if u < total + w then 0 else firstPast u (total + w) rest + 1

def Chance.pick : Chooser := fun weights =>
  if weights.isEmpty || weights.any Float.isNaN then throw .weights
  else do
    let u ← (Chance.takeUniform : StateM Chance Float)
    return firstPast u 0.0 weights

namespace Model

/-- The greatest number of a list, NaN when the list has one. -/
def greatest : List Float → Option Float
  | [] => none
  | x :: rest =>
    some (rest.foldl (fun kept y => if kept.isNaN then kept else if y.isNaN || y >
      kept then y else kept) x)

/-- The logarithms of the probabilities of what follows an index. -/
def logProbs (m : Model Float) (previous : Int) : Except ModelError (List Float) :=
  match place? m.counts.length previous with
  | none => .error .index
  | some i =>
    let row := (m.counts.getD i []).map (· + m.smoothing)
    let total := Number.sum row
    .ok (row.map fun x => Float.log (x / total))

/-- The weights at a temperature, relative to the greatest one and scaled to a sum of one. -/
def weights (logProbs : List Float) (temperature : Float) : Except ModelError (List Float) :=
  let scaled := if temperature != 1.0 then logProbs.map (· / temperature) else logProbs
  match greatest scaled with
  | none => .error .weights
  | some top =>
    let raw := scaled.map fun x => Float.exp (x - top)
    let total := Number.sum raw
    .ok (raw.map (· / total))

/-- Chooses what follows a history. An index outside the vocabulary counts as the carriage
return. -/
def predictTerm (choose : Chooser) (m : Model Float) (history : List Int)
    (temperature : Option Float) :
    Sampling Int := do
  let last := history.getLast?.getD endIndex
  let previous := if 0 ≤ last ∧ last < m.vocabSize then last else endIndex
  let logProbs ← liftExcept (m.logProbs previous)
  let weights ← liftExcept (weights logProbs (temperature.getD m.temperature))
  let index ← choose weights
  return index
where
  /-- Passes a failure on. -/
  liftExcept {α : Type} (x : Except ModelError α) : Sampling α :=
    match x with
    | .ok a => pure a
    | .error e => throw e

/-- Chooses indices until the carriage return, which is included, `count` of them at most. Of the
history only the last index matters. -/
def predictFrom (choose : Chooser) (m : Model Float) : Nat → List Int → Sampling (List Int)
  | 0, _ => return []
  | count + 1, history => do
    let index ← m.predictTerm choose history none
    if index = endIndex then return [index]
    return index :: (← predictFrom choose m count [index])

/-- Chooses a sequence of indices, `maxTerms` of them at most. -/
def predict (choose : Chooser) (m : Model Float) (maxTerms : Int) : Sampling (List Int) :=
  m.predictFrom choose maxTerms.toNat []

def generateRows (choose : Chooser) (m : Model Float) (maxTerms : Int) :
    Nat → Sampling (List (List String))
  | 0 => return []
  | count + 1 => do
    let indices ← m.predict choose maxTerms
    let row := (indices.filter (· ≠ endIndex)).map m.word
    return row :: (← generateRows choose m maxTerms count)

end Model

end Termwise
