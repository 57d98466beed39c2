import Termwise.Chance
import Termwise.Host.Bridge

/-! A host whose functions are described by data. Its state is a source of chance, a tally for each
function that counts its calls, and the record of calls. -/
namespace Termwise.Host

/-- Where a described function is bound. -/
inductive Slot where
  | function (name : String)
  | property (name : String)
  | attribute (name : String)
deriving Repr, DecidableEq, Inhabited

/-- A recorded call. -/
structure Call where
  name : String
  args : List Float
deriving Inhabited

/-- The state of a described host. -/
structure World where
  chance : Chance
  tallies : Table Slot Nat := []
  /-- Recorded calls, newest first. -/
  calls : List Call := []
deriving Inhabited

/-- What a described function does. -/
inductive Action where
  | sum
  | count
  | argument (index : Int)
  | constant (v : Value)
  | counter
  | failure (message : String)
deriving Inhabited

/-- A function described by data: what it does, and how many arguments it insists on. -/
structure Described where
  action : Action
  arity : Option Int := none
deriving Inhabited

/-- The item of a list; a negative index counts from the end. -/
def item? {α : Type} (items : List α) (index : Int) : Option α :=
  let place := if index < 0 then index + items.length else index
  if 0 ≤ place then items[place.toNat]? else none

namespace Described

def act (slot : Slot) (action : Action) (args : List Float) (w : World) :
    Except Failure Value × World :=
  match action with
  | .sum => (.ok (.float (args.foldl (· + ·) 0.0)), w)
  | .count => (.ok (.int args.length), w)
  | .argument index =>
    match item? args index with
    | some x => (.ok (.float x), w)
    | none => (.error (.ordinary "tuple index out of range"), w)
  | .constant v => (.ok v, w)
  | .counter =>
    let n := (w.tallies.find? slot).getD 0 + 1
    (.ok (.int n), { w with tallies := w.tallies.insert slot n })
  | .failure message => (.error (.ordinary message), w)

/-- Whether the function takes a number of arguments. -/
def accepts (f : Described) (count : Nat) : Bool :=
  match f.arity with
  | some n => n = count
  | none => true

/-- The routine of a described function. A call with the wrong number of arguments fails and leaves
no record; any other call is recorded first. -/
def routine (f : Described) (slot : Slot) (label : String) : Routine World := fun args w =>
  if f.accepts args.length then act slot f.action args { w with calls := ⟨label, args⟩ :: w.calls }
  else (.error (.ordinary "wrong number of arguments"), w)

end Described

end Termwise.Host
