import Termwise.Expr.Basic

/-! The order of evaluation. Inside a call the nested calls run first, from right to left; then the
operands are read, from left to right; then the call itself is performed. What reading an operand
and performing a call mean is left open, so the order can be studied by itself. -/
namespace Termwise

/-- What operands and calls mean. -/
structure Meaning (m : Type → Type) where
  /-- The number that an operand stands for. -/
  operand : Term → m Float
  /-- Performs a call with its arguments. -/
  perform : Term → List Float → m Float

namespace Expr

variable {m : Type → Type} [Monad m]

/-- Completes the arguments of a call: nested calls have their values, operands are read from left
to right. -/
def resolve (meaning : Meaning m) : List Expr → List (Option Float) → m (List Float)
  | [], _ => pure []
  | e :: rest, values => do
    let x ← match values.head?.join with
      | some x => pure x
      | none => meaning.operand e.head
    return x :: (← resolve meaning rest values.tail)

mutual

/-- Runs a call and gives its value; an operand is left alone. -/
def evalCall (meaning : Meaning m) : Expr → m (Option Float)
  | .operand _ => pure none
  | .call head args => do
    let nested ← evalNested meaning args
    let values ← resolve meaning args nested
    return some (← meaning.perform head values)

/-- Runs the calls of a list from right to left. -/
def evalNested (meaning : Meaning m) : List Expr → m (List (Option Float))
  | [] => pure []
  | e :: rest => do
    let values ← evalNested meaning rest
    return (← evalCall meaning e) :: values

end

/-- Runs the calls of a line from left to right. -/
def evalAll (meaning : Meaning m) : List Expr → m Unit
  | [] => pure ()
  | e :: rest => do
    let _ ← evalCall meaning e
    evalAll meaning rest

end Expr

end Termwise
