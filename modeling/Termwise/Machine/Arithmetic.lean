import Termwise.Fault
import Termwise.Number.Binary
import Termwise.Term.Vocabulary

/-! What operators and assignments compute. Results may be NaN or infinite; whoever stores or
returns them makes them finite. -/
namespace Termwise

namespace Number

/-- An operation that faults on a zero divisor. -/
def divided (op : Float → Float → Float) (a b : Float) : Except Fault Float :=
  if b == 0.0 then .error .zeroDivisor else .ok (op a b)

/-- A quotient, NaN when the divisor is zero. -/
def quotient (a b : Float) : Except Fault Float :=
  if b == 0.0 then .ok (0.0 / 0.0) else divided (· / ·) a b

/-- A remainder with the sign of the divisor, NaN when the divisor is zero. -/
def remainder (a b : Float) : Except Fault Float :=
  if b == 0.0 then .ok (0.0 / 0.0) else divided modulo a b

end Number

namespace Operator

/-- The value of an operator of two numbers; an operator of one number ignores the second. -/
def apply (op : Operator) (a b : Float) : Except Fault Float :=
  match op with
  | .add => .ok (a + b)
  | .sub => .ok (a - b)
  | .mul => .ok (a * b)
  | .div => Number.quotient a b
  | .mod => Number.remainder a b
  | .lessThan => .ok (Number.ofBool (a < b))
  | .greaterThan => .ok (Number.ofBool (a > b))
  | .equal => .ok (Number.ofBool (a == b))
  | .notEqual => .ok (Number.ofBool (a != b))
  | .lessThanOrEqual => .ok (Number.ofBool (a ≤ b))
  | .greaterThanOrEqual => .ok (Number.ofBool (a ≥ b))
  | .and => .ok (Number.ofBool (a != 0.0 && b != 0.0))
  | .or => .ok (Number.ofBool (a != 0.0 || b != 0.0))
  | .not => .ok (Number.ofBool (a == 0.0))

/-- The value of an operator on a list of arguments: missing ones are zero, and further ones are
ignored. -/
def eval (op : Operator) (args : List Float) : Except Fault Float :=
  op.apply (args.getD 0 0.0) (args.getD 1 0.0)

def invoke (name : String) (args : List Float) : Except Fault Float :=
  match ofName? name with
  | some op => op.eval args
  | none => .error (.unknownOperator name)

end Operator

namespace Assignment

/-- The new value of a register, given its current one and the operand. -/
def combine (a : Assignment) (current x : Float) : Except Fault Float :=
  match a with
  | .set => .ok x
  | .add | .increment => .ok (current + x)
  | .sub | .decrement => .ok (current - x)
  | .mul => .ok (current * x)
  | .div => Number.quotient current x
  | .mod => Number.remainder current x

def eval (a : Assignment) (current : Float) (args : List Float) : Except Fault Float :=
  match a with
  | .increment | .decrement => a.combine current 1.0
  | _ =>
    match args with
    | x :: _ => a.combine current x
    | [] => .error .missingArgument

/-- The new value of a register under the assignment of a given name. -/
def invoke (name : String) (current : Float) (args : List Float) : Except Fault Float :=
  match ofName? name with
  | some a => a.eval current args
  | none => .error (.unknownOperator name)

end Assignment

end Termwise
