/-! Failures of the host, and the ways a run could end early. Only failures of the host ever end
one: ordinary ones where a function is looked up on its target, and those that nobody catches. -/
namespace Termwise

/-- An exception of the host. -/
inductive Host.Failure where
  /-- An ordinary exception, which is caught where the host is used. -/
  | ordinary (message : String)
  /-- A demand to stop, such as an exit or an interrupt, which handlers of ordinary exceptions let
  pass. -/
  | escaping (message : String)
deriving Repr, DecidableEq, Inhabited

/-- A cause that ends a run. -/
inductive Fault where
  /-- The program counter is outside the program. -/
  | missingLine (pc : Nat)
  /-- A built-in operator or assignment does not exist. -/
  | unknownOperator (name : String)
  /-- A built-in lacks an argument. -/
  | missingArgument
  /-- A number is divided by zero. -/
  | zeroDivisor
  /-- Looking up a name on the host's target failed. -/
  | lookup (failure : Host.Failure)
  /-- The host demanded to stop while it was used. -/
  | escape (message : String)
  /-- A value of the host failed when it was asked for its number. -/
  | conversion (failure : Host.Failure)
deriving Repr, DecidableEq, Inhabited

end Termwise
