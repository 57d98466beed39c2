/-! The fixed words of the language: operators, assignments, flow keywords and reserved names. -/
namespace Termwise

/-- Built-in operators. -/
inductive Operator where
  | add | sub | mul | div | mod
  | lessThan | greaterThan | and | or
  | equal | notEqual | lessThanOrEqual | greaterThanOrEqual
  | not
deriving Repr, DecidableEq, Inhabited

namespace Operator

def all : List Operator :=
  [.add, .sub, .mul, .div, .mod, .lessThan, .greaterThan, .and, .or, .equal, .notEqual,
    .lessThanOrEqual, .greaterThanOrEqual, .not]

def symbol : Operator → String
  | .add => "+" | .sub => "-" | .mul => "*" | .div => "/" | .mod => "%"
  | .lessThan => "<" | .greaterThan => ">" | .and => "&&" | .or => "||"
  | .equal => "==" | .notEqual => "!=" | .lessThanOrEqual => "<=" | .greaterThanOrEqual => ">="
  | .not => "!"

/-- The name that a call of the operator carries. -/
def name : Operator → String
  | .add => "add" | .sub => "sub" | .mul => "mul" | .div => "div" | .mod => "mod"
  | .lessThan => "lessThan" | .greaterThan => "greaterThan" | .and => "and" | .or => "or"
  | .equal => "equal" | .notEqual => "notEqual" | .lessThanOrEqual => "lessThanOrEqual"
  | .greaterThanOrEqual => "greaterThanOrEqual"
  | .not => "not"

def arity : Operator → Nat
  | .not => 1
  | _ => 2

def ofSymbol? (s : String) : Option Operator := all.find? fun op => op.symbol = s

def ofName? (s : String) : Option Operator := all.find? fun op => op.name = s

end Operator

/-- Assignments to a register. -/
inductive Assignment where
  | set | add | sub | mul | div | mod | increment | decrement
deriving Repr, DecidableEq, Inhabited

namespace Assignment

def all : List Assignment := [.set, .add, .sub, .mul, .div, .mod, .increment, .decrement]

/-- What stands before the register index in a program. -/
def lead : Assignment → String
  | .set => "=V" | .add => "+=V" | .sub => "-=V" | .mul => "*=V" | .div => "/=V" | .mod => "%=V"
  | .increment => "++V" | .decrement => "--V"

def name : Assignment → String
  | .set => "assign" | .add => "assignAdd" | .sub => "assignSub" | .mul => "assignMul"
  | .div =>
    "assignDiv" | .mod => "assignMod" | .increment => "assignInc" | .decrement => "assignDec"

def arity : Assignment → Nat
  | .increment | .decrement => 0
  | _ => 1

def ofName? (s : String) : Option Assignment := all.find? fun a => a.name = s

end Assignment

/-- Keywords that steer the flow of control. -/
inductive Flow where
  | when | orWhen | otherwise | loop | leave
deriving Repr, DecidableEq, Inhabited

namespace Flow

def all : List Flow := [.when, .orWhen, .otherwise, .loop, .leave]

def word : Flow → String
  | .when => "if" | .orWhen => "elif" | .otherwise => "else" | .loop => "while" | .leave => "break"

def arity : Flow → Nat
  | .when | .orWhen | .loop => 1
  | .otherwise | .leave => 0

def ofWord? (s : String) : Option Flow := all.find? fun f => f.word = s

end Flow

/-- Names that always read a host property. -/
def propertyNames : List String :=
  ["HALF_PI", "PI", "QUATER_PI", "TAU", "TWO_PI",
    "POINTS", "LINES", "TRIANGLES", "TRIANGLE_FAN", "TRIANGLE_STRIP", "QUADS", "QUAD_STRIP",
    "CLOSE",
    "LEFT", "CENTER", "RIGHT",
    "mouseX", "mouseY", "pmouseX", "pmouseY", "mouseButton", "mouseIsPressed",
    "width", "height"]

def indentToken : String := "<IDT>"

def returnToken : String := "<CR>"

/-- The character of a number that stands for a digit still to be drawn. -/
def wildcard : Char := 'D'

def indentWidth : Nat := 2

end Termwise
