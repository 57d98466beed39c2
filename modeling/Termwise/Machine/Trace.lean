import Termwise.Machine.Registers

/-! The step log of a run. -/
namespace Termwise

/-- What a step did. -/
inductive Rule where
  | line | jump | loop | halt
deriving Repr, DecidableEq, Inhabited

def Rule.word : Rule → String
  | .line => "LINE"
  | .jump => "JUMP"
  | .loop => "LOOP"
  | .halt => "HALT"

/-- One entry of the log. The registers are there only when they were asked for. -/
structure Entry where
  index : Nat
  pc : Nat
  indent : Option Nat
  rule : Rule
  registers : Option Registers
deriving Inhabited

namespace Entry

def stateName (e : Entry) : String :=
  let digits := Nat.toDigits 10 e.index
  "s_" ++ String.ofList (List.replicate (6 - digits.length) '0' ++ digits)

/-- The indentation as a number, minus one standing for none. -/
def level (e : Entry) : Int := (e.indent.map Int.ofNat).getD (-1)

def text (e : Entry) : String :=
  let head := e.stateName ++ "  pc=" ++ toString e.pc ++ " indent=" ++ toString e.level ++
    " " ++ e.rule.word
  match e.registers with
  | none => head
  | some r =>
    head ++ "  " ++
      ", ".intercalate (r.named.map fun (name, x) => name ++ "=" ++ Number.briefText x)

end Entry

/-- The entries so far, newest first, and the index of the next one. -/
structure Trace where
  newest : List Entry := []
  next : Nat := 0
deriving Inhabited

namespace Trace

/-- The entries in order. -/
def entries (t : Trace) : List Entry := t.newest.reverse

def record (t : Trace) (pc : Nat) (indent : Option Nat) (rule : Rule)
    (registers : Option Registers) : Trace :=
  ⟨⟨t.next, pc, indent, rule, registers⟩ :: t.newest, t.next + 1⟩

/-- The text of the log, one line for each entry. -/
def text (t : Trace) : String := "\n".intercalate (t.entries.map Entry.text)

end Trace

end Termwise
