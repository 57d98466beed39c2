import Termwise.Machine.State

/-! Evaluation: reading operands and performing calls on a machine. A flow call may move the program
counter, which ends the line. -/
namespace Termwise

/-- What ends a line before its end. -/
inductive Interrupt where
  /-- The program counter has moved. -/
  | jump
  /-- The run cannot go on. -/
  | fault (f : Fault)
deriving Repr, DecidableEq, Inhabited

/-- Computations on a machine that may be interrupted; the machine stays as the interrupt left
it. -/
abbrev Exec (σ : Type) := ExceptT Interrupt (StateM (Machine σ))

namespace Machine

variable {σ : Type}

def askHost (use : σ → Except Fault Host.Reply × σ) : Exec σ Float := do
  let s ← getThe (Machine σ)
  let (reply, host) := use s.host
  set { s with host := host }
  match reply with
  | .ok reply =>
    modify (note (reply.note.map Notice.host))
    return Number.sanitize reply.value
  | .error f => throw (.fault f)

def operandValue (setup : Setup σ) (t : Term) : Exec σ Float := do
  let registers := (← getThe (Machine σ)).registers
  match t.kind with
  | .number => return Number.sanitize t.literal
  | .register => return registers.get t.index
  | .negated => return Number.sanitize (-registers.get t.index)
  | .inverted => return Number.ofBool (registers.get t.index == 0.0)
  | .property => askHost (setup.bridge.read t.nameText)
  | _ => return 0.0

/-- Assigns to a register and gives the value that was written. -/
def assign (a : Assignment) (index : Int) (args : List Float) : Exec σ Float := do
  let s ← getThe (Machine σ)
  match a.eval (s.registers.get (some index)) (args ++ [0.0]) with
  | .ok x =>
    set { s with registers := s.registers.set (some index) x }
    return Number.sanitize x
  | .error f => throw (.fault f)

/-- Calls a function by name: a built-in operator, or a function of the host. -/
def callByName (setup : Setup σ) (name : String) (args : List Float) : Exec σ Float :=
  if (Operator.ofName? name).isSome then
    match Operator.invoke name args with
    | .ok x => return Number.sanitize x
    | .error f => throw (.fault f)
  else askHost (setup.bridge.call name args)

/-- Skips a block: moves to the line after it and ends the current line. `chain` says that the block
belongs to a chain that has had its branch, which the next member of the chain has to know. -/
def skip (setup : Setup σ) (indent : Option Nat) (chain : Bool) : Exec σ Float := do
  let s ← getThe (Machine σ)
  let pc := skipBlock setup.lines indent s.pc
  let carried := chain && (setup.lines[pc]?.map Line.indent) == some indent
  set { s with pc := pc, settled := s.settled || carried }
  throw .jump

def openBlock (kind : Flow) (indent : Option Nat) : Exec σ Float := do
  modify fun s => { s with blocks := ⟨kind, indent, s.pc⟩ :: s.blocks }
  return 0.0

/-- Leaves the innermost loop; without effect outside any loop. -/
def leaveLoop (setup : Setup σ) : Exec σ Float := do
  let s ← getThe (Machine σ)
  match s.blocks.dropWhile fun block => block.kind ≠ .loop with
  | [] => return 0.0
  | block :: outer =>
    set { s with blocks := outer, pc := skipBlock setup.lines block.indent s.pc }
    throw .jump

/-- Performs a flow keyword. `settled` says that the chain the line belongs to has had its
branch. -/
def performFlow (setup : Setup σ) (indent : Option Nat) (settled : Bool) (keyword : Option Flow)
    (args : List Float) : Exec σ Float :=
  let condition := args.getD 0 0.0
  match keyword with
  | none => return 0.0
  | some .leave => leaveLoop setup
  | some .when => if condition == 0.0 then skip setup indent false else openBlock .when indent
  | some .loop => if condition == 0.0 then skip setup indent false else openBlock .loop indent
  | some .otherwise => if settled then skip setup indent true else openBlock .otherwise indent
  | some .orWhen =>
    if settled || condition == 0.0 then skip setup indent settled else openBlock .orWhen indent

def perform (setup : Setup σ) (indent : Option Nat) (settled : Bool) (t : Term)
    (args : List Float) : Exec σ Float :=
  match t.kind with
  | .flow => performFlow setup indent settled (Flow.ofWord? t.nameText) args
  | .assignment =>
    match t.index, Assignment.ofName? t.nameText with
    | some index, some a => assign a index args
    | _, _ => callByName setup t.nameText args
  | _ => callByName setup t.nameText args

/-- The meaning of operands and calls on a line. -/
def meaning (setup : Setup σ) (indent : Option Nat) (settled : Bool) : Meaning (Exec σ) where
  operand := operandValue setup
  perform := perform setup indent settled

def execute (setup : Setup σ) (line : Line) (settled : Bool) : Exec σ Unit :=
  Expr.evalAll (meaning setup line.indent settled) line.calls

end Machine

end Termwise
