import Termwise.Expr.Traversal
import Termwise.Host.Bridge
import Termwise.Machine.Arithmetic
import Termwise.Machine.Trace

/-! The state of a machine. A session outlives the runs: registers, step log, host state and notes.
A run adds the program counter and the blocks that are open. -/
namespace Termwise

/-- Things worth noting for whoever debugs a program. -/
inductive Notice where
  | host (note : Host.Note)
  | halted (steps pc : Nat)
  | loaded (extension path : String)

/-- The text of a notice with the part of the system that it comes from. -/
def Notice.text : Notice → String
  | .host note => "DEBUG:extensions:" ++ note.message
  | .halted steps pc =>
    "DEBUG:interpreter:run halted after " ++ toString steps ++ " steps at pc=" ++ toString pc
  | .loaded extension path => "DEBUG:extensions:loaded extension " ++ extension ++ " from " ++ path

/-- What lasts from run to run. -/
structure Session (σ : Type) where
  registers : Registers
  host : σ
  trace : Trace := {}
  /-- Notices, newest first. -/
  notices : List Notice := []

/-- A block that is open: what opened it, at which indentation, and on which line. -/
structure Block where
  kind : Flow
  indent : Option Nat
  opener : Nat
deriving Repr, DecidableEq, Inhabited

/-- The state of a run. Blocks are innermost first. `previous` is the indentation of the line
before, `none` after a jump. `settled` says that the jump before skipped the rest of a chain that
has had its branch. -/
structure Machine (σ : Type) extends Session σ where
  pc : Nat := 0
  previous : Option Nat := some 0
  blocks : List Block := []
  steps : Nat := 0
  settled : Bool := false

/-- What a run works with and does not change. -/
structure Setup (σ : Type) where
  lines : List Line
  bridge : Host.Bridge σ
  tracing : Bool := false
  verbose : Bool := false

/-- Comparison of indentations; `none`, the level of a line without content, is below all others. -/
def Indent.below : Option Nat → Option Nat → Bool
  | _, none => false
  | none, some _ => true
  | some a, some b => a < b

namespace Machine

variable {σ : Type}

/-- Adds an entry to the step log, if there is one. -/
def log (setup : Setup σ) (indent : Option Nat) (rule : Rule) (s : Machine σ) : Machine σ :=
  if setup.tracing then
    { s with
      trace := s.trace.record s.pc indent rule
        (if setup.verbose then some s.registers else none) }
  else s

/-- Adds a notice. -/
def note (notice : Option Notice) (s : Machine σ) : Machine σ :=
  { s with notices := notice.toList ++ s.notices }

end Machine

/-- How closing a block ended: a loop starts over, any other block is done. -/
inductive Closing where
  | again
  | done
deriving Repr, DecidableEq, Inhabited

namespace Machine

variable {σ : Type}

/-- Closes the innermost block if it is at the given indentation or deeper. A closed loop moves the
program counter back to its first line. -/
def close (indent : Option Nat) (s : Machine σ) : Option Closing × Machine σ :=
  match s.blocks with
  | [] => (none, s)
  | block :: outer =>
    if Indent.below block.indent indent then (none, s)
    else if block.kind = .loop then (some .again, { s with blocks := outer, pc := block.opener })
    else (some .done, { s with blocks := outer })

end Machine

/-- The first line after `pc` that is not deeper than `indent`; the end of the program when there is
none. -/
def skipBlock (lines : List Line) (indent : Option Nat) (pc : Nat) : Nat :=
  pc + 1 + ((lines.drop (pc + 1)).takeWhile fun line => Indent.below indent line.indent).length

end Termwise
