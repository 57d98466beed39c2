import Termwise.Machine.Eval

/-! Runs. A step executes the line at the program counter, after closing the block that a smaller
indentation ends; a run repeats steps until the program is over or the step cap is reached. -/
namespace Termwise

/-- How a run ended: its steps, and whether the cap stopped it. -/
structure Result where
  steps : Nat
  halted : Bool
deriving Repr, DecidableEq, Inhabited

def defaultMaxSteps : Int := 1000

namespace Machine

variable {σ : Type}

/-- Whether a line at `indent` ends blocks of the line before. -/
def dedents (indent previous : Option Nat) : Bool :=
  match indent, previous with
  | some level, some before => level < before
  | _, _ => false

/-- Starts a loop over: the line that closed it is not executed. -/
def restart (setup : Setup σ) (indent : Option Nat) (s : Machine σ) : Machine σ :=
  log setup indent .loop { s with previous := none }

/-- Executes a line that closed no loop. -/
def enter (setup : Setup σ) (line : Line) (settled : Bool) (s : Machine σ) :
    Except Fault Unit × Machine σ :=
  match (execute setup line settled).run
      (log setup line.indent .line { s with settled := false }) with
  | (.ok _, s) => (.ok (), { s with previous := line.indent, pc := s.pc + 1 })
  | (.error .jump, s) => (.ok (), log setup line.indent .jump { s with previous := none })
  | (.error (.fault f), s) => (.error f, s)

def stepLine (setup : Setup σ) (line : Line) (s : Machine σ) : Except Fault Unit × Machine σ :=
  let (closing, s) := if dedents line.indent s.previous then s.close line.indent else (none, s)
  match closing with
  | some .again => (.ok (), restart setup line.indent { s with settled := false })
  | some .done => enter setup line true s
  | none => enter setup line s.settled s

/-- One step of a run; gives the result when the program is over. -/
def tick (setup : Setup σ) (s : Machine σ) : Except Fault (Option Result) × Machine σ :=
  match setup.lines[s.pc]? with
  | none => (.error (.missingLine s.pc), s)
  | some line =>
    match stepLine setup line s with
    | (.error f, s) => (.error f, s)
    | (.ok _, s) =>
      let s := { s with steps := s.steps + 1 }
      if s.pc < setup.lines.length then (.ok none, s)
      else
        match s.close (some 0) with
        | (some .again, s) => (.ok none, restart setup (some 0) s)
        | (_, s) => (.ok (some ⟨s.steps, false⟩), s)

/-- Ends a run that has reached the cap. -/
def halt (setup : Setup σ) (s : Machine σ) : Result × Machine σ :=
  (⟨s.steps, true⟩, (log setup none .halt s).note (some (.halted s.steps s.pc)))

/-- Repeats steps, `cap` of them at most. -/
def loop (setup : Setup σ) : Nat → Machine σ → Except Fault Result × Machine σ
  | 0, s =>
    let (result, s) := halt setup s
    (.ok result, s)
  | cap + 1, s =>
    match tick setup s with
    | (.error f, s) => (.error f, s)
    | (.ok (some result), s) => (.ok result, s)
    | (.ok none, s) => loop setup cap s

end Machine

namespace Session

variable {σ : Type}

/-- The machine at the start of a run. The step log starts anew. -/
def start (setup : Setup σ) (s : Session σ) : Machine σ :=
  { toSession := if setup.tracing then { s with trace := {} } else s }

/-- Runs a program. An empty program changes nothing; a negative cap is a cap of zero. -/
def run (setup : Setup σ) (maxSteps : Int) (s : Session σ) : Except Fault Result × Session σ :=
  if setup.lines.isEmpty then (.ok ⟨0, false⟩, s)
  else
    let (result, machine) := Machine.loop setup maxSteps.toNat (s.start setup)
    (result, machine.toSession)

/-- Runs a program a number of times and gives the last result, if any. -/
def runTimes (setup : Setup σ) (maxSteps : Int) : Nat → Option Result → Session σ →
    Except Fault (Option Result) × Session σ
  | 0, last, s => (.ok last, s)
  | times + 1, _, s =>
    match s.run setup maxSteps with
    | (.error f, s) => (.error f, s)
    | (.ok result, s) => runTimes setup maxSteps times (some result) s

/-- Puts zero into every register. -/
def reset (s : Session σ) : Session σ := { s with registers := s.registers.reset }

end Session

end Termwise
