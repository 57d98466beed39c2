import Termwise.Expr.Compile
import Termwise.Host.World
import Termwise.Machine.Run

/-! The prompt. A line runs at once, unless it opens a block: then lines are collected until a blank
line, which runs them together. Registers last from run to run. -/
namespace Termwise.CommandLine

/-- A machine to run programs on. -/
structure Console where
  bridge : Host.Bridge Host.World
  maxSteps : Int
  tracing : Bool
  verbose : Bool
  session : Session Host.World

namespace Console

/-- Reads a program text; wildcards draw from the chance of the host. -/
def compile (c : Console) (text : String) : List Line × Console :=
  let world := c.session.host
  let (lines, chance) := Program.compile text world.chance
  (lines, { c with session := { c.session with host := { world with chance := chance } } })

def run (c : Console) (lines : List Line) (times : Nat) : Except Fault (Option Result) × Console :=
  let setup : Setup Host.World := ⟨lines, c.bridge, c.tracing, c.verbose⟩
  let (result, session) := c.session.runTimes setup c.maxSteps times none
  (result, { c with session := session })

end Console

/-- The state of the prompt: the machine, and the lines of an open block, oldest first. -/
structure Repl where
  console : Console
  buffer : List String := []

namespace Repl

def banner :
    String := "\x1b[38;2;153;221;255mTermLang\x1b[0m REPL. Enter lines, blank line to run buffer.\n"

/-- The prompt for a new line, or for the next line of a block. -/
def prompt (r : Repl) : String :=
  if r.buffer.isEmpty then "\x1b[38;2;153;221;255m>>>\x1b[0m "
  else "\x1b[38;2;153;221;255m..>\x1b[0m "

/-- What a line asks for. -/
inductive Request where
  | showRegisters
  | resetRegisters
  | renderBuffer
  | runLine
  | runBuffer
  | collect
  | ignore
deriving Repr, DecidableEq, Inhabited

/-- Whether a line opens a block: it is indented, or its first word is a flow keyword. -/
def opensBlock (line : List Char) : Bool :=
  let indented := line.head? = some ' ' || line.head? = some '\t'
  match Text.words line with
  | first :: _ => indented || (Flow.ofWord? (String.ofList first)).isSome
  | [] => false

/-- What a line asks for, given whether a block is open. -/
def request (isOpen : Bool) (line : String) : Request :=
  let cs := line.toList
  let trimmed := Text.trim cs
  match String.ofList trimmed with
  | ":registers" => .showRegisters
  | ":reset" => .resetRegisters
  | ":render" => .renderBuffer
  | _ =>
    if trimmed = [] then (if isOpen then .runBuffer else .ignore)
    else if isOpen || opensBlock cs then .collect
    else .runLine

def runText (r : Repl) (text : String) : Except Fault String × Repl :=
  let (lines, console) := r.console.compile text
  let (result, console) := console.run lines 1
  let r := { r with console := console }
  match result with
  | .ok _ => (.ok (console.session.registers.text ++ "\n"), r)
  | .error f => (.error f, r)

def bufferText (r : Repl) : String := "\n".intercalate r.buffer

/-- Takes a line in; gives what is shown. -/
def feed (r : Repl) (line : String) : Except Fault String × Repl :=
  match request (!r.buffer.isEmpty) line with
  | .showRegisters => (.ok (r.console.session.registers.text ++ "\n"), r)
  | .resetRegisters =>
    (.ok "",
      { r with console := { r.console with session := r.console.session.reset }, buffer := [] })
  | .renderBuffer =>
    let (lines, console) := r.console.compile r.bufferText
    (.ok (String.join (lines.map fun line => line.render ++ "\n")), { r with console := console })
  | .runLine => r.runText line
  | .runBuffer => { r with buffer := [] }.runText r.bufferText
  | .collect => (.ok "", { r with buffer := r.buffer ++ [line] })
  | .ignore => (.ok "", r)

/-- Takes lines in one after another, with the prompts before them and at the end. -/
def feedAll : Repl → List String → Except Fault String × Repl
  | r, [] => (.ok (r.prompt ++ "\n"), r)
  | r, line :: rest =>
    let prompt := r.prompt
    match r.feed line with
    | (.error f, r) => (.error f, r)
    | (.ok shown, r) =>
      let (more, r) := feedAll r rest
      (more.map fun text => prompt ++ shown ++ text, r)

end Repl

end Termwise.CommandLine
