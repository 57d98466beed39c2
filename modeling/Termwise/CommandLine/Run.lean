import Termwise.CommandLine.Options
import Termwise.CommandLine.Repl
import Termwise.Files.Loading
import Termwise.Host.Standard
import Termwise.Model.Sampling

/-! The command line as a function: from arguments, files, input and chance to an exit code and two
texts. -/
namespace Termwise.CommandLine

/-- What stops the program outright. -/
inductive Crash where
  | read (cause : ReadError)
  | fault (f : Fault)
  | model (e : ModelError)
  /-- An exception of an extension. -/
  | extension (f : Host.Failure)
deriving Repr, DecidableEq, Inhabited

/-- How the program ends, and what it writes. -/
structure Outcome where
  status : Except Crash Nat
  out : String := ""
  err : String := ""

def usage : String :=
  "usage: termlang [-h] [-source] [-verbose] [--registers REGISTERS]\n"
    ++ "                [--ticks TICKS] [--max-steps MAX_STEPS] [--ext EXT]\n"
    ++ "                [--seed SEED] [--trace] [--render] [--generate N]\n"
    ++ "                [program]\n"

/-- The notices that are written: all of them when debugging, and none otherwise. -/
def noticesText (verbose : Bool) (notices : List Notice) : String :=
  if verbose then String.join (notices.map fun n => n.text ++ "\n") else ""

/-- The lines of the input. A line feed at the very end opens no further line. -/
def inputLines (input : String) : List String :=
  let pieces := Text.splitAt '\n' input.toList
  let pieces := if pieces.getLast? = some [] then pieces.dropLast else pieces
  pieces.map String.ofList

def console (o : Options) (services : Host.Services Host.World) (world : Host.World) : Console where
  bridge := services.bridge none
  maxSteps := o.maxSteps
  tracing := o.trace
  verbose := o.verbose
  session := { registers := Registers.zeros o.registers, host := world }

/-- Notices of a session in order. -/
def Console.notices (c : Console) : List Notice := c.session.notices.reverse

def runRepl (o : Options) (c : Console) (input : String) : Outcome :=
  let (shown, r) := Repl.feedAll ⟨c, []⟩ (inputLines input)
  let err := noticesText o.verbose r.console.notices
  match shown with
  | .ok text => { status := .ok 0, out := Repl.banner ++ text, err := err }
  | .error f => { status := .error (.fault f), out := Repl.banner, err := err }

/-- Writes rows sampled from a model of the program. -/
def runGenerate (o : Options) (c : Console) (text : String) : Outcome :=
  let fresh : Model Float := Model.new Model.defaultSmoothing Model.defaultTemperature
  match fresh.fit (Source.tokenize text) with
  | (.error e, _) => { status := .error (.model e) }
  | (.ok _, m) =>
    match (m.generateRows Chance.pick Model.defaultRowTerms o.generate.toNat).run
      c.session.host.chance with
    | (.ok rows, _) =>
      { status := .ok 0, out := String.join (rows.map fun row => " ".intercalate row ++ "\n") }
    | (.error e, _) => { status := .error (.model e) }

/-- Writes the program in the usual notation. -/
def runRender (c : Console) (text : String) : Outcome :=
  let (lines, _) := c.compile text
  { status := .ok 0, out := String.join (lines.map fun line => line.render ++ "\n") }

def wasHalted : Option Result → Bool
  | some result => result.halted
  | none => false

def runProgram (o : Options) (c : Console) (text : String) : Outcome :=
  let (lines, c) := c.compile text
  match c.run lines o.ticks.toNat with
  | (.error f, c) => { status := .error (.fault f), err := noticesText o.verbose c.notices }
  | (.ok last, c) =>
    let trace := if o.trace then c.session.trace.text ++ "\n" else ""
    let capped := if wasHalted last then "step cap of " ++ toString o.maxSteps ++
      " reached\n" else ""
    { status := .ok 0
      out := trace ++ c.session.registers.text ++ "\n"
      err := noticesText o.verbose c.notices ++ capped }

def runText (o : Options) (c : Console) (text : String) : Outcome :=
  if 0 < o.generate then runGenerate o c text
  else if o.render then runRender c text
  else runProgram o c text

/-- The program text: the argument itself, or the file that it names. -/
def runArgument (o : Options) (c : Console) (files : Files Host.World) (argument : String) :
    Outcome :=
  if o.source then runText o c argument
  else
    match files.readText argument with
    | .ok text => runText o c (String.ofList text)
    | .error .notText => { status := .error (.read .notText) }
    | .error .notPath => { status := .error (.read .notPath) }
    | .error cause =>
      { status := .ok 1,
        err := "Failed to read " ++ argument ++ ": " ++ cause.message argument ++ "\n" }

def runLoaded (o : Options) (services : Host.Services Host.World) (files : Files Host.World)
    (input : String) (world : Host.World) : Outcome :=
  let c := console o services world
  match o.program with
  | some argument => runArgument o c files argument
  | none =>
    if o.source then { status := .ok 1, err := "-source requires a program string\n" }
    else runRepl o c input

def runOptions (o : Options) (files : Files Host.World) (input : String) (chance : Chance) :
    Outcome :=
  let (loaded, notices, services) := Loading.load (.still files) o.extensions Host.Standard.services
  let before := noticesText o.verbose notices
  match loaded with
  | .ok _ =>
    let outcome := runLoaded o services files input { chance := chance }
    { outcome with err := before ++ outcome.err }
  | .error e =>
    match e.message with
    | .ok message => { status := .ok 1, err := before ++ "ExtensionError: " ++ message ++ "\n" }
    | .error (.read cause) => { status := .error (.read cause), err := before }
    | .error (.failure f) => { status := .error (.extension f), err := before }

def run (args : List String) (files : Files Host.World) (input : String) (chance : Chance) :
    Outcome :=
  match parse args with
  | .error e => { status := .ok 2, err := usage ++ "termlang: error: " ++ e.message ++ "\n" }
  | .ok o => if o.help then { status := .ok 0, out := usage } else runOptions o files input chance

end Termwise.CommandLine
