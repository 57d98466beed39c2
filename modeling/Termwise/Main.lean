import Termwise.CommandLine.Run

/-! The program: reads the files that the arguments name, and leaves everything else to
`CommandLine`. -/
namespace Termwise.CommandLine

def readNode (path : String) : IO (Option Node) := do
  try
    return some (.file (← IO.FS.readBinFile path).toList)
  catch
    | .noFileOrDirectory .. => return none
    | .inappropriateType .. => return some .directory
    | _ => return none

/-- No extension is executed here: this program comes without an interpreter for their language. -/
def noInterpreter (path : String) (_ : Format) (_ : List UInt8) :
    Except Host.Raised (Extension Host.World) :=
  .error (.complaint ("No interpreter for extensions: " ++ path))

/-- The tree that holds what is on disk at the given paths. -/
def readFiles (here : String) (paths : List String) : IO (Files Host.World) := do
  let found ← paths.mapM fun path => do
    let absolute := Path.absolute here path
    return (← readNode absolute).map fun node => (Files.location absolute, node)
  return ⟨here, found.filterMap id, noInterpreter⟩

/-- The files that a command line can reach: the program, the extensions, and what lists of them
name. -/
def reachableFiles (here : String) (o : Options) : IO (Files Host.World) := do
  let named := o.program.toList ++ o.extensions
  let files ← readFiles here named
  match Loading.gather files o.extensions with
  | .ok paths => readFiles here (named ++ paths)
  | .error _ => return files

/-- Writes notices and forgets them. -/
def flushNotices (verbose : Bool) (c : Console) : IO Console := do
  IO.eprint (noticesText verbose c.notices)
  return { c with session := { c.session with notices := [] } }

/-- Answers the lines of the standard input one by one. -/
partial def interact (verbose : Bool) (r : Repl) : IO UInt32 := do
  IO.print r.prompt
  (← IO.getStdout).flush
  let line ← (← IO.getStdin).getLine
  if line.isEmpty then
    IO.println ""
    return 0
  let text := String.ofList (Text.before '\n' line.toList)
  match r.feed text with
  | (.ok shown, r) =>
    let console ← flushNotices verbose r.console
    IO.print shown
    interact verbose { r with console := console }
  | (.error _, _) => return 1

def runInteractive (o : Options) (files : Files Host.World) (chance : Chance) : IO UInt32 := do
  match Loading.load (.still files) o.extensions Host.Standard.services with
  | (.ok _, notices, services) =>
    IO.eprint (noticesText o.verbose notices)
    IO.print Repl.banner
    interact o.verbose ⟨console o services { chance := chance }, []⟩
  | (.error _, _, _) =>
    let outcome := runOptions o files "" chance
    IO.eprint outcome.err
    return 1

def report (outcome : Outcome) : IO UInt32 := do
  IO.print outcome.out
  IO.eprint outcome.err
  match outcome.status with
  | .ok code => return code.toUInt32
  | .error _ => return 1

/-- The source of chance for a seed, or for a seed of the moment. -/
def chanceFor (seed : Option Int) : IO Chance := do
  match seed with
  | some i => return Chance.ofSeed i.toNat
  | none => return Chance.ofSeed (← IO.rand 0 4294967295)

end Termwise.CommandLine

open Termwise.CommandLine in
def main (args : List String) : IO UInt32 := do
  match parse args with
  | .error _ => report (run args ⟨"/", [], noInterpreter⟩ "" default)
  | .ok o =>
    let here := (← IO.currentDir).toString
    let files ← reachableFiles here o
    let chance ← chanceFor o.seed
    if o.program.isNone && !o.source && !o.help then runInteractive o files chance
    else report (run args files "" chance)
