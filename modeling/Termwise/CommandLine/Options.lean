import Termwise.Machine.Run
import Termwise.Number.Reading

/-! Command line options. Long options may be shortened as long as one option fits, a value may
follow an equals sign, a number with a minus sign is not an option, and two dashes end the
options. -/
namespace Termwise.CommandLine

/-- The options. -/
inductive Key where
  | help | source | verbose | registers | ticks | maxSteps | ext | seed | trace | render | generate
deriving Repr, DecidableEq, Inhabited

namespace Key

def spellings : Key → List String
  | .help => ["-h", "--help"]
  | .source => ["-source", "--source"]
  | .verbose => ["-verbose", "--verbose"]
  | .registers => ["--registers"]
  | .ticks => ["--ticks"]
  | .maxSteps => ["--max-steps"]
  | .ext => ["--ext"]
  | .seed => ["--seed"]
  | .trace => ["--trace"]
  | .render => ["--render"]
  | .generate => ["--generate"]

def all : List Key :=
  [.help, .source, .verbose, .registers, .ticks, .maxSteps, .ext, .seed, .trace, .render, .generate]

def takesValue : Key → Bool
  | .registers | .ticks | .maxSteps | .ext | .seed | .generate => true
  | .help | .source | .verbose | .trace | .render => false

def title (k : Key) : String := "/".intercalate k.spellings

end Key

def spellings : List (String × Key) := Key.all.flatMap fun k => k.spellings.map fun s => (s, k)

/-- Why a command line is refused. -/
inductive UsageError where
  | ambiguous (given : String) (candidates : List String)
  | missingValue (key : Key)
  | unusedValue (key : Key) (value : String)
  | notInteger (key : Key) (value : String)
  | unrecognized (args : List String)
deriving Repr, DecidableEq, Inhabited

def UsageError.message : UsageError → String
  | .ambiguous given candidates =>
    "ambiguous option: " ++ given ++ " could match " ++ ", ".intercalate candidates
  | .missingValue key => "argument " ++ key.title ++ ": expected one argument"
  | .unusedValue key value =>
    "argument " ++ key.title ++ ": ignored explicit argument " ++ Text.quoted value
  | .notInteger key value =>
    "argument " ++ key.title ++ ": invalid int value: " ++ Text.quoted value
  | .unrecognized args => "unrecognized arguments: " ++ " ".intercalate args

/-- What an argument is. -/
inductive Arg where
  /-- A value. -/
  | plain (text : String)
  /-- The two dashes that end the options. -/
  | dashes
  /-- An option, with a value when one is attached. -/
  | option (key : Key) (attached : Option String)
  /-- Something that looks like an option and is none. -/
  | unknown (text : String)
deriving Repr, DecidableEq, Inhabited

/-- Whether digits of any script follow. -/
def isDigits (cs : List Char) : Bool := cs.all fun c => (Text.digitValue? c).isSome

/-- Whether an argument is a number with a minus sign, a line feed at the end not counting. -/
def isNegativeNumber (text : String) : Bool :=
  match text.toList with
  | '-' :: rest =>
    let body := if rest.getLast? = some '\n' then rest.dropLast else rest
    match Text.splitAt '.' body with
    | [whole] => whole ≠ [] && isDigits whole
    | [whole, places] => isDigits whole && places ≠ [] && isDigits places
    | _ => false
  | _ => false

/-- The part before the first equals sign, and the part after it when there is one. -/
def cutValue (text : String) : String × Option String :=
  let cs := text.toList
  if '=' ∈ cs then
    (String.ofList (cs.takeWhile (· ≠ '=')), some (String.ofList ((cs.dropWhile (· ≠ '=')).drop 1)))
  else (text, none)

def keyOf? (text : String) : Option Key := (spellings.find? fun (s, _) => s = text).map (·.2)

/-- The options that an argument may abbreviate, each with the value attached to it. With two dashes
the part before an equals sign counts; with one dash all of it, and a value may also follow a single
letter. -/
def candidates (text : String) : List (String × Key × Option String) :=
  match text.toList with
  | '-' :: '-' :: _ =>
    let (name, value) := cutValue text
    (spellings.filter fun (s, _) => name.toList.isPrefixOf s.toList).map fun (s, k) => (s, k, value)
  | cs =>
    spellings.filterMap fun (s, k) =>
      if s.toList = cs.take 2 then some (s, k, some (String.ofList (cs.drop 2)))
      else if cs.isPrefixOf s.toList then some (s, k, none)
      else none

/-- Classifies an argument that is not the two dashes. -/
def classify (text : String) : Except UsageError Arg :=
  match text.toList with
  | '-' :: _ :: _ =>
    let (name, value) := cutValue text
    match keyOf? text, keyOf? name, value with
    | some key, _, _ => .ok (.option key none)
    | none, some key, some _ => .ok (.option key value)
    | _, _, _ =>
      match candidates text with
      | [] =>
        if isNegativeNumber text || text.toList.contains ' ' then .ok (.plain text)
        else .ok (.unknown text)
      | [(_, key, value)] => .ok (.option key value)
      | many => .error (.ambiguous text (many.map (·.1)))
  | _ => .ok (.plain text)

/-- Classifies all arguments; after two dashes everything is a value. -/
def classifyAll : List String → Except UsageError (List Arg)
  | [] => .ok []
  | text :: rest =>
    if text = "--" then .ok (.dashes :: rest.map .plain)
    else do
      let arg ← classify text
      return arg :: (← classifyAll rest)

/-- What a command line asks for. -/
structure Options where
  program : Option String := none
  source : Bool := false
  verbose : Bool := false
  registers : Int := Registers.defaultCount
  ticks : Int := 1
  maxSteps : Int := defaultMaxSteps
  extensions : List String := []
  seed : Option Int := none
  trace : Bool := false
  render : Bool := false
  generate : Int := 0
  help : Bool := false
deriving Repr, Inhabited

namespace Options

def integer (key : Key) (value : String) : Except UsageError Int :=
  match Number.intOfString? value with
  | some i => .ok i
  | none => .error (.notInteger key value)

/-- Sets an option without a value. -/
def setFlag (o : Options) : Key → Options
  | .help => { o with help := true }
  | .source => { o with source := true }
  | .verbose => { o with verbose := true }
  | .trace => { o with trace := true }
  | .render => { o with render := true }
  | _ => o

def setValue (o : Options) (key : Key) (value : String) : Except UsageError Options :=
  match key with
  | .ext => .ok { o with extensions := o.extensions ++ [value] }
  | .registers => (integer key value).map fun i => { o with registers := i }
  | .ticks => (integer key value).map fun i => { o with ticks := i }
  | .maxSteps => (integer key value).map fun i => { o with maxSteps := i }
  | .seed => (integer key value).map fun i => { o with seed := some i }
  | .generate => (integer key value).map fun i => { o with generate := i }
  | _ => .ok o

end Options

/-- How far reading the arguments has come. `placed` says that the program argument has been
settled. -/
structure Reading where
  options : Options := {}
  placed : Bool := false
  /-- Arguments that belong nowhere, newest first. -/
  extras : List String := []

def Arg.text : Arg → String
  | .plain text | .unknown text => text
  | .dashes => "--"
  | .option key _ => key.title

/-- Arguments after the last option. The program may stand before or after the two dashes. -/
def readTail (r : Reading) (args : List Arg) : Reading :=
  let leftOver (rest : List Arg) : List String := (rest.map Arg.text).reverse ++ r.extras
  if r.placed then { r with extras := leftOver args }
  else
    match args with
    | .dashes :: .plain p :: rest =>
      { options := { r.options with program := some p }, placed := true, extras := leftOver rest }
    | .plain p :: .dashes :: rest =>
      { options := { r.options with program := some p }, placed := true, extras := leftOver rest }
    | .plain p :: rest =>
      { options := { r.options with program := some p }, placed := true, extras := leftOver rest }
    | .dashes :: rest => { r with placed := true, extras := leftOver rest }
    | rest => { r with extras := leftOver rest }

/-- Whether an argument is an option or looks like one. -/
def Arg.isOption : Arg → Bool
  | .option _ _ | .unknown _ => true
  | .plain _ | .dashes => false

/-- Reads classified arguments from left to right. The first plain argument is the program. -/
def readArgs (r : Reading) : List Arg → Except UsageError Reading
  | [] => .ok r
  | .option key attached :: rest =>
    if key.takesValue then
      match attached with
      | some value => do readArgs { r with options := ← r.options.setValue key value } rest
      | none =>
        match rest with
        | .plain value :: more => do
          readArgs { r with options := ← r.options.setValue key value } more
        | _ => .error (.missingValue key)
    else
      match key, attached with
      | .help, _ => .ok { r with options := r.options.setFlag .help }
      | _, some value => .error (.unusedValue key value)
      | _, none => readArgs { r with options := r.options.setFlag key } rest
  | .unknown text :: rest => readArgs { r with extras := text :: r.extras } rest
  | arg :: rest =>
    if rest.any Arg.isOption then
      if r.placed then readArgs { r with extras := arg.text :: r.extras } rest
      else
        readArgs
          { r with options := { r.options with program := some arg.text }, placed := true } rest
    else .ok (readTail r (arg :: rest))

def parse (args : List String) : Except UsageError Options := do
  let reading ← readArgs {} (← classifyAll args)
  if reading.options.help then return reading.options
  if reading.extras ≠ [] then throw (.unrecognized reading.extras.reverse)
  return reading.options

end Termwise.CommandLine
