import Termwise.Fault
import Termwise.Host.Value
import Termwise.Table

/-! The bridge to a host: named functions and readable properties, and an optional target whose
attributes answer for names that the tables lack. An ordinary exception of a function or a property
reads as zero. What is passed on is a failure to look a function up on the target, a demand to stop,
and the failure of a value that is asked for its number. A host has a state of its own, which its
routines read and change. -/
namespace Termwise.Host

/-- A function of the host: a value or a failure, and the new state. -/
abbrev Routine (σ : Type) := List Float → σ → Except Failure Value × σ

/-- What a name stands for. -/
inductive Binding (σ : Type) where
  | routine (run : Routine σ)
  | value (v : Value)

/-- The answer of a target to a name. -/
inductive Lookup (σ : Type) where
  | found (binding : Binding σ)
  | absent
  | failed (failure : Failure)

/-- An object whose attributes are looked up by name. -/
abbrev Target (σ : Type) := String → σ → Lookup σ × σ

/-- The tables and the target. -/
structure Bridge (σ : Type) where
  functions : Table String (Binding σ) := []
  properties : Table String (Binding σ) := []
  target : Option (Target σ) := none

/-- What is worth noting about a use of the host. -/
inductive Note where
  | missing (name : String)
  | failed (name message : String)
  | odd (name : String) (value : Value)
  | failedProperty (name message : String)

/-- The text of a note. -/
def Note.message : Note → String
  | .missing name => "host function " ++ Text.quoted name ++ " not found"
  | .failed name message => "host function " ++ Text.quoted name ++ " failed: " ++ message
  | .odd name value =>
    "host function " ++ Text.quoted name ++ " returned non-numeric " ++ value.shown
  | .failedProperty name message => "host property " ++ Text.quoted name ++ " failed: " ++ message

/-- A number from the host, with a note when it stands in for something else. -/
structure Reply where
  value : Float
  note : Option Note := none

namespace Bridge

variable {σ : Type}

/-- Names that are never looked up on a target. -/
def isPrivate (name : String) : Bool := name.toList.head? = some '_'

/-- Asks the target, unless there is none or the name is private. -/
def askTarget (b : Bridge σ) (name : String) (s : σ) : Lookup σ × σ :=
  match b.target with
  | some target => if isPrivate name then (.absent, s) else target name s
  | none => (.absent, s)

/-- The routine that a lookup found, if it found one. -/
def asRoutine : Lookup σ → Except Fault (Option (Routine σ))
  | .found (.routine run) => .ok (some run)
  | .found (.value _) | .absent => .ok none
  | .failed failure => .error (.lookup failure)

/-- The function of a name: the table first, and the target when the table has nothing. -/
def function? (b : Bridge σ) (name : String) (s : σ) : Except Fault (Option (Routine σ)) × σ :=
  match b.functions.find? name with
  | some (.routine run) => (.ok (some run), s)
  | some (.value .nothing) | none =>
    let (found, s) := b.askTarget name s
    (asRoutine found, s)
  | some (.value _) => (.ok none, s)

def hasFunction (b : Bridge σ) (name : String) (s : σ) : Except Fault Bool × σ :=
  let (found, s) := b.function? name s
  (found.map Option.isSome, s)

def hasProperty (b : Bridge σ) (name : String) (s : σ) : Except Fault Bool × σ :=
  if (b.properties.find? name).isSome then (.ok true, s)
  else
    match b.askTarget name s with
    | (.found _, s) => (.ok true, s)
    | (.absent, s) => (.ok false, s)
    | (.failed failure, s) => (.error (.lookup failure), s)

/-- The number that a result of a function stands for. -/
def replyOf (name : String) : Except Failure Value → Except Fault Reply
  | .error (.ordinary message) => .ok { value := 0.0, note := some (.failed name message) }
  | .error (.escaping message) => .error (.escape message)
  | .ok result =>
    match result.number with
    | .error failure => .error (.conversion failure)
    | .ok (some x) => .ok { value := x }
    | .ok none =>
      match result with
      | .nothing => .ok { value := 0.0 }
      | _ => .ok { value := 0.0, note := some (.odd name result) }

/-- Calls a function. A missing function, one that fails in the ordinary way and a result that is no
number give zero. -/
def call (b : Bridge σ) (name : String) (args : List Float) (s : σ) : Except Fault Reply × σ :=
  match b.function? name s with
  | (.error fault, s) => (.error fault, s)
  | (.ok none, s) => (.ok { value := 0.0, note := some (.missing name) }, s)
  | (.ok (some run), s) =>
    let (result, s) := run args s
    (replyOf name result, s)

/-- The number that the value of a property stands for. -/
def propertyReply (name : String) : Except Failure Value → Except Fault Reply
  | .error (.ordinary message) => .ok { value := 0.0, note := some (.failedProperty name message) }
  | .error (.escaping message) => .error (.escape message)
  | .ok v =>
    match v.number with
    | .error failure => .error (.conversion failure)
    | .ok x => .ok { value := x.getD 0.0 }

/-- Reads a property: the table first, and the target when the table has nothing. A property may be
a routine without arguments. Whatever fails in the ordinary way gives zero. -/
def read (b : Bridge σ) (name : String) (s : σ) : Except Fault Reply × σ :=
  match b.properties.find? name with
  | some (.routine run) =>
    let (result, s) := run [] s
    (propertyReply name result, s)
  | some (.value v) => (propertyReply name (.ok v), s)
  | none =>
    match b.askTarget name s with
    | (.found (.value v), s) => (propertyReply name (.ok v), s)
    | (.found (.routine _), s) | (.absent, s) => (.ok { value := 0.0 }, s)
    | (.failed failure, s) => (propertyReply name (.error failure), s)

end Bridge

end Termwise.Host
