import Termwise.Host.Bridge
import Termwise.Json.Basic

/-! Services: what extensions have registered. Names are taken once; the first registration stays.
The code of an extension registers by operations and sees what comes of each. -/
namespace Termwise.Host

def interfaceVersion : Int := 1

/-- What an extension says about itself. Extensions may declare any data. -/
structure Metadata where
  name : Json
  version : Json
  requires : Json
deriving Inhabited

/-- The registered metadata, functions and properties, each in order. -/
structure Services (σ : Type) where
  metadata : List Metadata := []
  functions : Table String (Binding σ) := []
  properties : Table String (Binding σ) := []

/-- Why a registration is refused. -/
inductive Refusal where
  | functionName
  | notCallable (name : String)
  | functionTaken (name : String)
  | propertyName
  | propertyTaken (name : String)
deriving Repr, DecidableEq, Inhabited

def Refusal.message : Refusal → String
  | .functionName => "Function name must be a non-empty string"
  | .notCallable name => "Function '" ++ name ++ "' must be callable"
  | .functionTaken name => "Function '" ++ name ++ "' is already defined"
  | .propertyName => "Property name must be a non-empty string"
  | .propertyTaken name => "Property '" ++ name ++ "' is already defined"

/-- What an operation or the code of an extension raises. -/
inductive Raised where
  /-- An operation refuses. -/
  | refusal (r : Refusal)
  /-- The code of an extension complains in its own words. -/
  | complaint (message : String)
  /-- Any other exception. -/
  | failure (f : Failure)
deriving Repr, DecidableEq, Inhabited

/-- The text of an error about an extension; any other exception stays what it is. -/
def Raised.message : Raised → Except Failure String
  | .refusal r => .ok r.message
  | .complaint message => .ok message
  | .failure f => .error f

/-- One thing that an extension declares. -/
inductive Declaration (σ : Type) where
  | metadata (name version requires : Option Json)
  | function (name : Json) (impl : Binding σ)
  /-- A function that may have a name of its own, which serves when no other is given. -/
  | selfNamed (name : Option Json) (own : Except Raised Json) (impl : Binding σ)
  | property (name : Json) (value : Binding σ)

/-- The name that is given, or else the own name. -/
def givenOr (own : Except Raised Json) : Option Json → Except Raised Json
  | some given => if given.isGiven then .ok given else own
  | none => own

/-- The code that registers an extension: it declares something and goes on with what came of it,
until it is done or raises an exception. -/
inductive Script (σ : Type) where
  | done
  | raise (e : Raised)
  | declare (d : Declaration σ) (next : Except Raised Unit → Script σ)

/-- The code that makes declarations in order and handles nothing. -/
def Script.ofList {σ : Type} : List (Declaration σ) → Script σ
  | [] => .done
  | d :: rest =>
    .declare d fun
      | .ok _ => ofList rest
      | .error e => .raise e

namespace Services

variable {σ : Type}

def bridge (s : Services σ) (target : Option (Target σ)) : Bridge σ :=
  ⟨s.functions, s.properties, target⟩

/-- Adds metadata; what is not declared has a default, the name that of the extension. -/
def addMetadata (s : Services σ) (extension : String) (name version requires : Option Json) :
    Services σ :=
  let declared := name.getD (.string "")
  let entry : Metadata :=
    { name := if declared.isGiven then declared else .string extension
      version := version.getD (.string "0.0.0")
      requires := requires.getD (.int interfaceVersion) }
  { s with metadata := s.metadata ++ [entry] }

def addFunction (s : Services σ) (name : Json) (impl : Binding σ) : Except Refusal (Services σ) :=
  match name with
  | .string text =>
    if text = "" then .error .functionName
    else
      match impl with
      | .value _ => .error (.notCallable text)
      | .routine _ =>
        if (s.functions.find? text).isSome then .error (.functionTaken text)
        else .ok { s with functions := s.functions ++ [(text, impl)] }
  | _ => .error .functionName

def addProperty (s : Services σ) (name : Json) (value : Binding σ) : Except Refusal (Services σ) :=
  match name with
  | .string text =>
    if text = "" then .error .propertyName
    else if (s.properties.find? text).isSome then .error (.propertyTaken text)
    else .ok { s with properties := s.properties ++ [(text, value)] }
  | _ => .error .propertyName

def declare (s : Services σ) (extension : String) : Declaration σ → Except Raised (Services σ)
  | .metadata name version requires => .ok (s.addMetadata extension name version requires)
  | .function name impl => (s.addFunction name impl).mapError .refusal
  | .selfNamed name own impl => do (s.addFunction (← givenOr own name) impl).mapError .refusal
  | .property name value => (s.addProperty name value).mapError .refusal

/-- Runs the code of an extension. A declaration that fails leaves the services as they are. -/
def runScript (extension : String) : Script σ → Services σ → Except Raised Unit × Services σ
  | .done, s => (.ok (), s)
  | .raise e, s => (.error e, s)
  | .declare d next, s =>
    match s.declare extension d with
    | .ok s => runScript extension (next (.ok ())) s
    | .error e => runScript extension (next (.error e)) s

end Services

end Termwise.Host
