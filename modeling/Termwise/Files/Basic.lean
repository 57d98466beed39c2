import Termwise.Files.Path
import Termwise.Host.Services
import Termwise.Text.Utf8

/-! A tree of files as a value. Directories exist where they are listed and above everything that
exists. -/
namespace Termwise

/-- How an extension can be entered. -/
inductive Entrance (σ : Type) where
  /-- Its entry point is this code. -/
  | registers (script : Host.Script σ)
  /-- It has no entry point. -/
  | missing
  /-- Its entry point cannot be called. -/
  | notCallable

/-- What the file of an extension defines when it is executed. -/
structure Extension (σ : Type) where
  /-- The interface version it asks for. -/
  interface : Option Json := none
  /-- The name it gives itself. -/
  name : Option Json := none
  entrance : Entrance σ := .missing

/-- What the file of an extension holds: text, compiled code, or a library of the machine. -/
inductive Format where
  | source
  | compiled
  | library
deriving Repr, DecidableEq, Inhabited

/-- What stands at a path. -/
inductive Node where
  | file (bytes : List UInt8)
  | directory

abbrev Location := List (List Char)

/-- A tree of files and the working directory. -/
structure Files (σ : Type) where
  here : String
  nodes : List (Location × Node)
  /-- What comes of executing the file at a path and asking it for what it defines. It may raise an
  exception. -/
  execute : String → Format → List UInt8 → Except Host.Raised (Extension σ)

/-- Why a file cannot be read. -/
inductive ReadError where
  | missing
  | notDirectory
  | isDirectory
  | nameTooLong
  /-- The path holds the character zero, which no path has. -/
  | notPath
  | notText
deriving Repr, DecidableEq, Inhabited

def ReadError.message (path : String) : ReadError → String
  | .missing => "[Errno 2] No such file or directory: " ++ Text.quoted path
  | .notDirectory => "[Errno 20] Not a directory: " ++ Text.quoted path
  | .isDirectory => "[Errno 21] Is a directory: " ++ Text.quoted path
  | .nameTooLong => "[Errno 36] File name too long: " ++ Text.quoted path
  | .notPath => "no path: " ++ Text.quoted path
  | .notText => "not UTF-8: " ++ Text.quoted path

namespace Files

variable {σ : Type}

def byteLength (cs : List Char) : Nat := (Text.Utf8.encode cs).length

def maxName : Nat := 255

def maxPath : Nat := 4095

/-- The parts of a path that name something. -/
def location (path : String) : Location := (Path.parts path.toList).filter (· ≠ [])

def at? (files : Files σ) (place : Location) : Option Node :=
  match files.nodes.find? fun (other, _) => other = place with
  | some (_, node) => some node
  | none =>
    if place.isPrefixOf (location files.here) || files.nodes.any fun (other, _) =>
      place.isPrefixOf other then
      some .directory
    else none

def follow (files : Files σ) : Location → List (List Char) → Except ReadError Node
  | place, [] =>
    match files.at? place with
    | some node => .ok node
    | none => .error .missing
  | place, part :: rest =>
    match files.at? place with
    | none => .error .missing
    | some .directory =>
      if part = [] ∨ part = ['.'] then follow files place rest
      else if part = ['.', '.'] then follow files place.dropLast rest
      else if maxName < byteLength part then .error .nameTooLong
      else follow files (place ++ [part]) rest
    | some _ => .error .notDirectory

/-- What stands at a path, seen from the working directory. -/
def find (files : Files σ) (path : String) : Except ReadError Node :=
  if '\x00' ∈ path.toList then .error .notPath
  else if path = "" then .error .missing
  else if maxPath < byteLength path.toList then .error .nameTooLong
  else files.follow [] (Path.parts (Path.join files.here path).toList)

/-- Whether something stands at a path. -/
def holds (files : Files σ) (path : String) : Bool :=
  match files.find path with
  | .ok _ => true
  | .error _ => false

/-- The text of a file, with every line break read as a line feed. -/
def readText (files : Files σ) (path : String) : Except ReadError (List Char) := do
  match ← files.find path with
  | .directory => throw .isDirectory
  | .file bytes =>
    match Text.Utf8.decode? bytes with
    | some text => return Text.unifyBreaks text
    | none => throw .notText

end Files

end Termwise
