import Termwise.Text.Blank

/-! Paths with slashes. A path is absolute when it starts with a slash; exactly two slashes in front
are kept apart from one. -/
namespace Termwise.Path

/-- The parts between the slashes, empty ones included. -/
def parts (path : List Char) : List (List Char) := Text.splitAt '/' path

def isAbsolute (path : String) : Bool := path.toList.head? = some '/'

/-- A path seen from a directory. -/
def join (directory path : String) : String :=
  if isAbsolute path then path
  else if directory = "" ∨ directory.toList.getLast? = some '/' then directory ++ path
  else directory ++ "/" ++ path

/-- Resolves parts that stand for the same directory and for the one above; `done` is newest
first. -/
def reduce (absolute : Bool) : List (List Char) → List (List Char) → List (List Char)
  | done, [] => done.reverse
  | done, part :: rest =>
    if part = [] ∨ part = ['.'] then reduce absolute done rest
    else if part ≠ ['.', '.'] then reduce absolute (part :: done) rest
    else
      match done with
      | [] => if absolute then reduce absolute [] rest else reduce absolute [part] rest
      | above :: outer =>
        if above = ['.', '.'] then reduce absolute (part :: done) rest
        else reduce absolute outer rest

/-- The slashes in front of an absolute path. -/
def root (path : List Char) : List Char :=
  match path with
  | '/' :: '/' :: '/' :: _ => ['/']
  | '/' :: '/' :: _ => ['/', '/']
  | '/' :: _ => ['/']
  | _ => []

/-- A path without needless parts. -/
def normalize (path : String) : String :=
  let front := root path.toList
  let body := front ++ Text.join ['/'] (reduce (front ≠ []) [] (parts path.toList))
  String.ofList (if body = [] then ['.'] else body)

/-- A path from the root, seen from a directory. -/
def absolute (directory path : String) : String := normalize (join directory path)

/-- The directory that holds a normalized absolute path. -/
def parent (path : String) : String :=
  let cs := path.toList
  let head := (cs.reverse.dropWhile (· ≠ '/')).reverse
  let bare := (head.reverse.dropWhile (· = '/')).reverse
  String.ofList (if bare = [] then head else bare)

def baseName (path : String) : List Char := (path.toList.reverse.takeWhile (· ≠ '/')).reverse

/-- A file name without its last suffix. Dots in front belong to the name. -/
def stem (name : List Char) : List Char :=
  let dots := name.takeWhile (· = '.')
  let rest := name.dropWhile (· = '.')
  if '.' ∈ rest then dots ++ ((rest.reverse.dropWhile (· ≠ '.')).drop 1).reverse else name

def endsWith (suffix : String) (name : String) : Bool :=
  suffix.toList.reverse.isPrefixOf name.toList.reverse

/-- Whether a name ends with a suffix in any case. -/
def endsWithAnyCase (suffix : String) (name : String) : Bool :=
  suffix.toList.reverse.isPrefixOf (name.toList.map Char.toLower).reverse

end Termwise.Path
