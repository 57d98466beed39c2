import Termwise.Files.Basic
import Termwise.Machine.State

/-! Loading extensions. A path may name an extension file or a list of such paths; all paths are
expanded before the first file is loaded, and what the code of a file has declared before it fails
stays. -/
namespace Termwise.Loading

def listSuffix : String := ".tlx"

/-- The suffixes of extension files, with what the files hold. -/
def formats : List (String × Format) := [(".so", .library), (".py", .source), (".pyc", .compiled)]

/-- What a file at a path holds, if it can be the file of an extension. -/
def format? (path : String) : Option Format :=
  (formats.find? fun (suffix, _) => Path.endsWith suffix path).map Prod.snd

/-- Why loading fails. -/
inductive LoadError where
  | listMissing (path : String)
  | unreadable (path : String) (cause : ReadError)
  | missing (path : String)
  | notLoadable (path : String)
  /-- Executing the file raises an exception. -/
  | failed (path : String) (raised : Host.Raised)
  | interface (path : String) (asked : Json)
  | noEntrance (path : String)
  /-- The code that registers the extension raises an exception. -/
  | stopped (raised : Host.Raised)

/-- What ends loading and is no error about an extension. -/
inductive Break where
  | read (cause : ReadError)
  | failure (f : Host.Failure)
deriving Repr, DecidableEq, Inhabited

/-- The text of an error about an extension, or what ended loading otherwise. -/
def LoadError.message : LoadError → Except Break String
  | .listMissing path => .ok (listSuffix ++ " file not found: " ++ path)
  | .unreadable _ cause => .error (.read cause)
  | .missing path => .ok ("Extension not found: " ++ path)
  | .notLoadable path => .ok ("Failed to load extension module: " ++ path)
  | .failed _ raised | .stopped raised => raised.message.mapError .failure
  | .interface path asked =>
    .ok ("Extension " ++ path ++ " requires API " ++ asked.spelled ++ ", host supports "
      ++ toString Host.interfaceVersion)
  | .noEntrance path => .ok ("Extension " ++ path ++ " must define callable termlang_register(ext)")

variable {σ : Type}

/-- The paths of a list file: one on each line, seen from the directory of the list, with
comments. -/
def listPaths (files : Files σ) (path : String) : Except LoadError (List String) :=
  if files.holds path then
    match files.readText path with
    | .error cause => .error (.unreadable path cause)
    | .ok text =>
      let base := Path.parent (Path.absolute files.here path)
      let entries := (Text.lines text).map fun line => Text.trim (Text.before '#' line)
      .ok ((entries.filter (· ≠ [])).map fun entry =>
        let entry := String.ofList entry
        if Path.isAbsolute entry then entry else Path.absolute base entry)
  else .error (.listMissing path)

/-- The extension files that paths stand for, from the root. -/
def gather (files : Files σ) (paths : List String) : Except LoadError (List String) := do
  let expanded ← paths.mapM fun path =>
    if Path.endsWithAnyCase listSuffix path then listPaths files path else .ok [path]
  return expanded.flatten.map (Path.absolute files.here)

/-- What is raised where a directory is to be used as a library. -/
def noLibrary (path : String) : Host.Raised :=
  .failure (.ordinary (path ++ ": cannot read file data: Is a directory"))

/-- The extension at a path. -/
def extensionAt (files : Files σ) (path : String) : Except LoadError (Extension σ) :=
  match files.find path with
  | .error _ => .error (.missing path)
  | .ok node =>
    match format? path, node with
    | none, _ => .error (.notLoadable path)
    | some .library, .directory => .error (.failed path (noLibrary path))
    | some _, .directory => .error (.unreadable path .isDirectory)
    | some format, .file bytes => (files.execute path format bytes).mapError (.failed path)

/-- Whether a declared version is the version of the interface. -/
def isSupported : Json → Bool
  | .int i => i = Host.interfaceVersion
  | .float x => x == 1.0
  | .bool b => b
  | _ => false

/-- The code that registers an extension, if the extension fits the interface. -/
def entryCode (path : String) (e : Extension σ) : Except LoadError (Host.Script σ) :=
  let asked := e.interface.getD (.int Host.interfaceVersion)
  if isSupported asked then
    match e.entrance with
    | .registers script => .ok script
    | .missing | .notCallable => .error (.noEntrance path)
  else .error (.interface path asked)

/-- The name of an extension: the one it gives itself, or that of its file. -/
def extensionName (path : String) (e : Extension σ) : String :=
  match e.name with
  | some name => name.spelled
  | none => String.ofList (Path.stem (Path.baseName path))

def loadFile (files : Files σ) (path : String) (services : Host.Services σ) :
    Except LoadError Notice × Host.Services σ :=
  match extensionAt files path >>= fun e => (entryCode path e).map fun script => (e, script) with
  | .error e => (.error e, services)
  | .ok (e, script) =>
    let name := extensionName path e
    match Host.Services.runScript name script services with
    | (.ok _, services) => (.ok (.loaded name path), services)
    | (.error raised, services) => (.error (.stopped raised), services)

/-- The files as they are found before each extension is loaded. The code of one may change them,
and also what comes of executing the next one. -/
abbrev Disk (σ : Type) := Nat → Files σ

namespace Disk

/-- Files that nothing changes. -/
def still (files : Files σ) : Disk σ := fun _ => files

/-- The files from the time on when so many extensions have been loaded. -/
def after (disk : Disk σ) (count : Nat) : Disk σ := fun later => disk (count + later)

end Disk

/-- Loads extension files in order up to the first that fails; notices are oldest first. -/
def loadFiles : Disk σ → List String → Host.Services σ →
    Except LoadError Unit × List Notice × Host.Services σ
  | _, [], services => (.ok (), [], services)
  | disk, path :: rest, services =>
    match loadFile (disk 0) path services with
    | (.error e, services) => (.error e, [], services)
    | (.ok notice, services) =>
      let (outcome, notices, services) := loadFiles (disk.after 1) rest services
      (outcome, notice :: notices, services)

def load (disk : Disk σ) (paths : List String) (services : Host.Services σ) :
    Except LoadError Unit × List Notice × Host.Services σ :=
  match gather (disk 0) paths with
  | .error e => (.error e, [], services)
  | .ok paths => loadFiles disk paths services

end Termwise.Loading
