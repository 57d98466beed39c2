import Termwise.Files.Loading

/-! Loading extensions. Whether it succeeds or not, the names that were bound stay bound as they
were and in their order, and a new name is bound by the first registration that succeeds. A failure
is located exactly: it leaves what the files before it made of the services, and what the code of
its own file had declared by then, whatever that code made of declarations that failed. -/
namespace Termwise

namespace Table

variable {κ β : Type} {old mid new added more : Table κ β}

/-- The entries of a table, then new ones under names of their own. -/
structure Grows (old new added : Table κ β) : Prop where
  entries : new = old ++ added
  nodup : old.keys.Nodup → new.keys.Nodup

theorem Grows.refl (table : Table κ β) : table.Grows table [] := ⟨(List.append_nil _).symm, id⟩

theorem Grows.trans (first : old.Grows mid added) (second : mid.Grows new more) :
    old.Grows new (added ++ more) where
  entries := by rw [second.entries, first.entries, List.append_assoc]
  nodup := fun distinct => second.nodup (first.nodup distinct)

theorem Grows.entry {key : κ} {value : β} (free : key ∉ old.keys) :
    old.Grows (old ++ [(key, value)]) [(key, value)] where
  entries := rfl
  nodup := by
    intro distinct
    rw [keys, List.map_append, List.nodup_append]
    refine ⟨distinct, by simp, ?_⟩
    rintro other there _ here rfl
    obtain rfl := List.mem_singleton.mp here
    exact free there

variable [DecidableEq κ]

theorem find?_eq_none_iff {table : Table κ β} {key : κ} :
    table.find? key = none ↔ key ∉ table.keys := by
  simp only [find?, keys, Option.map_eq_none_iff, List.find?_eq_none, decide_eq_true_eq,
    List.mem_map, not_exists, not_and]

theorem find?_append (table : Table κ β) (key : κ) :
    Table.find? (table ++ added) key = (table.find? key).or (added.find? key) := by
  rw [find?, List.find?_append, Option.map_or]
  rfl

/-- What is bound stays bound and in its order, no name is bound twice, and the first of the
registered entries of a new name is the one that counts. -/
structure FirstWins (old new registered : Table κ β) : Prop where
  kept : ∀ key ∈ old.keys, new.find? key = old.find? key
  order : old.keys <+: new.keys
  nodup : old.keys.Nodup → new.keys.Nodup
  first : ∀ key, key ∉ old.keys → new.find? key = registered.find? key

theorem Grows.firstWins (grows : old.Grows new added) : old.FirstWins new added where
  kept := by
    intro key bound
    rw [grows.entries, find?_append, Option.or_of_isSome]
    exact Option.isSome_iff_ne_none.mpr (mt find?_eq_none_iff.mp (not_not_intro bound))
  order := by
    rw [grows.entries, keys, keys, List.map_append]
    exact List.prefix_append _ _
  nodup := grows.nodup
  first := by
    intro key free
    rw [grows.entries, find?_append, find?_eq_none_iff.mpr free, Option.none_or]

end Table

namespace Host

variable {σ : Type}

/-- The name and the implementation of a declared function. -/
def Declaration.function? : Declaration σ → Option (String × Binding σ)
  | .function (.string name) impl => some (name, impl)
  | .selfNamed name own impl =>
    match givenOr own name with
    | .ok (.string name) => some (name, impl)
    | _ => none
  | _ => none

/-- The name and the value of a declared property. -/
def Declaration.property? : Declaration σ → Option (String × Binding σ)
  | .property (.string name) value => some (name, value)
  | _ => none

namespace Services

variable {s t u : Services σ} {extension : String}

/-- The services after declarations that are carried out. -/
structure Grows (s t : Services σ) (declared : List (Declaration σ)) : Prop where
  functions : s.functions.Grows t.functions (declared.filterMap Declaration.function?)
  properties : s.properties.Grows t.properties (declared.filterMap Declaration.property?)

theorem Grows.refl (s : Services σ) : s.Grows s [] := ⟨.refl _, .refl _⟩

theorem Grows.trans {first second : List (Declaration σ)} (grows : s.Grows t first)
    (more : t.Grows u second) : s.Grows u (first ++ second) where
  functions := by
    rw [List.filterMap_append]
    exact grows.functions.trans more.functions
  properties := by
    rw [List.filterMap_append]
    exact grows.properties.trans more.properties

theorem addFunction_ok {name : Json} {impl : Binding σ} (added : s.addFunction name impl = .ok t) :
    ∃ text, name = .string text ∧ text ∉ s.functions.keys ∧
      t = { s with functions := s.functions ++ [(text, impl)] } := by
  unfold addFunction at added
  split at added
  case h_2 => cases added
  case h_1 text =>
    split at added
    case isTrue => cases added
    split at added
    case h_1 => cases added
    split at added
    case isTrue => cases added
    case isFalse free =>
      cases added
      exact ⟨text, rfl, Table.find?_eq_none_iff.mp (Option.not_isSome_iff_eq_none.mp free), rfl⟩

theorem addProperty_ok {name : Json} {value : Binding σ}
    (added : s.addProperty name value = .ok t) :
    ∃ text, name = .string text ∧ text ∉ s.properties.keys ∧
      t = { s with properties := s.properties ++ [(text, value)] } := by
  unfold addProperty at added
  split at added
  case h_2 => cases added
  case h_1 text =>
    split at added
    case isTrue => cases added
    split at added
    case isTrue => cases added
    case isFalse free =>
      cases added
      exact ⟨text, rfl, Table.find?_eq_none_iff.mp (Option.not_isSome_iff_eq_none.mp free), rfl⟩

theorem ok_of_mapError {α ε δ : Type} {c : Except ε α} {f : ε → δ} {a : α}
    (given : c.mapError f = .ok a) : c = .ok a := by
  cases c with
  | ok b => exact congrArg Except.ok (Except.ok.inj given)
  | error e => cases given

/-- A declaration that is carried out adds its own entry, under a name that was free. -/
theorem declare_grows {d : Declaration σ} (declared : s.declare extension d = .ok t) :
    s.Grows t [d] := by
  cases d with
  | metadata name version requires =>
    cases declared
    exact ⟨.refl _, .refl _⟩
  | function name impl =>
    obtain ⟨text, rfl, free, rfl⟩ := addFunction_ok (ok_of_mapError declared)
    exact ⟨.entry free, .refl _⟩
  | selfNamed name own impl =>
    cases chosen : givenOr own name with
    | error e =>
      rw [declare, chosen] at declared
      cases declared
    | ok chosenName =>
      rw [declare, chosen] at declared
      obtain ⟨text, rfl, free, rfl⟩ := addFunction_ok (ok_of_mapError declared)
      refine ⟨?_, .refl _⟩
      have entry : Declaration.function? (.selfNamed name own impl) = some (text, impl) := by
        rw [Declaration.function?, chosen]
      rw [List.filterMap_cons_some entry]
      exact .entry free
  | property name value =>
    obtain ⟨text, rfl, free, rfl⟩ := addProperty_ok (ok_of_mapError declared)
    exact ⟨.refl _, .entry free⟩

/-- The declarations of the code of an extension that are carried out. -/
def carried (extension : String) : Script σ → Services σ → List (Declaration σ)
  | .done, _ | .raise _, _ => []
  | .declare d next, s =>
    match s.declare extension d with
    | .ok s => d :: carried extension (next (.ok ())) s
    | .error e => carried extension (next (.error e)) s

theorem runScript_grows (extension : String) (script : Script σ) (s : Services σ) :
    s.Grows (runScript extension script s).2 (carried extension script s) := by
  induction script generalizing s with
  | done => exact .refl s
  | raise e => exact .refl s
  | declare d next ih =>
    rw [runScript, carried]
    cases declared : s.declare extension d with
    | ok after => exact (declare_grows declared).trans (ih (.ok ()) after)
    | error e => exact ih (.error e) s

/-- The effects of declarations one after another, none of which may fail. -/
def declareAll (extension : String) (list : List (Declaration σ)) (s : Services σ) :
    Except Raised (Services σ) :=
  list.foldlM (fun s d => s.declare extension d) s

/-- The code comes to the rest of it by the declarations that are listed. Those that fail are not
listed: they leave the services as they are, and the code goes on with the exception. -/
inductive Follows (extension : String) :
    Script σ → Services σ → List (Declaration σ) → Script σ → Services σ → Prop
  | here {script : Script σ} {s : Services σ} : Follows extension script s [] script s
  | carried {d : Declaration σ} {next : Except Raised Unit → Script σ} {done : List (Declaration σ)}
      {rest : Script σ} {s t u : Services σ} (declared : s.declare extension d = .ok u)
      (later : Follows extension (next (.ok ())) u done rest t) :
      Follows extension (.declare d next) s (d :: done) rest t
  | failed {d : Declaration σ} {next : Except Raised Unit → Script σ} {done : List (Declaration σ)}
      {rest : Script σ} {s t : Services σ} {e : Raised} (refused : s.declare extension d = .error e)
      (later : Follows extension (next (.error e)) s done rest t) :
      Follows extension (.declare d next) s done rest t

variable {script rest : Script σ} {done : List (Declaration σ)} {e : Raised}

/-- What the code has done to the services are the effects of the declarations that are listed. -/
theorem Follows.declareAll (follows : Follows extension script s done rest t) :
    declareAll extension done s = .ok t := by
  induction follows with
  | here => rfl
  | carried declared _ ih =>
    rw [Services.declareAll, List.foldlM_cons, declared]
    exact ih
  | failed _ _ ih => exact ih

theorem Follows.trans {more : List (Declaration σ)} {last : Script σ}
    (follows : Follows extension script s done rest t)
    (later : Follows extension rest t more last u) :
    Follows extension script s (done ++ more) last u := by
  induction follows with
  | here => exact later
  | carried declared _ ih => exact .carried declared (ih later)
  | failed refused _ ih => exact .failed refused (ih later)

theorem Follows.runScript (follows : Follows extension script s done rest t) :
    runScript extension script s = runScript extension rest t := by
  induction follows with
  | here => rfl
  | carried declared _ ih =>
    rw [Services.runScript, declared]
    exact ih
  | failed refused _ ih =>
    rw [Services.runScript, refused]
    exact ih

/-- The code fails where it raises an exception, with the effects of its declarations up to
there. -/
theorem runScript_error_iff :
    runScript extension script s = (.error e, t) ↔
      ∃ done, Follows extension script s done (.raise e) t := by
  constructor
  · intro failed
    induction script generalizing s with
    | done => cases failed
    | raise first =>
      cases failed
      exact ⟨[], .here⟩
    | declare d next ih =>
      rw [runScript] at failed
      cases declared : s.declare extension d with
      | ok after =>
        rw [declared] at failed
        obtain ⟨done, follows⟩ := ih _ failed
        exact ⟨d :: done, .carried declared follows⟩
      | error first =>
        rw [declared] at failed
        obtain ⟨done, follows⟩ := ih _ failed
        exact ⟨done, .failed declared follows⟩
  · rintro ⟨done, follows⟩
    rw [follows.runScript]
    rfl

end Services

end Host

namespace Loading

open Host (Services Declaration Script Raised)

variable {σ : Type} {files : Files σ} {path : String} {s t : Services σ} {e : LoadError}
  {notices : List Notice}

/-- The name of the extension at a path and the code that registers it. -/
def opened (files : Files σ) (path : String) : Except LoadError (String × Script σ) :=
  match extensionAt files path with
  | .error e => .error e
  | .ok e => (entryCode path e).map (extensionName path e, ·)

theorem loadFile_eq (files : Files σ) (path : String) (s : Services σ) :
    loadFile files path s =
      match opened files path with
      | .error e => (.error e, s)
      | .ok (name, script) =>
        match Services.runScript name script s with
        | (.ok _, s) => (.ok (.loaded name path), s)
        | (.error raised, s) => (.error (.stopped raised), s) := by
  rw [loadFile, opened]
  cases extensionAt files path with
  | error e => rfl
  | ok e =>
    dsimp only [bind, Except.bind]
    cases entryCode path e <;> rfl

/-- Why an extension does not come to register anything: it is not there, it cannot be loaded,
executing it fails, it asks for another interface, or it has no entry point that can be called. -/
inductive Closed (files : Files σ) (path : String) : LoadError → Prop
  | missing {cause : ReadError} : files.find path = .error cause → Closed files path (.missing path)
  | notLoadable {node : Node} : files.find path = .ok node → format? path = none →
      Closed files path (.notLoadable path)
  | directory {format : Format} : files.find path = .ok .directory → format? path = some format →
      format ≠ .library → Closed files path (.unreadable path .isDirectory)
  | noLibrary : files.find path = .ok .directory → format? path = some .library →
      Closed files path (.failed path (noLibrary path))
  | failed {format : Format} {bytes : List UInt8} {raised : Raised} :
      files.find path = .ok (.file bytes) →
      format? path = some format → files.execute path format bytes = .error raised →
      Closed files path (.failed path raised)
  | interface {extension : Extension σ} {asked : Json} : extensionAt files path = .ok extension →
      extension.interface = some asked → isSupported asked = false →
      Closed files path (.interface path asked)
  | noEntrance {extension : Extension σ} : extensionAt files path = .ok extension →
      isSupported (extension.interface.getD (.int Host.interfaceVersion)) = true →
      (∀ script, extension.entrance ≠ .registers script) → Closed files path (.noEntrance path)

theorem closed_of_extensionAt (failed : extensionAt files path = .error e) :
    Closed files path e := by
  revert failed
  fun_cases extensionAt files path with
  | case1 cause found =>
    rintro ⟨⟩
    exact .missing found
  | case2 node found unknown =>
    rintro ⟨⟩
    exact .notLoadable found unknown
  | case3 library found =>
    rintro ⟨⟩
    exact .noLibrary found library
  | case4 format other known found =>
    rintro ⟨⟩
    exact .directory found known other
  | case5 format bytes known found =>
    intro failed
    cases executed : files.execute path format bytes with
    | ok extension =>
      rw [executed] at failed
      cases failed
    | error raised =>
      rw [executed] at failed
      cases failed
      exact .failed found known executed

theorem closed_of_entryCode {extension : Extension σ}
    (found : extensionAt files path = .ok extension)
    (failed : entryCode path extension = .error e) : Closed files path e := by
  revert failed
  fun_cases entryCode path extension with
  | case1 => exact nofun
  | case2 asked supported none | case3 asked supported none =>
    rintro ⟨⟩
    refine .noEntrance found supported ?_
    rw [none]
    exact nofun
  | case4 asked other =>
    rintro ⟨⟩
    -- Where no version is asked for, the one of the interface counts as asked for.
    cases given : extension.interface with
    | none =>
      simp only [asked, given, Option.getD_none] at other
      exact absurd rfl other
    | some version =>
      simp only [asked, given, Option.getD_some] at other ⊢
      exact .interface found given (Bool.not_eq_true _ ▸ other)

theorem opened_error_iff : opened files path = .error e ↔ Closed files path e := by
  constructor
  · intro failed
    unfold opened at failed
    split at failed
    next found =>
      cases failed
      exact closed_of_extensionAt found
    next extension found =>
      cases unentered : entryCode path extension with
      | error e =>
        rw [unentered] at failed
        cases failed
        exact closed_of_entryCode found unentered
      | ok script =>
        rw [unentered] at failed
        cases failed
  · intro closed
    cases closed with
    | missing found => simp [opened, extensionAt, found]
    | notLoadable found unknown => simp [opened, extensionAt, found, unknown]
    | directory found known other => cases ‹Format› <;> simp_all [opened, extensionAt]
    | noLibrary found library => simp [opened, extensionAt, found, library]
    | failed found known raised =>
      simp only [opened, extensionAt, found, known, raised]
      rfl
    | interface found asked other => simp [opened, found, entryCode, asked, other, Except.map]
    | noEntrance found supported none =>
      rename_i extension
      cases entrance : extension.entrance <;> simp_all [opened, entryCode, Except.map]

/-- A file is not loaded, and the services are these. -/
inductive Rejects (files : Files σ) (path : String) (s : Services σ) : LoadError → Services σ → Prop
  /-- It does not come to register anything, and the services stay as they are. -/
  | closed {e : LoadError} : Closed files path e → Rejects files path s e s
  /-- Its code raises an exception; the declarations that are listed are what it has done by
  then. -/
  | stopped {name : String} {script : Script σ} {done : List (Declaration σ)} {raised : Raised}
      {t : Services σ} : opened files path = .ok (name, script) →
      Services.Follows name script s done (.raise raised) t →
      Services.declareAll name done s = .ok t → Rejects files path s (.stopped raised) t

/-- A declaration fails and the code does not handle it: what was declared before is all that has
been done. -/
theorem Rejects.of_unhandled {name : String} {script : Script σ} {done : List (Declaration σ)}
    {d : Declaration σ} {next : Except Raised Unit → Script σ} {raised : Raised}
    (entered : opened files path = .ok (name, script))
    (begun : Services.Follows name script s done (.declare d next) t)
    (refused : t.declare name d = .error raised)
    (unhandled : next (.error raised) = .raise raised) :
    Rejects files path s (.stopped raised) t := by
  have ended : Services.Follows name script s done (.raise raised) t := by
    rw [← unhandled, ← List.append_nil done]
    exact begun.trans (.failed refused .here)
  exact .stopped entered ended ended.declareAll

theorem loadFile_error_iff : loadFile files path s = (.error e, t) ↔ Rejects files path s e t := by
  rw [loadFile_eq]
  constructor
  · intro failed
    split at failed
    next closed =>
      cases failed
      exact .closed (opened_error_iff.mp closed)
    next name script entered =>
      split at failed
      next => cases failed
      next raised _ stopped =>
        cases failed
        obtain ⟨done, follows⟩ := Services.runScript_error_iff.mp stopped
        exact .stopped entered follows follows.declareAll
  · intro rejects
    cases rejects with
    | closed closed => rw [opened_error_iff.mpr closed]
    | stopped entered follows =>
      rw [entered]
      dsimp only
      rw [Services.runScript_error_iff.mpr ⟨_, follows⟩]

theorem Disk.after_zero (disk : Disk σ) : disk.after 0 = disk := by
  funext later
  rw [Disk.after, Nat.zero_add]

theorem Disk.after_after (disk : Disk σ) (first more : Nat) :
    (disk.after first).after more = disk.after (first + more) := by
  funext later
  simp only [Disk.after, Nat.add_assoc]

section Files

variable {disk : Disk σ}

theorem loadFiles_cons {notice : Notice} (loaded : loadFile (disk 0) path s = (.ok notice, t))
    (rest : List String) :
    loadFiles disk (path :: rest) s =
      ((loadFiles (disk.after 1) rest t).1, notice :: (loadFiles (disk.after 1) rest t).2.1,
        (loadFiles (disk.after 1) rest t).2.2) := by
  rw [loadFiles, loaded]

theorem loadFiles_append {done : List String} {reached : Services σ}
    (begun : loadFiles disk done s = (.ok (), notices, reached)) (rest : List String) :
    loadFiles disk (done ++ rest) s =
      let more := loadFiles (disk.after done.length) rest reached
      (more.1, notices ++ more.2.1, more.2.2) := by
  induction done generalizing disk s notices with
  | nil =>
    cases begun
    rw [List.length_nil, Disk.after_zero]
    rfl
  | cons path done ih =>
    rcases first : loadFile (disk 0) path s with ⟨failure | notice, next⟩
    · rw [loadFiles, first] at begun
      cases begun
    · rw [loadFiles_cons first] at begun
      rcases others : loadFiles (disk.after 1) done next with ⟨outcome, later, after⟩
      rw [others] at begun
      cases begun
      rw [List.cons_append, loadFiles_cons first, ih others, Disk.after_after, Nat.add_comm 1]
      rfl

/-- Files fail at the first that is rejected, with the services that those before it leave. -/
theorem loadFiles_error_iff {paths : List String} :
    loadFiles disk paths s = (.error e, notices, t) ↔
      ∃ done path rest reached, paths = done ++ path :: rest ∧
        loadFiles disk done s = (.ok (), notices, reached) ∧
        Rejects (disk done.length) path reached e t := by
  constructor
  · intro failed
    induction paths generalizing disk s notices with
    | nil => cases failed
    | cons path rest ih =>
      rcases first : loadFile (disk 0) path s with ⟨failure | notice, next⟩
      · rw [loadFiles, first] at failed
        cases failed
        exact ⟨[], path, rest, s, rfl, rfl, loadFile_error_iff.mp first⟩
      · rw [loadFiles_cons first] at failed
        rcases others : loadFiles (disk.after 1) rest next with ⟨outcome, later, after⟩
        rw [others] at failed
        cases failed
        obtain ⟨done, stopped, more, reached, rfl, begun, rejects⟩ := ih others
        refine ⟨path :: done, stopped, more, reached, rfl, ?_, ?_⟩
        · rw [loadFiles_cons first, begun]
        · rw [List.length_cons, Nat.add_comm]
          exact rejects
  · rintro ⟨done, path, rest, reached, rfl, begun, rejects⟩
    rw [loadFiles_append begun, loadFiles,
      show loadFile (disk.after done.length 0) path reached = (.error e, t) from
        loadFile_error_iff.mpr rejects]
    dsimp only
    rw [List.append_nil]

end Files

/-- The declarations of a file that are carried out. -/
def carriedFile (files : Files σ) (path : String) (s : Services σ) : List (Declaration σ) :=
  match opened files path with
  | .error _ => []
  | .ok (name, script) => Services.carried name script s

/-- The declarations that are carried out, up to the first file that fails. -/
def carriedFiles : Disk σ → List String → Services σ → List (Declaration σ)
  | _, [], _ => []
  | disk, path :: rest, s =>
    carriedFile (disk 0) path s ++
      match loadFile (disk 0) path s with
      | (.ok _, s) => carriedFiles (disk.after 1) rest s
      | (.error _, _) => []

/-- The declarations that loading carries out, in order. -/
def carried (disk : Disk σ) (paths : List String) (s : Services σ) : List (Declaration σ) :=
  match gather (disk 0) paths with
  | .error _ => []
  | .ok paths => carriedFiles disk paths s

theorem loadFile_grows (files : Files σ) (path : String) (s : Services σ) :
    s.Grows (loadFile files path s).2 (carriedFile files path s) := by
  rw [loadFile_eq, carriedFile]
  cases opened files path with
  | error e => exact .refl s
  | ok pair =>
    have grows := Services.runScript_grows pair.1 pair.2 s
    dsimp only
    split <;> simpa only [*] using grows

theorem loadFiles_grows (disk : Disk σ) (paths : List String) (s : Services σ) :
    s.Grows (loadFiles disk paths s).2.2 (carriedFiles disk paths s) := by
  induction paths generalizing disk s with
  | nil => exact .refl s
  | cons path rest ih =>
    have grows := loadFile_grows (disk 0) path s
    rw [loadFiles, carriedFiles]
    rcases first : loadFile (disk 0) path s with ⟨failure | notice, next⟩
    · rw [first] at grows
      rw [List.append_nil]
      exact grows
    · rw [first] at grows
      exact grows.trans (ih (disk.after 1) next)

theorem load_grows (disk : Disk σ) (paths : List String) (s : Services σ) :
    s.Grows (load disk paths s).2.2 (carried disk paths s) := by
  rw [load, carried]
  cases gather (disk 0) paths with
  | error e => exact .refl s
  | ok paths => exact loadFiles_grows disk paths s

/-- Loading is first-wins and fails cleanly. Whatever comes of it, bound names stay as they are and
a new name belongs to its first registration. Where the paths cannot be expanded nothing changes;
else it fails exactly where a file is rejected, with the services of the files before and of the
declarations before in that file. -/
theorem load_first_wins (disk : Disk σ) (paths : List String) (services : Services σ) :
    services.functions.FirstWins (load disk paths services).2.2.functions
      ((carried disk paths services).filterMap Declaration.function?) ∧
    services.properties.FirstWins (load disk paths services).2.2.properties
      ((carried disk paths services).filterMap Declaration.property?) ∧
    (∀ e, gather (disk 0) paths = .error e →
      load disk paths services = (.error e, [], services)) ∧
    ∀ gathered, gather (disk 0) paths = .ok gathered → ∀ e notices after,
      load disk paths services = (.error e, notices, after) ↔
        ∃ done path rest reached, gathered = done ++ path :: rest ∧
          loadFiles disk done services = (.ok (), notices, reached) ∧
            Rejects (disk done.length) path reached e after := by
  have grows := load_grows disk paths services
  refine ⟨grows.functions.firstWins, grows.properties.firstWins, ?_, ?_⟩
  · intro e failed
    rw [load, failed]
  · intro gathered expanded e notices after
    rw [load, expanded]
    exact loadFiles_error_iff

def constant (i : Int) : Host.Binding Unit := .routine fun _ world => (.ok (.int i), world)

/-- Code that goes on when its first declaration is refused, and then declares the same name
again. -/
def insisting : Script Unit :=
  .declare (.function (.string "f") (constant 3)) fun _ =>
    .ofList [.function (.string "g") (constant 2), .function (.string "f") (constant 3)]

/-- Two extensions; the second one insists on a function that the first has declared. -/
def clashing : Files Unit where
  here := "/"
  nodes := [(["a.py".toList], .file []), (["b.py".toList], .file [])]
  execute path _ _ :=
    let script : Script Unit :=
      if path = "/a.py" then .ofList [.function (.string "f") (constant 1)] else insisting
    .ok { entrance := .registers script }

/-- The second extension handles the first refusal and fails at the second one: what it declared in
between stays, as does the function of the first extension. -/
theorem load_first_wins_clash :
    gather clashing ["a.py", "b.py"] = .ok ["/a.py", "/b.py"] ∧
      load (.still clashing) ["a.py", "b.py"] {} =
        (.error (.stopped (.refusal (.functionTaken "f"))), [.loaded "a" "/a.py"],
          { functions := [("f", constant 1), ("g", constant 2)] }) := by
  have plain : ∀ path ∈ ["a.py", "b.py"], Path.endsWithAnyCase listSuffix path = false := by
    decide +kernel
  have absolute : ["a.py", "b.py"].map (Path.absolute "/") = ["/a.py", "/b.py"] := by decide +kernel
  have gathered : gather clashing ["a.py", "b.py"] = .ok ["/a.py", "/b.py"] := by
    simp only [gather, List.mapM_cons, List.mapM_nil, plain "a.py" (by simp),
      plain "b.py" (by simp)]
    rw [← absolute]
    rfl
  have first : loadFiles (.still clashing) ["/a.py"] {} =
      (.ok (), [.loaded "a" "/a.py"], { functions := [("f", constant 1)] }) := by
    with_unfolding_all rfl
  have second : opened clashing "/b.py" = .ok ("b", insisting) := by with_unfolding_all rfl
  refine ⟨gathered, ((load_first_wins (.still clashing) _ _).2.2.2 _ gathered _ _ _).mpr ?_⟩
  have begun : Services.Follows "b" insisting { functions := [("f", constant 1)] }
      [.function (.string "g") (constant 2)] (.ofList [.function (.string "f") (constant 3)])
      { functions := [("f", constant 1), ("g", constant 2)] } :=
    .failed rfl (.carried rfl .here)
  have rejects : Rejects clashing "/b.py" { functions := [("f", constant 1)] }
      (.stopped (.refusal (.functionTaken "f")))
      { functions := [("f", constant 1), ("g", constant 2)] } :=
    .of_unhandled second begun rfl rfl
  exact ⟨["/a.py"], "/b.py", [], _, rfl, first, rejects⟩

end Loading

end Termwise
