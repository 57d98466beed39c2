import Termwise.Proofs.Faults
import Termwise.Proofs.Hosts

/-! The contacts of a run with its host: the names that are looked up on the target, the functions
that are called and the properties that are computed, each with the state of the host before. A run
that ends early ends with its last contact: a function was looked up on the target, which failed, or
the host demanded to stop. -/
namespace Termwise

variable {σ : Type}

namespace Host

/-- What the host is asked, and the state it is in then. -/
inductive Contact (σ : Type) where
  | lookup (name : String) (host : σ)
  | call (name : String) (args : List Float) (host : σ)
  | getter (name : String) (host : σ)

/-- Writes down all contacts. -/
def Logbook.ofContacts : Logbook σ (Contact σ) where
  lookup name host := [.lookup name host]
  call name args host := [.call name args host]
  getter name host := [.getter name host]

namespace Bridge

/-- The host can be asked to run the routine on these arguments. -/
inductive CanRun (b : Bridge σ) : Routine σ → List Float → Prop
  | function {name : String} {host : σ} {run : Routine σ} {args : List Float}
      (found : (b.function? name host).1 = .ok (some run)) : CanRun b run args
  | getter {name : String} {run : Routine σ}
      (bound : b.properties.find? name = some (.routine run)) : CanRun b run []

theorem askTarget_found {b : Bridge σ} {name : String} {host : σ} {binding : Binding σ}
    (found : (b.askTarget name host).1 = .found binding) :
    ∃ target, b.target = some target ∧ (target name host).1 = .found binding := by
  unfold askTarget at found
  split at found
  next target bound =>
    split at found
    · cases found
    · exact ⟨target, bound, found⟩
  next => cases found

/-- A routine that can be run stands in a table, or the target has it. -/
theorem CanRun.origin {b : Bridge σ} {run : Routine σ} {args : List Float}
    (runs : b.CanRun run args) :
    (∃ name, b.functions.find? name = some (.routine run)) ∨
      (∃ name, b.properties.find? name = some (.routine run)) ∨
      ∃ target, b.target = some target ∧
        ∃ name host, (target name host).1 = .found (.routine run) := by
  cases runs with
  | @function name host run args found =>
    unfold function? at found
    have asked (same : asRoutine (b.askTarget name host).1 = .ok (some run)) :
        ∃ target, b.target = some target ∧
          ∃ name host, (target name host).1 = .found (.routine run) := by
      unfold asRoutine at same
      split at same
      next g answer =>
        cases same
        obtain ⟨target, bound, has⟩ := askTarget_found answer
        exact ⟨target, bound, name, host, has⟩
      all_goals cases same
    split at found
    next bound =>
      cases found
      exact .inl ⟨name, bound⟩
    · exact .inr (.inr (asked found))
    · exact .inr (.inr (asked found))
    · cases found
  | @getter name run bound => exact .inr (.inl ⟨name, bound⟩)

/-- No routine of the host demands to stop. -/
def Ordinary (b : Bridge σ) : Prop :=
  ∀ run args, b.CanRun run args → ∀ host message, (run args host).1 ≠ .error (.escaping message)

/-- The host can hand the value over. -/
inductive HandsOver (b : Bridge σ) : Value → Prop
  | result {run : Routine σ} {args : List Float} {host : σ} {v : Value} (runs : b.CanRun run args)
      (given : (run args host).1 = .ok v) : HandsOver b v
  | property {name : String} {v : Value} (bound : b.properties.find? name = some (.value v)) :
      HandsOver b v
  | attribute {name : String} {host : σ} {v : Value}
      (found : (b.askTarget name host).1 = .found (.value v)) : HandsOver b v

/-- No value that is handed over fails when it is asked for its number. -/
def Converts (b : Bridge σ) : Prop := ∀ v, b.HandsOver v → ∃ x, v.number = .ok x

/-- The target is asked for the name and fails. -/
def TargetFails (b : Bridge σ) (name : String) (host : σ) (failure : Failure) (after : σ) : Prop :=
  ∃ target, b.target = some target ∧ isPrivate name = false ∧
    target name host = (.failed failure, after)

/-- The contact ends a call of the function: the target fails when it is asked for the function, or
the function demands to stop. -/
inductive CallEnds (b : Bridge σ) (name : String) : Contact σ → Fault → σ → Prop
  | lookup {host after : σ} {failure : Failure} (failed : b.TargetFails name host failure after) :
      CallEnds b name (.lookup name host) (.lookup failure) after
  | call {earlier host after : σ} {run : Routine σ} {args : List Float} {message : String}
      (found : b.function? name earlier = (.ok (some run), host))
      (escaped : run args host = (.error (.escaping message), after)) :
      CallEnds b name (.call name args host) (.escape message) after

/-- The contact ends the reading of the property: the target demands to stop when it is asked for
the property, or the routine of the property does. -/
inductive ReadEnds (b : Bridge σ) (name : String) : Contact σ → Fault → σ → Prop
  | lookup {host after : σ} {message : String}
      (failed : b.TargetFails name host (.escaping message) after) :
      ReadEnds b name (.lookup name host) (.escape message) after
  | getter {host after : σ} {run : Routine σ} {message : String}
      (bound : b.properties.find? name = some (.routine run))
      (escaped : run [] host = (.error (.escaping message), after)) :
      ReadEnds b name (.getter name host) (.escape message) after

variable {b : Bridge σ} {name : String} {args : List Float} {host after : σ} {f : Fault}

theorem askTarget_failed {failure : Failure}
    (failed : b.askTarget name host = (.failed failure, after)) :
    b.TargetFails name host failure after ∧
      b.lookupEntries .ofContacts name host = [.lookup name host] := by
  unfold askTarget at failed
  split at failed
  next target bound =>
    split at failed
    · cases failed
    next visible =>
      have entries : b.lookupEntries .ofContacts name host = [.lookup name host] := by
        rw [lookupEntries, bound]
        exact if_neg visible
      exact ⟨⟨target, bound, by simpa using visible, failed⟩, entries⟩
  next => cases failed

theorem asRoutine_error {found : Lookup σ} (failed : asRoutine found = .error f) :
    ∃ failure, found = .failed failure ∧ f = .lookup failure := by
  unfold asRoutine at failed
  split at failed
  case h_4 failure =>
    cases failed
    exact ⟨failure, rfl, rfl⟩
  all_goals cases failed

/-- Looking a function up fails on the target alone. -/
theorem function?_error (failed : b.function? name host = (.error f, after)) :
    ∃ failure, f = .lookup failure ∧ b.TargetFails name host failure after ∧
      b.searchEntries .ofContacts name host = [.lookup name host] := by
  have asked :
      (asRoutine (b.askTarget name host).1 = .error f ∧ (b.askTarget name host).2 = after) ∧
      b.searchEntries .ofContacts name host = b.lookupEntries .ofContacts name host := by
    unfold function? at failed
    split at failed
    · cases failed
    next bound => exact ⟨Prod.mk.inj failed, by rw [searchEntries, bound]⟩
    next bound => exact ⟨Prod.mk.inj failed, by rw [searchEntries, bound]⟩
    · cases failed
  obtain ⟨⟨failed, left⟩, entries⟩ := asked
  obtain ⟨failure, found, rfl⟩ := asRoutine_error failed
  obtain ⟨fails, entry⟩ := askTarget_failed (Prod.ext found left)
  exact ⟨failure, rfl, fails, entries.trans entry⟩

theorem replyOf_error {result : Except Failure Value} (failed : replyOf name result = .error f) :
    (∃ message, result = .error (.escaping message) ∧ f = .escape message) ∨
      ∃ v failure, result = .ok v ∧ v.number = .error failure := by
  unfold replyOf at failed
  split at failed
  · cases failed
  · cases failed
    exact .inl ⟨_, rfl, rfl⟩
  next v =>
    split at failed
    next failure odd => exact .inr ⟨v, failure, rfl, odd⟩
    · cases failed
    · split at failed <;> cases failed

theorem propertyReply_error {result : Except Failure Value}
    (failed : propertyReply name result = .error f) :
    (∃ message, result = .error (.escaping message) ∧ f = .escape message) ∨
      ∃ v failure, result = .ok v ∧ v.number = .error failure := by
  unfold propertyReply at failed
  split at failed
  · cases failed
  · cases failed
    exact .inl ⟨_, rfl, rfl⟩
  next v =>
    split at failed
    next failure odd => exact .inr ⟨v, failure, rfl, odd⟩
    · cases failed

theorem Converts.absurd (converts : b.Converts) {v : Value} (hands : b.HandsOver v)
    {failure : Failure} (odd : v.number = .error failure) : False := by
  obtain ⟨x, number⟩ := converts v hands
  rw [odd] at number
  cases number

/-- A call that faults ends with the last contact that it makes. -/
theorem call_ends (converts : b.Converts) (failed : b.call name args host = (.error f, after)) :
    ∃ contact earlier, b.callEntries .ofContacts name args host = contact :: earlier ∧
      b.CallEnds name contact f after := by
  unfold call at failed
  split at failed
  next g left looked =>
    cases failed
    obtain ⟨failure, rfl, fails, entries⟩ := function?_error looked
    refine ⟨.lookup name host, [], ?_, .lookup fails⟩
    rw [callEntries, looked]
    exact entries
  next => cases failed
  next run left looked =>
    obtain ⟨answered, rfl⟩ := Prod.mk.inj failed
    have runs : b.CanRun run args := .function (congrArg Prod.fst looked)
    obtain ⟨message, escaped, rfl⟩ | ⟨v, failure, given, odd⟩ := replyOf_error answered
    · refine ⟨.call name args left, b.searchEntries .ofContacts name host, ?_,
        .call looked (Prod.ext escaped rfl)⟩
      rw [callEntries, looked]
      rfl
    · exact (converts.absurd (.result runs given) odd).elim

/-- Reading a property makes one contact at most; where it faults, it ends with this contact. -/
theorem read_ends (converts : b.Converts) (failed : b.read name host = (.error f, after)) :
    ∃ contact, b.readEntries .ofContacts name host = [contact] ∧
      b.ReadEnds name contact f after := by
  unfold read at failed
  split at failed
  next run bound =>
    obtain ⟨answered, rfl⟩ := Prod.mk.inj failed
    have entries : b.readEntries .ofContacts name host = [.getter name host] := by
      rw [readEntries, bound]
      rfl
    obtain ⟨message, escaped, rfl⟩ | ⟨v, failure, given, odd⟩ := propertyReply_error answered
    · exact ⟨.getter name host, entries, .getter bound (Prod.ext escaped rfl)⟩
    · exact (converts.absurd (.result (.getter bound) given) odd).elim
  next v bound =>
    obtain ⟨message, escaped, -⟩ | ⟨_, failure, ⟨⟩, odd⟩ :=
      propertyReply_error (Prod.mk.inj failed).1
    · cases escaped
    · exact (converts.absurd (.property bound) odd).elim
  next unbound =>
    split at failed
    next v left found =>
      obtain ⟨message, escaped, -⟩ | ⟨_, failure, ⟨⟩, odd⟩ :=
        propertyReply_error (Prod.mk.inj failed).1
      · cases escaped
      · exact (converts.absurd (.attribute (congrArg Prod.fst found)) odd).elim
    next => cases failed
    next => cases failed
    next failure left asked =>
      obtain ⟨answered, rfl⟩ := Prod.mk.inj failed
      obtain ⟨fails, lookups⟩ := askTarget_failed asked
      have entries : b.readEntries .ofContacts name host = [.lookup name host] := by
        rw [readEntries, unbound]
        exact lookups
      obtain ⟨message, escaped, rfl⟩ | ⟨v, _, ⟨⟩, -⟩ := propertyReply_error answered
      cases escaped
      exact ⟨.lookup name host, entries, .lookup fails⟩

/-- When the host ends a call or a read and its contacts are written down, the newest one is what
ended it. -/
theorem Ends.newest {calls reads : String → Prop} {log : List (Contact σ)}
    (ends : (b.logged .ofContacts).Ends calls reads f (after, log)) (converts : b.Converts) :
    ∃ contact older, log = contact :: older ∧
      ((∃ name, calls name ∧ b.CallEnds name contact f after) ∨
        ∃ name, reads name ∧ b.ReadEnds name contact f after) := by
  cases ends with
  | @call name args before named failed =>
    obtain ⟨before, written⟩ := before
    rw [call_logged] at failed
    obtain ⟨fault, left⟩ := Prod.mk.inj failed
    obtain ⟨rfl, rfl⟩ := Prod.mk.inj left
    obtain ⟨contact, earlier, entries, ended⟩ := call_ends converts (Prod.ext fault rfl)
    exact ⟨contact, earlier ++ written, by rw [entries]; rfl, .inl ⟨name, named, ended⟩⟩
  | @read name before named failed =>
    obtain ⟨before, written⟩ := before
    rw [read_logged] at failed
    obtain ⟨fault, left⟩ := Prod.mk.inj failed
    obtain ⟨rfl, rfl⟩ := Prod.mk.inj left
    obtain ⟨contact, entries, ended⟩ := read_ends converts (Prod.ext fault rfl)
    exact ⟨contact, written, by rw [entries]; rfl, .inr ⟨name, named, ended⟩⟩

end Bridge

end Host

namespace Session

/-- The contacts of a run with the host, in order. -/
def contacts (setup : Setup σ) (maxSteps : Int) (s : Session σ) : List (Host.Contact σ) :=
  ((s.logged (Host.Contact σ)).run (setup.logged .ofContacts) maxSteps).2.host.2.reverse

variable {rows : List (List Term)} {setup : Setup σ} {maxSteps : Int}
  {s after : Session σ} {f : Fault}

/-- A run that ends early ends with its last contact, which is made by a call or a read of the
program. -/
theorem run_ends (program : setup.lines = Program.ofTerms rows) (converts : setup.bridge.Converts)
    (faulted : s.run setup maxSteps = (.error f, after)) :
    ∃ earlier contact, s.contacts setup maxSteps = earlier ++ [contact] ∧
      ((∃ name, (∃ line ∈ setup.lines, line.CallsName name) ∧
        setup.bridge.CallEnds name contact f after.host) ∨
        ∃ name, (∃ line ∈ setup.lines, line.ReadsName name) ∧
          setup.bridge.ReadEnds name contact f after.host) := by
  obtain ⟨outcome, ⟨-, host, -⟩, -⟩ :=
    s.run_logged setup (Host.Logbook.ofContacts (σ := σ)) maxSteps
  unfold contacts
  rcases logged : (s.logged (Host.Contact σ)).run (setup.logged .ofContacts) maxSteps
    with ⟨result, last⟩
  rw [logged, faulted] at outcome host
  cases outcome
  have reason : Machine.HostEnds (setup.logged .ofContacts) f last.host := run_error program logged
  obtain ⟨contact, older, written, ended⟩ := Host.Bridge.Ends.newest reason converts
  refine ⟨older.reverse, contact, ?_, host ▸ ended⟩
  rw [written, List.reverse_cons]

/-- A run gives a result when the target, if there is one, answers every look-up and no routine of
the host demands to stop. In any case it ends early only with its last contact with the host: the
target fails when it is asked for a function that the program calls, or the host demands to stop
where the program calls a function or reads a property. Hosts with values that fail when they are
asked for their number are left out. -/
theorem run_gives_result (rows : List (List Term)) (setup : Setup σ)
    (program : setup.lines = Program.ofTerms rows) (converts : setup.bridge.Converts)
    (maxSteps : Int) (s : Session σ) :
    ((∀ target, setup.bridge.target = some target →
        ∀ name host failure, (target name host).1 ≠ .failed failure) →
      setup.bridge.Ordinary → ∃ result, (s.run setup maxSteps).1 = .ok result) ∧
    ∀ f after, s.run setup maxSteps = (.error f, after) →
      ∃ earlier contact, s.contacts setup maxSteps = earlier ++ [contact] ∧
        ((∃ name, (∃ line ∈ setup.lines, line.CallsName name) ∧
          setup.bridge.CallEnds name contact f after.host) ∨
          ∃ name, (∃ line ∈ setup.lines, line.ReadsName name) ∧
            setup.bridge.ReadEnds name contact f after.host) := by
  refine ⟨fun answers ordinary => ?_, fun f after faulted => run_ends program converts faulted⟩
  have answered {name : String} {host left : σ} {failure : Host.Failure}
      (fails : setup.bridge.TargetFails name host failure left) : False := by
    obtain ⟨target, bound, -, failed⟩ := fails
    exact answers target bound name host failure (congrArg Prod.fst failed)
  rcases outcome : s.run setup maxSteps with ⟨f | result, after⟩
  · obtain ⟨earlier, contact, -, ⟨name, -, ends⟩ | ⟨name, -, ends⟩⟩ :=
      run_ends program converts outcome
    · cases ends with
      | lookup failed => exact (answered failed).elim
      | call found escaped =>
        exact absurd (congrArg Prod.fst escaped)
          (ordinary _ _ (.function (congrArg Prod.fst found)) _ _)
    · cases ends with
      | lookup failed => exact (answered failed).elim
      | getter bound escaped =>
        exact absurd (congrArg Prod.fst escaped) (ordinary _ _ (.getter bound) _ _)
  · exact ⟨result, rfl⟩

/-- Terms made by hand: an unknown keyword, an assignment without a name that falls back to a call,
a division without an operand, and a call of a function that fails. -/
theorem run_gives_result_handMade :
    let rows : List (List Term) :=
      [[{ kind := .flow, name := some "unless", argCount := -1 }],
        [{ kind := .assignment, argCount := 1, index := some (10 ^ 30) },
          { kind := .number, value := some (0.0 / 0.0) }],
        [{ kind := .assignment, name := some "assignDiv", index := some 0 }],
        [{ kind := .function, name := some "f", argCount := 2 },
          { kind := .register, index := some (-1) }]]
    let failed : Host.Failure := .ordinary "gone"
    let functions : Table String (Host.Binding Unit) :=
      [("f", .routine fun _ host => (.error (.ordinary "boom"), host))]
    let answering : Setup Unit :=
      { lines := Program.ofTerms rows
        bridge := { functions, target := some fun _ host => (.absent, host) } }
    let failing : Setup Unit :=
      { lines := Program.ofTerms rows
        bridge := { functions, target := some fun _ host => (.failed failed, host) } }
    let s : Session Unit := { registers := .zeros 2, host := () }
    (answering.bridge.Converts ∧ failing.bridge.Converts ∧ answering.bridge.Ordinary) ∧
      (∃ result, (s.run answering 10).1 = .ok result) ∧
      ∃ earlier contact, s.contacts failing 10 = earlier ++ [contact] ∧
        ((∃ name, (∃ line ∈ failing.lines, line.CallsName name) ∧
            failing.bridge.CallEnds name contact (.lookup failed) ()) ∨
          ∃ name, (∃ line ∈ failing.lines, line.ReadsName name) ∧
            failing.bridge.ReadEnds name contact (.lookup failed) ()) := by
  intro rows failed functions answering failing s
  have boom (target : Host.Target Unit)
      (bare : ∀ name host binding, (target name host).1 ≠ .found binding)
      {run : Host.Routine Unit} {args : List Float}
      (runs : Host.Bridge.CanRun { functions, target := some target } run args) (host : Unit) :
      (run args host).1 = .error (.ordinary "boom") := by
    obtain ⟨name, bound⟩ | ⟨name, bound⟩ | ⟨_, ⟨⟩, name, before, found⟩ := runs.origin
    · obtain ⟨-, rfl⟩ : "f" = name ∧ (fun _ host => (.error (.ordinary "boom"), host)) = run := by
        simpa [functions, Table.find?] using bound
      rfl
    · cases bound
    · exact absurd found (bare name before _)
  have converts (target : Host.Target Unit)
      (bare : ∀ name host binding, (target name host).1 ≠ .found binding) :
      Host.Bridge.Converts { functions, target := some target } := by
    rintro v (⟨runs, given⟩ | ⟨bound⟩ | ⟨found⟩)
    · rw [boom target bare runs] at given
      cases given
    · cases bound
    · obtain ⟨_, same, has⟩ := Host.Bridge.askTarget_found found
      cases same
      exact absurd has (bare _ _ _)
  have convertsAnswering : answering.bridge.Converts := converts _ fun _ _ _ => nofun
  have convertsFailing : failing.bridge.Converts := converts _ fun _ _ _ => nofun
  have ordinary : answering.bridge.Ordinary := by
    intro run args runs host message escaped
    cases (boom (fun _ host => (.absent, host)) (fun _ _ _ => nofun) runs host).symm.trans escaped
  refine ⟨⟨convertsAnswering, convertsFailing, ordinary⟩, ?_, ?_⟩
  · refine (run_gives_result rows answering rfl convertsAnswering 10 s).1 ?_ ordinary
    rintro target ⟨⟩ name host failure ⟨⟩
  · exact (run_gives_result rows failing rfl convertsFailing 10 s).2 _ _ rfl

/-- A function of the host ends a run where it demands to stop, and there is no target that could
fail. -/
theorem run_stops_on_demand :
    let functions : Table String (Host.Binding Unit) :=
      [("f", .routine fun _ host => (.error (.escaping "exit"), host))]
    let setup : Setup Unit :=
      { lines := Program.ofTerms [[{ kind := .function, name := some "f" }]]
        bridge := { functions } }
    let s : Session Unit := { registers := .zeros 2, host := () }
    setup.bridge.target = none ∧ s.run setup 10 = (.error (.escape "exit"), s) := ⟨rfl, rfl⟩

end Session

end Termwise
