import Termwise.Host.World
import Termwise.Proofs.Pairing

/-! Hosts as a run sees them. Two hosts that answer alike cannot be told apart by a run. A host can
keep a log of how it is used without being noticed, which gives the sequence of function calls that
a run makes. -/
namespace Termwise

variable {σ τ : Type}

/-- The two bridges give the same numbers and the same faults, from related states on. -/
structure Host.AnswersAlike (b : Host.Bridge σ) (c : Host.Bridge τ) (H : σ → τ → Prop) : Prop where
  call : ∀ h k, H h k → ∀ name args,
    (c.call name args k).1.map Host.Reply.value = (b.call name args h).1.map Host.Reply.value ∧
      H (b.call name args h).2 (c.call name args k).2
  read : ∀ h k, H h k → ∀ name,
    (c.read name k).1.map Host.Reply.value = (b.read name h).1.map Host.Reply.value ∧
      H (b.read name h).2 (c.read name k).2

/-- The same registers, with hosts and step logs that are related. Notices are left out. -/
structure Session.Resembles (H : σ → τ → Prop) (T : Trace → Trace → Prop) (a : Session σ)
    (b : Session τ) : Prop where
  registers : b.registers = a.registers
  host : H a.host b.host
  trace : T a.trace b.trace

namespace Machine

variable {g : Option Nat → Option Nat} {H : σ → τ → Prop} {T : Trace → Trace → Prop} {P : Setup σ}
  {Q : Setup τ} {s : Machine σ} {t : Machine τ}

theorem askHost_paired {use : σ → Except Fault Host.Reply × σ}
    {other : τ → Except Fault Host.Reply × τ}
    (answers : (other t.host).1.map Host.Reply.value = (use s.host).1.map Host.Reply.value ∧
      H (use s.host).2 (other t.host).2) (matched : Matched g (Session.Resembles H T) s t) :
    Alike (Matched g (Session.Resembles H T)) (fun _ => True) ((askHost use).run s)
      ((askHost other).run t) := by
  obtain ⟨value, host⟩ := answers
  rw [askHost_run, askHost_run]
  rcases used : use s.host with ⟨f | reply, h⟩ <;>
    rcases asked : other t.host with ⟨f' | reply', k⟩ <;> rw [used, asked] at value host <;>
    simp only [Except.map, Except.error.injEq, Except.ok.injEq, reduceCtorEq] at value
  · subst value
    exact ⟨rfl, { matched with session := { matched.session with host := host } },
      fun _ _ => trivial⟩
  · refine ⟨by simp [value], { matched with session := ?_ }, fun _ _ => trivial⟩
    exact { matched.session with host := host }

theorem operandValue_paired (alike : Host.AnswersAlike P.bridge Q.bridge H) (u : Term)
    (matched : Matched g (Session.Resembles H T) s t) :
    Alike (Matched g (Session.Resembles H T)) (fun _ => True) ((operandValue P u).run s)
      ((operandValue Q u).run t) := by
  have registers := matched.session.registers
  rw [operandValue_run, operandValue_run, registers]
  cases u.kind with
  | property =>
    exact askHost_paired (alike.read s.host t.host matched.session.host u.nameText) matched
  | _ => exact ⟨rfl, matched, fun _ _ => trivial⟩

theorem assign_paired (a : Assignment) (index : Int) (args : List Float)
    (matched : Matched g (Session.Resembles H T) s t) :
    Alike (Matched g (Session.Resembles H T)) (fun _ => True) ((assign a index args).run s)
      ((assign a index args).run t) := by
  have registers := matched.session.registers
  rw [assign_run, assign_run, registers]
  cases a.eval (s.registers.get (some index)) (args ++ [0.0]) with
  | error f => exact ⟨rfl, matched, fun _ _ => trivial⟩
  | ok x =>
    refine ⟨rfl, { matched with session := ?_ }, fun _ _ => trivial⟩
    exact { matched.session with registers := rfl }

theorem callByName_paired (alike : Host.AnswersAlike P.bridge Q.bridge H) (name : String)
    (args : List Float) (matched : Matched g (Session.Resembles H T) s t) :
    Alike (Matched g (Session.Resembles H T)) (fun _ => True) ((callByName P name args).run s)
      ((callByName Q name args).run t) := by
  unfold callByName
  split
  · cases Operator.invoke name args with
    | ok x => exact ⟨rfl, matched, fun _ _ => trivial⟩
    | error f => exact ⟨rfl, matched, fun _ _ => trivial⟩
  · exact askHost_paired (alike.call s.host t.host matched.session.host name args) matched

theorem perform_paired (renumbering : Renumbering g) (aligned : Aligned g P.lines Q.lines)
    (alike : Host.AnswersAlike P.bridge Q.bridge H) (indent : Option Nat) (settled : Bool)
    (u : Term) (args : List Float) (matched : Matched g (Session.Resembles H T) s t) :
    Alike (Matched g (Session.Resembles H T)) (fun _ => True)
      ((perform P indent settled u args).run s) ((perform Q (g indent) settled u args).run t) := by
  unfold perform
  split
  · exact performFlow_paired renumbering aligned indent settled _ args matched
  · split
    · exact assign_paired _ _ args matched
    · exact callByName_paired alike _ args matched
  · exact callByName_paired alike _ args matched

/-- A call ends alike on hosts that answer alike. -/
theorem evalCall_paired (renumbering : Renumbering g) (aligned : Aligned g P.lines Q.lines)
    (alike : Host.AnswersAlike P.bridge Q.bridge H) (indent : Option Nat) (settled : Bool)
    (e : Expr) (matched : Matched g (Session.Resembles H T) s t) :
    Alike (Matched g (Session.Resembles H T)) (fun _ => True)
      ((Expr.evalCall (meaning P indent settled) e).run s)
      ((Expr.evalCall (meaning Q (g indent) settled) e).run t) := by
  have related := (pairing (Matched g (Session.Resembles H T))).evalCall_related
    (M := meaning P indent settled)
    (N := meaning Q (g indent) settled) (V := fun _ => True) e ?_ ?_ s t matched
  · exact ⟨related.outcome, related.states, fun _ _ => trivial⟩
  · intro u _ s t matched
    exact operandValue_paired alike u matched
  · intro u _ args _ s t matched
    exact perform_paired renumbering aligned alike indent settled u args matched

theorem evalAll_paired (renumbering : Renumbering g) (aligned : Aligned g P.lines Q.lines)
    (alike : Host.AnswersAlike P.bridge Q.bridge H) (indent : Option Nat) (settled : Bool)
    (calls : List Expr) (matched : Matched g (Session.Resembles H T) s t) :
    Alike (Matched g (Session.Resembles H T)) (fun _ => True)
      ((Expr.evalAll (meaning P indent settled) calls).run s)
      ((Expr.evalAll (meaning Q (g indent) settled) calls).run t) := by
  induction calls generalizing s t with
  | nil => exact ⟨rfl, matched, fun _ _ => trivial⟩
  | cons e rest ih =>
    refine (pairing (Matched g (Session.Resembles H T))).ofBind (V := fun _ => True) ?_
      ?_ s t matched
    · intro s t matched
      exact evalCall_paired renumbering aligned alike indent settled e matched
    · intro _ _ s t matched
      exact ih matched

/-- Setups with the same switches are paired when their lines are. -/
theorem paired_of_executes (aligned : Aligned g P.lines Q.lines) (tracing : Q.tracing = P.tracing)
    (verbose : Q.verbose = P.verbose)
    (records : ∀ a b, T a b → ∀ pc i j rule registers, j = i ∨ j = g i →
      T (a.record pc i rule registers) (b.record pc j rule registers))
    (executes : ∀ (pc : Nat) first second, P.lines[pc]? = some first → Q.lines[pc]? = some second →
      ∀ settled s t, Matched g (Session.Resembles H T) s t →
        Alike (Matched g (Session.Resembles H T)) (fun _ => True) ((execute P first settled).run s)
          ((execute Q second settled).run t)) : Paired g (Session.Resembles H T) P Q := by
  refine ⟨aligned, executes, ?_, ?_⟩
  · intro s t matched i j rule same
    unfold log
    rw [tracing, verbose]
    split
    · rw [matched.session.registers, matched.pc]
      exact ⟨rfl, matched.session.host, records _ _ matched.session.trace _ _ _ _ _ same⟩
    · exact matched.session
  · intro s t matched notice
    exact { matched.session with }

end Machine

theorem Table.find?_map {κ β γ : Type} [DecidableEq κ] (f : κ → β → γ) (table : Table κ β)
    (key : κ) :
    Table.find? (table.map fun entry => (entry.1, f entry.1 entry.2)) key =
      (table.find? key).map (f key) := by
  induction table with
  | nil => rfl
  | cons entry rest ih =>
    unfold Table.find? at ih ⊢
    by_cases same : entry.1 = key
    · simp [same]
    · simpa [same] using ih

namespace Host

/-- What is written down when a host is used: when a name is looked up on its target, when a
function is called, and when a property is computed. -/
structure Logbook (σ ε : Type) where
  lookup : String → σ → List ε := fun _ _ => []
  call : String → List Float → σ → List ε := fun _ _ _ => []
  getter : String → σ → List ε := fun _ _ => []

variable {ε : Type}

/-- A routine that also writes down its uses, newest first. -/
def Routine.logged (entries : List Float → σ → List ε) (run : Routine σ) : Routine (σ × List ε) :=
  fun args host =>
  let (result, after) := run args host.1
  (result, after, entries args host.1 ++ host.2)

def Binding.map (f : Routine σ → Routine τ) : Binding σ → Binding τ
  | .routine run => .routine (f run)
  | .value v => .value v

def Lookup.map (f : Routine σ → Routine τ) : Lookup σ → Lookup τ
  | .found binding => .found (binding.map f)
  | .absent => .absent
  | .failed failure => .failed failure

/-- A target that also writes down how it is used. -/
def Target.logged (book : Logbook σ ε) (target : Target σ) : Target (σ × List ε) := fun name host =>
  let (found, after) := target name host.1
  (found.map (Routine.logged (book.call name)), after, book.lookup name host.1 ++ host.2)

namespace Bridge

variable (b : Bridge σ) (book : Logbook σ ε)

/-- The bridge to a host that also writes down how it is used. -/
def logged : Bridge (σ × List ε) where
  functions := b.functions.map fun entry =>
    (entry.1, entry.2.map (Routine.logged (book.call entry.1)))
  properties := b.properties.map fun entry =>
    (entry.1, entry.2.map (Routine.logged fun _ => book.getter entry.1))
  target := b.target.map (Target.logged book)

/-- What asking the target writes down. -/
def lookupEntries (name : String) (host : σ) : List ε :=
  match b.target with
  | some _ => if isPrivate name then [] else book.lookup name host
  | none => []

/-- What looking a function up writes down. -/
def searchEntries (name : String) (host : σ) : List ε :=
  match b.functions.find? name with
  | some (.value .nothing) | none => b.lookupEntries book name host
  | some _ => []

/-- What a call writes down. -/
def callEntries (name : String) (args : List Float) (host : σ) : List ε :=
  match b.function? name host with
  | (.ok (some _), found) => book.call name args found ++ b.searchEntries book name host
  | _ => b.searchEntries book name host

/-- What reading a property writes down. -/
def readEntries (name : String) (host : σ) : List ε :=
  match b.properties.find? name with
  | some (.routine _) => book.getter name host
  | some (.value _) => []
  | none => b.lookupEntries book name host

theorem askTarget_logged (name : String) (host : σ) (log : List ε) :
    (b.logged book).askTarget name (host, log) =
      ((b.askTarget name host).1.map (Routine.logged (book.call name)), (b.askTarget name host).2,
        b.lookupEntries book name host ++ log) := by
  unfold askTarget lookupEntries
  cases bound : b.target with
  | none => simp [logged, bound, Lookup.map]
  | some target =>
    simp only [logged, bound, Option.map_some]
    split <;> rfl

theorem asRoutine_map (f : Routine σ → Routine τ) (found : Lookup σ) :
    asRoutine (found.map f) = (asRoutine found).map (Option.map f) := by
  cases found with
  | found binding => cases binding <;> rfl
  | absent => rfl
  | failed failure => rfl

theorem function?_logged (name : String) (host : σ) (log : List ε) :
    (b.logged book).function? name (host, log) =
      ((b.function? name host).1.map (Option.map (Routine.logged (book.call name))),
        (b.function? name host).2, b.searchEntries book name host ++ log) := by
  have bound : (b.logged book).functions.find? name =
      (b.functions.find? name).map (Binding.map (Routine.logged (book.call name))) :=
    Table.find?_map (fun name => Binding.map (Routine.logged (book.call name))) b.functions name
  unfold function? searchEntries
  rw [bound, askTarget_logged]
  rcases b.functions.find? name with _ | run | v
  · simp [asRoutine_map]
  · rfl
  · cases v <;> first | rfl | simp [Binding.map, asRoutine_map]

theorem call_logged (name : String) (args : List Float) (host : σ) (log : List ε) :
    (b.logged book).call name args (host, log) =
      ((b.call name args host).1, (b.call name args host).2,
        b.callEntries book name args host ++ log) := by
  unfold call callEntries
  rw [function?_logged]
  rcases b.function? name host with ⟨f | _ | run, after⟩
  · rfl
  · rfl
  · simp [Except.map, Routine.logged]

theorem read_logged (name : String) (host : σ) (log : List ε) :
    (b.logged book).read name (host, log) =
      ((b.read name host).1, (b.read name host).2, b.readEntries book name host ++ log) := by
  have bound : (b.logged book).properties.find? name =
      (b.properties.find? name).map (Binding.map (Routine.logged fun _ => book.getter name)) :=
    Table.find?_map (fun name => Binding.map (Routine.logged fun _ => book.getter name))
      b.properties name
  unfold read readEntries
  rw [bound, askTarget_logged]
  rcases b.properties.find? name with _ | run | v
  · rcases b.askTarget name host with ⟨(_ | _) | _ | _, after⟩ <;> rfl
  · rfl
  · rfl

/-- Writing down how the host is used changes no answer. -/
theorem logged_answersAlike : AnswersAlike b (b.logged book) fun host kept => kept.1 = host := by
  constructor
  · rintro _ ⟨host, log⟩ rfl name args
    rw [call_logged]
    exact ⟨rfl, rfl⟩
  · rintro _ ⟨host, log⟩ rfl name
    rw [read_logged]
    exact ⟨rfl, rfl⟩

end Bridge

end Host

namespace Setup

variable {ε : Type}

def logged (setup : Setup σ) (book : Host.Logbook σ ε) : Setup (σ × List ε) :=
  { setup with bridge := setup.bridge.logged book }

theorem logged_paired (setup : Setup σ) (book : Host.Logbook σ ε) :
    Machine.Paired id (Session.Resembles (fun host kept => kept.1 = host) Eq) setup
      (setup.logged book) := by
  have aligned : Aligned id setup.lines (setup.logged book).lines := rfl
  refine Machine.paired_of_executes aligned rfl rfl ?_ ?_
  · rintro a _ rfl pc i j rule registers (rfl | rfl) <;> rfl
  · intro pc first second here there settled s t matched
    obtain rfl : first = second := Option.some.inj (here.symm.trans there)
    exact Machine.evalAll_paired Renumbering.identity aligned
      (setup.bridge.logged_answersAlike book) first.indent settled first.calls matched

end Setup

/-- The session with an empty log. -/
def Session.logged (ε : Type) (s : Session σ) : Session (σ × List ε) :=
  { s with host := (s.host, []) }

/-- A run goes on as before when it is written down how it uses the host. -/
theorem Session.run_logged {ε : Type} (setup : Setup σ) (book : Host.Logbook σ ε) (maxSteps : Int)
    (s : Session σ) :
    Alike (Session.Resembles (fun host kept => kept.1 = host) Eq) (fun _ => True)
      (s.run setup maxSteps) ((s.logged ε).run (setup.logged book) maxSteps) := by
  refine Session.run_paired Renumbering.identity (setup.logged_paired book) maxSteps
    ⟨rfl, rfl, rfl⟩ ?_
  unfold Session.start
  rw [show (setup.logged book).tracing = setup.tracing from rfl]
  split <;> exact ⟨rfl, rfl, rfl⟩

namespace Host

/-- Writes down the calls of functions alone. -/
def Logbook.ofCalls : Logbook σ Call where
  call name args _ := [⟨name, args⟩]

namespace Bridge

variable (b : Bridge σ)

/-- The bridge that writes down the calls of functions. Reading a property is not written down. -/
def recorded : Bridge (σ × List Call) := b.logged .ofCalls

/-- The call that a use of a name comes to: none when there is no such function. -/
def called (name : String) (args : List Float) (host : σ) : List Call :=
  match (b.function? name host).1 with
  | .ok (some _) => [⟨name, args⟩]
  | _ => []

theorem lookupEntries_ofCalls (name : String) (host : σ) :
    b.lookupEntries .ofCalls name host = [] := by
  unfold lookupEntries
  split
  · exact ite_self _
  · rfl

theorem searchEntries_ofCalls (name : String) (host : σ) :
    b.searchEntries .ofCalls name host = [] := by
  unfold searchEntries
  split
  · exact b.lookupEntries_ofCalls name host
  · exact b.lookupEntries_ofCalls name host
  · rfl

theorem call_recorded (name : String) (args : List Float) (host : σ) (calls : List Call) :
    b.recorded.call name args (host, calls) =
      ((b.call name args host).1, (b.call name args host).2, b.called name args host ++ calls) := by
  have entries : b.callEntries .ofCalls name args host = b.called name args host := by
    unfold callEntries called
    rw [searchEntries_ofCalls]
    rcases b.function? name host with ⟨f | _ | run, after⟩ <;> rfl
  rw [← entries]
  exact b.call_logged .ofCalls name args host calls

theorem read_recorded (name : String) (host : σ) (calls : List Call) :
    b.recorded.read name (host, calls) = ((b.read name host).1, (b.read name host).2, calls) := by
  have entries : b.readEntries .ofCalls name host = [] := by
    unfold readEntries
    split
    · rfl
    · rfl
    · exact b.lookupEntries_ofCalls name host
  have read := b.read_logged .ofCalls name host calls
  rwa [entries] at read

end Bridge

end Host

def Setup.recorded (setup : Setup σ) : Setup (σ × List Host.Call) :=
  { setup with bridge := setup.bridge.recorded }

def Session.recorded (s : Session σ) : Session (σ × List Host.Call) :=
  { s with host := (s.host, []) }

/-- The functions of the host that a run calls, with their arguments, in order. -/
def Session.hostCalls (setup : Setup σ) (maxSteps : Int) (s : Session σ) : List Host.Call :=
  (s.recorded.run setup.recorded maxSteps).2.host.2.reverse

/-- A run goes on as before when its calls are written down. -/
theorem Session.run_recorded (setup : Setup σ) (maxSteps : Int) (s : Session σ) :
    Alike (Session.Resembles (fun host kept => kept.1 = host) Eq) (fun _ => True)
      (s.run setup maxSteps) (s.recorded.run setup.recorded maxSteps) :=
  s.run_logged setup .ofCalls maxSteps

end Termwise
