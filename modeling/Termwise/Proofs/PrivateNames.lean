import Termwise.Proofs.Hosts

/-! Private names of a target. The bridge asks its target for no name that starts with a low line,
and a run asks the host only through the bridge. So two targets that differ in private names alone
are one and the same to every use of the bridge and to every run. -/
namespace Termwise

variable {σ : Type}

namespace Host

/-- The targets answer alike to every name that does not start with a low line. -/
def Target.AgreeInPublic (first second : Target σ) : Prop :=
  ∀ name : String, name.toList.head? ≠ some '_' → second name = first name

namespace Bridge

variable {b : Bridge σ} {first second : Target σ}

def withTarget (b : Bridge σ) (target : Target σ) : Bridge σ := { b with target := some target }

theorem askTarget_of_agree (agree : first.AgreeInPublic second) :
    (b.withTarget second).askTarget = (b.withTarget first).askTarget := by
  funext name host
  by_cases hidden : isPrivate name = true
  · simp only [askTarget, withTarget, hidden, if_true]
  · have visible : name.toList.head? ≠ some '_' := by simpa [isPrivate] using hidden
    simp only [askTarget, withTarget, hidden, agree name visible]

theorem function?_of_agree (agree : first.AgreeInPublic second) :
    (b.withTarget second).function? = (b.withTarget first).function? := by
  funext name host
  unfold function?
  rw [askTarget_of_agree agree]
  rfl

theorem hasFunction_of_agree (agree : first.AgreeInPublic second) :
    (b.withTarget second).hasFunction = (b.withTarget first).hasFunction := by
  funext name host
  unfold hasFunction
  rw [function?_of_agree agree]

theorem hasProperty_of_agree (agree : first.AgreeInPublic second) :
    (b.withTarget second).hasProperty = (b.withTarget first).hasProperty := by
  funext name host
  unfold hasProperty
  rw [askTarget_of_agree agree]
  rfl

theorem call_of_agree (agree : first.AgreeInPublic second) :
    (b.withTarget second).call = (b.withTarget first).call := by
  funext name args host
  unfold call
  rw [function?_of_agree agree]

theorem read_of_agree (agree : first.AgreeInPublic second) :
    (b.withTarget second).read = (b.withTarget first).read := by
  funext name host
  unfold read
  rw [askTarget_of_agree agree]
  rfl

end Bridge

theorem Target.AgreeInPublic.logged {first second : Target σ} {ε : Type}
    (agree : first.AgreeInPublic second) (book : Logbook σ ε) :
    (first.logged book).AgreeInPublic (second.logged book) := by
  intro name visible
  unfold Target.logged
  rw [agree name visible]

end Host

namespace Machine

variable {setup : Setup σ} {b : Host.Bridge σ}

/-- Evaluation uses the bridge to call and to read, and for nothing else. -/
theorem meaning_bridge (call : b.call = setup.bridge.call) (read : b.read = setup.bridge.read) :
    meaning { setup with bridge := b } = meaning setup := by
  have operand : operandValue { setup with bridge := b } = operandValue setup := by
    unfold operandValue
    rw [read]
  have named : callByName { setup with bridge := b } = callByName setup := by
    unfold callByName
    rw [call]
  have performed : perform { setup with bridge := b } = perform setup := by
    unfold perform
    rw [named]
    rfl
  unfold meaning
  rw [operand, performed]

theorem tick_bridge (call : b.call = setup.bridge.call) (read : b.read = setup.bridge.read) :
    tick { setup with bridge := b } = tick setup := by
  have executed : execute { setup with bridge := b } = execute setup := by
    unfold execute
    rw [meaning_bridge call read]
  have entered : enter { setup with bridge := b } = enter setup := by
    unfold enter
    rw [executed]
    rfl
  have stepped : stepLine { setup with bridge := b } = stepLine setup := by
    unfold stepLine
    rw [entered]
    rfl
  unfold tick
  rw [stepped]
  rfl

theorem loop_bridge (call : b.call = setup.bridge.call) (read : b.read = setup.bridge.read)
    (cap : Nat) (s : Machine σ) : loop { setup with bridge := b } cap s = loop setup cap s := by
  induction cap generalizing s with
  | zero => rfl
  | succ cap ih =>
    unfold loop
    rw [tick_bridge call read]
    rcases tick setup s with ⟨f | _ | result, t⟩
    · rfl
    · exact ih t
    · rfl

end Machine

/-- Bridges that call and read alike give the same runs. -/
theorem Session.run_bridge (setup : Setup σ) {b : Host.Bridge σ} (call : b.call = setup.bridge.call)
    (read : b.read = setup.bridge.read) (maxSteps : Int) (s : Session σ) :
    s.run { setup with bridge := b } maxSteps = s.run setup maxSteps := by
  unfold run
  rw [Machine.loop_bridge call read]
  rfl

def Setup.withTarget (setup : Setup σ) (target : Host.Target σ) : Setup σ :=
  { setup with bridge := setup.bridge.withTarget target }

theorem Setup.recorded_withTarget (setup : Setup σ) (target : Host.Target σ) :
    (setup.withTarget target).recorded = setup.recorded.withTarget (target.logged .ofCalls) := rfl

theorem Session.run_withTarget {first second : Host.Target σ} (agree : first.AgreeInPublic second)
    (setup : Setup σ) (maxSteps : Int) (s : Session σ) :
    s.run (setup.withTarget second) maxSteps = s.run (setup.withTarget first) maxSteps :=
  run_bridge (setup.withTarget first) (Host.Bridge.call_of_agree agree)
    (Host.Bridge.read_of_agree agree) maxSteps s

/-- Private names of the target are out of reach. Targets that agree on all other names give the
same run, with the same result or fault and the same session after it, and the same calls of host
functions; and for every name they give the same answers to a call, a read, and the questions
whether there is such a function or such a property. -/
theorem Session.run_private_unreachable (setup : Setup σ) (first second : Host.Target σ)
    (agree : first.AgreeInPublic second) (maxSteps : Int) (s : Session σ) :
    s.run (setup.withTarget second) maxSteps = s.run (setup.withTarget first) maxSteps ∧
    s.hostCalls (setup.withTarget second) maxSteps = s.hostCalls (setup.withTarget first) maxSteps ∧
    ∀ (b : Host.Bridge σ) (name : String) (host : σ),
      (∀ args, (b.withTarget second).call name args host =
        (b.withTarget first).call name args host) ∧
      (b.withTarget second).read name host = (b.withTarget first).read name host ∧
      (b.withTarget second).hasFunction name host = (b.withTarget first).hasFunction name host ∧
      (b.withTarget second).hasProperty name host = (b.withTarget first).hasProperty name host := by
  refine ⟨run_withTarget agree setup maxSteps s, ?_, ?_⟩
  · unfold hostCalls
    rw [Setup.recorded_withTarget, Setup.recorded_withTarget,
      run_withTarget (agree.logged .ofCalls)]
  · intro b name host
    refine ⟨fun args => ?_, ?_, ?_, ?_⟩
    · rw [Host.Bridge.call_of_agree agree]
    · rw [Host.Bridge.read_of_agree agree]
    · rw [Host.Bridge.hasFunction_of_agree agree]
    · rw [Host.Bridge.hasProperty_of_agree agree]

/-- One target has a private number, the other fails when it is asked for it. The program reads the
number and calls it, and finds neither. -/
theorem Session.run_private_unreachable_secret :
    let first : Host.Target Unit := fun name host =>
      (if name = "speed" then .found (.value (.int 3))
        else if name = "_key" then .found (.value (.int 5)) else .absent, host)
    let second : Host.Target Unit := fun name host =>
      (if name = "speed" then .found (.value (.int 3))
        else if name = "_key" then .failed (.ordinary "locked") else .absent, host)
    let rows : List (List Term) :=
      [[{ kind := .assignment, name := some "assign", argCount := 1, index := some 0 },
          { kind := .property, name := some "speed" }],
        [{ kind := .assignment, name := some "assign", argCount := 1, index := some 1 },
          { kind := .function, name := some "add", argCount := 2 },
          { kind := .property, name := some "_key" }, { kind := .function, name := some "_key" }]]
    let setup : Setup Unit := { lines := Program.ofTerms rows, bridge := {} }
    let s : Session Unit := { registers := ⟨[1.0, 1.0]⟩, host := () }
    first.AgreeInPublic second ∧ (second "_key" ()).1 = .failed (.ordinary "locked") ∧
      (s.run (setup.withTarget second) 10).1.toOption = some ⟨2, false⟩ ∧
      (s.run (setup.withTarget second) 10).2.registers.values = [3.0, 0.0] := by
  intro first second rows setup s
  have agree : first.AgreeInPublic second := by
    intro name visible
    funext host
    have other : name ≠ "_key" := by
      rintro rfl
      exact visible rfl
    simp only [first, second, if_neg other]
  have same := (s.run_private_unreachable setup first second agree 10).1
  refine ⟨agree, rfl, ?_, ?_⟩
  · rw [same]
    decide +kernel
  · rw [same]
    decide +kernel

end Termwise
