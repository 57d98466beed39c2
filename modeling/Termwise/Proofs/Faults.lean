import Mathlib.Algebra.Group.Int.Defs
import Termwise.Proofs.FlowStack

/-! What can end a run early. Lines, operators and arguments are there when they are asked for, no
number is divided by zero, and a jump ends its line only. So a run gives a result, unless the host
answers a call or a read of the program with a fault, and then the run ends in the state in which
the host is left. -/
namespace Termwise

variable {σ : Type}

namespace Host.Bridge

variable {b : Bridge σ} {calls reads : String → Prop} {f : Fault} {after : σ}

/-- The host answers with the fault, and is left in this state, when one of these functions is
called or one of these properties is read. -/
inductive Ends (b : Bridge σ) (calls reads : String → Prop) (f : Fault) (after : σ) : Prop
  | call {name : String} {args : List Float} {host : σ} (named : calls name)
    (failed : b.call name args host = (.error f, after)) : Ends b calls reads f after
  | read {name : String} {host : σ} (named : reads name)
      (failed : b.read name host = (.error f, after)) :
    Ends b calls reads f after

theorem Ends.mono {calls' reads' : String → Prop} (ends : b.Ends calls reads f after)
    (called : ∀ name, calls name → calls' name) (read : ∀ name, reads name → reads' name) :
    b.Ends calls' reads' f after := by
  cases ends with
  | call named failed => exact .call (called _ named) failed
  | read named failed => exact .read (read _ named) failed

/-- Every call and every read is answered with a number. -/
structure Answers (b : Bridge σ) : Prop where
  call : ∀ name args host, ∃ reply, (b.call name args host).1 = .ok reply
  read : ∀ name host, ∃ reply, (b.read name host).1 = .ok reply

theorem Answers.not_ends (answers : b.Answers) : ¬b.Ends calls reads f after := by
  intro ends
  cases ends with
  | @call name args host _ failed =>
    obtain ⟨reply, answered⟩ := answers.call name args host
    rw [failed] at answered
    cases answered
  | @read name host _ failed =>
    obtain ⟨reply, answered⟩ := answers.read name host
    rw [failed] at answered
    cases answered

end Host.Bridge

namespace Line

/-- A call on the line has the name. -/
def CallsName (line : Line) (name : String) : Prop :=
  ∃ t ∈ Expr.headsOf line.calls, t.nameText = name

/-- A property that a call on the line takes has the name. -/
def ReadsName (line : Line) (name : String) : Prop :=
  ∃ t ∈ Expr.termsOf line.calls, t.kind = .property ∧ t.nameText = name

end Line

namespace Number

theorem quotient_ok (a b : Float) : ∃ x, quotient a b = .ok x := by
  unfold quotient divided
  split <;> exact ⟨_, rfl⟩

theorem remainder_ok (a b : Float) : ∃ x, remainder a b = .ok x := by
  unfold remainder divided
  split <;> exact ⟨_, rfl⟩

end Number

theorem Operator.eval_ok (op : Operator) (args : List Float) : ∃ x, op.eval args = .ok x := by
  unfold Operator.eval
  cases op with
  | div => exact Number.quotient_ok _ _
  | mod => exact Number.remainder_ok _ _
  | _ => exact ⟨_, rfl⟩

theorem Assignment.combine_ok (a : Assignment) (current x : Float) :
    ∃ y, a.combine current x = .ok y := by
  cases a with
  | div => exact Number.quotient_ok current x
  | mod => exact Number.remainder_ok current x
  | _ => exact ⟨_, rfl⟩

/-- The zero behind the arguments stands in for an operand that is missing. -/
theorem Assignment.eval_ok (a : Assignment) (current : Float) (args : List Float) :
    ∃ y, a.eval current (args ++ [0.0]) = .ok y := by
  have operand : ∃ x, a.eval current (args ++ [0.0]) = a.combine current x := by
    cases args <;> cases a <;> exact ⟨_, rfl⟩
  obtain ⟨x, same⟩ := operand
  rw [same]
  exact a.combine_ok current x

namespace Machine

variable {setup : Setup σ} {indent : Option Nat} {settled : Bool} {line : Line}
  {s t : Machine σ} {f : Fault}

def Excused (b : Host.Bridge σ) (line : Line) : Interrupt → Machine σ → Prop
  | .jump, _ => True
  | .fault f, s => b.Ends line.CallsName line.ReadsName f s.host

/-- A computation that faults only where the host does, when it is used as the line uses it. -/
abbrev Safe {α : Type} (setup : Setup σ) (line : Line) (c : Exec σ α) (s : Machine σ) : Prop :=
  Keeps (fun _ => True) (Excused setup.bridge line) (fun _ => True) c s

theorem askHost_safe {use : σ → Except Fault Host.Reply × σ}
    (ends : ∀ f host after, use host = (.error f, after) →
      setup.bridge.Ends line.CallsName line.ReadsName f after) (s : Machine σ) :
    Safe setup line (askHost use) s := by
  have ran := askHost_run use s
  rcases used : use s.host with ⟨f | reply, host⟩
  · rw [used] at ran
    exact .of_error ran (ends f s.host host used)
  · rw [used] at ran
    exact .of_ok ran trivial trivial

theorem operandValue_safe {t : Term} (member : t ∈ Expr.termsOf line.calls) (s : Machine σ) :
    Safe setup line (operandValue setup t) s := by
  by_cases kind : t.kind = .property
  · have asked : (operandValue setup t).run s = (askHost (setup.bridge.read t.nameText)).run s := by
      rw [operandValue_run, kind]
    have safe : Safe setup line (askHost (setup.bridge.read t.nameText)) s :=
      askHost_safe (fun f host after failed => .read ⟨t, member, kind, rfl⟩ failed) s
    exact ⟨fun x u ran => safe.value x u (asked ▸ ran),
      fun e u ran => safe.interrupt e u (asked ▸ ran)⟩
  · obtain ⟨x, ran⟩ := operandValue_ok kind setup s
    exact .of_ok ran trivial trivial

theorem assign_safe (a : Assignment) (index : Int) (args : List Float) (s : Machine σ) :
    Safe setup line (assign a index args) s := by
  obtain ⟨y, value⟩ := a.eval_ok (s.registers.get (some index)) args
  have ran := assign_run a index args s
  rw [value] at ran
  exact .of_ok ran trivial trivial

theorem callByName_safe {name : String} (named : line.CallsName name) (args : List Float)
    (s : Machine σ) : Safe setup line (callByName setup name args) s := by
  unfold callByName
  split
  next builtin =>
    obtain ⟨op, known⟩ := Option.isSome_iff_exists.mp builtin
    obtain ⟨x, value⟩ := op.eval_ok args
    have invoked : Operator.invoke name args = .ok x := by rw [Operator.invoke, known]; exact value
    rw [invoked]
    exact .of_ok (Exec.run_pure _ s) trivial trivial
  next => exact askHost_safe (fun f host after failed => .call named failed) s

theorem performFlow_safe (indent : Option Nat) (settled : Bool) (keyword : Option Flow)
    (args : List Float) (s : Machine σ) :
    Safe setup line (performFlow setup indent settled keyword args) s := by
  have possible := performFlow_outcome setup indent settled keyword args s
  generalize outcome : (performFlow setup indent settled keyword args).run s = result at possible
  cases possible with
  | idle => exact .of_ok outcome trivial trivial
  | opened => exact .of_ok outcome trivial trivial
  | skipped => exact .of_error outcome trivial
  | left => exact .of_error outcome trivial

theorem perform_safe {t : Term} (member : t ∈ Expr.headsOf line.calls) (indent : Option Nat)
    (settled : Bool) (args : List Float) (s : Machine σ) :
    Safe setup line (perform setup indent settled t args) s := by
  have named : line.CallsName t.nameText := ⟨t, member, rfl⟩
  unfold perform
  split
  · exact performFlow_safe indent settled _ args s
  · split
    · exact assign_safe _ _ args s
    · exact callByName_safe named args s
  · exact callByName_safe named args s

theorem execute_safe (setup : Setup σ) (line : Line) (settled : Bool) (s : Machine σ) :
    Safe setup line (execute setup line settled) s := by
  refine (Keeps.lockstep _ _).evalAll_related (N := meaning setup line.indent settled)
    (V := fun _ => True) line.calls ?_ ?_ s trivial
  · intro t member s _
    exact operandValue_safe member s
  · intro t member args _ s _
    exact perform_safe member line.indent settled args s

theorem enter_error (faulted : enter setup line settled s = (.error f, t)) :
    setup.bridge.Ends line.CallsName line.ReadsName f t.host := by
  unfold enter at faulted
  split at faulted
  · cases faulted
  · cases faulted
  next g u ran =>
    cases faulted
    exact (execute_safe setup line settled _).interrupt _ _ ran

theorem stepLine_error (faulted : stepLine setup line s = (.error f, t)) :
    setup.bridge.Ends line.CallsName line.ReadsName f t.host := by
  obtain ⟨u, -, -, step⟩ | ⟨settled, u, -, step⟩ := stepLine_cases setup line s
  · rw [step] at faulted
    cases faulted
  · rw [step] at faulted
    exact enter_error faulted

/-- The fault of a run is one of the host, when it is used as some line of the program uses it. -/
abbrev HostEnds (setup : Setup σ) (f : Fault) (after : σ) : Prop :=
  setup.bridge.Ends (fun name => ∃ line ∈ setup.lines, line.CallsName name)
    (fun name => ∃ line ∈ setup.lines, line.ReadsName name) f after

theorem tick_error (inside : s.pc < setup.lines.length) (faulted : tick setup s = (.error f, t)) :
    HostEnds setup f t.host := by
  unfold tick at faulted
  split at faulted
  next missing => exact absurd inside (Nat.not_lt.mpr (List.getElem?_eq_none_iff.mp missing))
  next line found =>
    have member := List.mem_of_getElem? found
    split at faulted
    next g u stepped =>
      cases faulted
      exact (stepLine_error stepped).mono (fun _ named => ⟨line, member, named⟩)
        fun _ named => ⟨line, member, named⟩
    next u stepped =>
      dsimp only at faulted
      split at faulted
      · cases faulted
      · split at faulted <;> cases faulted

theorem loop_error
    (indented : ∀ line ∈ setup.lines, ∀ e ∈ line.calls, ∃ level, line.indent = some level)
    (cap : Nat) (sound : Sound setup.lines s) (faulted : loop setup cap s = (.error f, t)) :
    HostEnds setup f t.host := by
  induction cap generalizing s with
  | zero => cases faulted
  | succ cap ih =>
    unfold loop at faulted
    split at faulted
    next g u ended =>
      cases faulted
      exact tick_error sound.inside ended
    next => cases faulted
    next u ticked => exact ih (ticks_sound indented sound ticked).1 faulted

end Machine

namespace Session

variable {rows : List (List Term)} {setup : Setup σ} {maxSteps : Int}
  {s after : Session σ} {f : Fault}

/-- A run ends early only where the host is used, as the program says, and answers with the
fault. -/
theorem run_error (program : setup.lines = Program.ofTerms rows)
    (faulted : s.run setup maxSteps = (.error f, after)) : Machine.HostEnds setup f after.host := by
  by_cases content : setup.lines = []
  · rw [run, if_pos (by simpa using content)] at faulted
    cases faulted
  · obtain ⟨u, looped, rfl⟩ := run_loop content faulted
    refine Machine.loop_error ?_ _ (start_sound content s) looped
    intro line member e called
    exact Program.indented (program ▸ member) called

end Session

end Termwise
