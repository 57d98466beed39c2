import Mathlib.Logic.Relation
import Termwise.Machine.Run
import Termwise.Proofs.Execution

/-! Steps of a run. A step that goes on is opened once into what stepping its line can do and what
follows when the program counter has left the program; invariants of runs are then carried from step
to step. -/
namespace Termwise

variable {σ : Type}

namespace Machine

variable {setup : Setup σ} {indent : Option Nat} {settled : Bool} {line : Line} {s t u : Machine σ}

section Fields

variable (setup : Setup σ) (indent : Option Nat) (rule : Rule) (s : Machine σ)

@[simp] theorem pc_log : (log setup indent rule s).pc = s.pc := by unfold log; split <;> rfl

@[simp] theorem previous_log : (log setup indent rule s).previous = s.previous :=
  by unfold log; split <;> rfl

@[simp] theorem blocks_log : (log setup indent rule s).blocks = s.blocks :=
  by unfold log; split <;> rfl

@[simp] theorem settled_log : (log setup indent rule s).settled = s.settled :=
  by unfold log; split <;> rfl

@[simp] theorem store_log : (log setup indent rule s).store = s.store :=
  by unfold log; split <;> rfl

@[simp] theorem steps_log : (log setup indent rule s).steps = s.steps :=
  by unfold log; split <;> rfl

@[simp] theorem pc_restart : (restart setup indent s).pc = s.pc := by simp [restart]

@[simp] theorem previous_restart : (restart setup indent s).previous = none := by simp [restart]

@[simp] theorem blocks_restart : (restart setup indent s).blocks = s.blocks := by simp [restart]

@[simp] theorem steps_restart : (restart setup indent s).steps = s.steps := by simp [restart]

@[simp] theorem store_restart : (restart setup indent s).store = s.store := store_log ..

@[simp] theorem steps_close : (s.close indent).2.steps = s.steps := by
  unfold close
  split
  · rfl
  · split
    · rfl
    · split <;> rfl

@[simp] theorem trace_close : (s.close indent).2.trace = s.trace := by
  unfold close
  split
  · rfl
  · split
    · rfl
    · split <;> rfl

end Fields

/-- A step that does not end the run. -/
def Ticks (setup : Setup σ) (s u : Machine σ) : Prop := tick setup s = (.ok none, u)

theorem ticks_of_ok (goes : (tick setup s).1 = .ok none) : Ticks setup s (tick setup s).2 :=
  Prod.ext goes rfl

/-- The states at the head of the step loop, whatever the cap. -/
def Reaches (setup : Setup σ) : Machine σ → Machine σ → Prop := Relation.ReflTransGen (Ticks setup)

theorem close_again (closed : s.close indent = (some .again, t)) :
    ∃ block, s.blocks = block :: t.blocks ∧ Indent.below block.indent indent = false ∧
      block.kind = .loop ∧
      t = { s with blocks := t.blocks, pc := block.opener } := by
  unfold close at closed
  split at closed
  · cases closed
  next block outer stack =>
    split at closed
    · cases closed
    next above =>
      split at closed
      · obtain ⟨-, rfl⟩ := Prod.mk.inj closed
        exact ⟨block, stack, by simpa using above, ‹_›, rfl⟩
      · cases closed

theorem close_done (closed : s.close indent = (some .done, t)) :
    ∃ block, s.blocks = block :: t.blocks ∧ Indent.below block.indent indent = false ∧
      block.kind ≠ .loop ∧
      t = { s with blocks := t.blocks } := by
  unfold close at closed
  split at closed
  · cases closed
  next block outer stack =>
    split at closed
    · cases closed
    next above =>
      split at closed
      · cases closed
      · obtain ⟨-, rfl⟩ := Prod.mk.inj closed
        exact ⟨block, stack, by simpa using above, ‹_›, rfl⟩

theorem close_none (closed : s.close indent = (none, t)) : t = s := by
  unfold close at closed
  split at closed
  · exact (Prod.mk.inj closed).2.symm
  · split at closed
    · exact (Prod.mk.inj closed).2.symm
    · split at closed <;> cases closed

/-- A line is stepped in one of two ways: it closes a loop and is not executed, or it is executed,
after a block that is no loop may have been closed. -/
theorem stepLine_cases (setup : Setup σ) (line : Line) (s : Machine σ) :
    (∃ t, dedents line.indent s.previous = true ∧ s.close line.indent = (some .again, t) ∧
      stepLine setup line s = (.ok (), restart setup line.indent { t with settled := false })) ∨
    ∃ settled t, (t = s ∨ s.close line.indent = (some .done, t)) ∧
      stepLine setup line s = enter setup line settled t := by
  unfold stepLine
  by_cases dedent : dedents line.indent s.previous = true
  · rw [if_pos dedent]
    rcases closed : s.close line.indent with ⟨_ | _ | _, t⟩
    · exact .inr ⟨t.settled, t, .inl (close_none closed), rfl⟩
    · exact .inl ⟨t, dedent, rfl, rfl⟩
    · exact .inr ⟨true, t, .inr rfl, rfl⟩
  · rw [if_neg dedent]
    exact .inr ⟨s.settled, s, .inl rfl, rfl⟩

theorem enter_cases (entered : enter setup line settled s = (.ok (), t)) :
    (∃ u, (execute setup line settled).run
      (log setup line.indent .line { s with settled := false }) = (.ok (), u) ∧
      t = { u with previous := line.indent, pc := u.pc + 1 }) ∨
    ∃ u, (execute setup line settled).run
      (log setup line.indent .line { s with settled := false }) =
        (.error .jump, u) ∧
      t = log setup line.indent .jump { u with previous := none } := by
  unfold enter at entered
  split at entered
  next u ran => exact .inl ⟨u, ran, (Prod.mk.inj entered).2.symm⟩
  next u ran => exact .inr ⟨u, ran, (Prod.mk.inj entered).2.symm⟩
  next => cases entered

/-- A step that goes on has stepped its line; when that led out of the program, it has closed a
loop. -/
theorem ticks_cases (ticked : Ticks setup s u) :
    ∃ line t, setup.lines[s.pc]? = some line ∧ stepLine setup line s = (.ok (), t) ∧
      ((t.pc < setup.lines.length ∧ u = { t with steps := t.steps + 1 }) ∨
        (setup.lines.length ≤ t.pc ∧
          ∃ v, close (some 0) { t with steps := t.steps + 1 } = (some .again, v) ∧
          u = restart setup (some 0) v)) := by
  unfold Ticks tick at ticked
  split at ticked
  · cases ticked
  next line found =>
    split at ticked
    · cases ticked
    next t stepped =>
      refine ⟨line, t, found, stepped, ?_⟩
      dsimp only at ticked
      split at ticked
      next inside => exact .inl ⟨inside, (Prod.mk.inj ticked).2.symm⟩
      next outside =>
        split at ticked
        next v closed => exact .inr ⟨by simpa using outside, v, closed, (Prod.mk.inj ticked).2.symm⟩
        next => cases ticked

/-- With enough steps to go, the run comes to its end and is not stopped by the cap. -/
def Finishes (setup : Setup σ) (s : Machine σ) : Prop :=
  ∃ cap n u, loop setup cap s = (.ok ⟨n, false⟩, u)

theorem Finishes.cases (finishes : Finishes setup s) :
    (∃ u, Ticks setup s u ∧ Finishes setup u) ∨
      ∃ result u, tick setup s = (.ok (some result), u) := by
  obtain ⟨cap, n, u, ran⟩ := finishes
  cases cap with
  | zero => cases ran
  | succ cap =>
    unfold loop at ran
    split at ran
    · cases ran
    next result v ended => exact .inr ⟨result, v, ended⟩
    next v ticked => exact .inl ⟨v, ticked, cap, n, u, ran⟩

theorem Finishes.reaches (finishes : Finishes setup s) (path : Reaches setup s t) :
    Finishes setup t := by
  induction path with
  | refl => exact finishes
  | tail _ ticked ih =>
    obtain ⟨u, other, finishes⟩ | ⟨result, u, ended⟩ := ih.cases
    · cases ticked.symm.trans other
      exact finishes
    · cases ticked.symm.trans ended

/-- The last step of a run has led out of the program and has closed no loop there. -/
theorem tick_ends {result : Result} (ended : tick setup s = (.ok (some result), u)) :
    ∃ line t, setup.lines[s.pc]? = some line ∧ stepLine setup line s = (.ok (), t) ∧
      setup.lines.length ≤ t.pc ∧ u = (close (some 0) { t with steps := t.steps + 1 }).2 ∧
      result = ⟨u.steps, false⟩ := by
  unfold tick at ended
  split at ended
  · cases ended
  next line found =>
    split at ended
    · cases ended
    next t stepped =>
      refine ⟨line, t, found, stepped, ?_⟩
      dsimp only at ended
      split at ended
      · cases ended
      next outside =>
        split at ended
        · cases ended
        next v _ closed =>
          cases ended
          exact ⟨by simpa using outside, by rw [closed], rfl⟩

theorem Reaches.total (first : Reaches setup s t) (second : Reaches setup s u) :
    Reaches setup t u ∨ Reaches setup u t := by
  refine Relation.ReflTransGen.total_of_right_unique ?_ first second
  intro a b c ticked other
  cases ticked.symm.trans other
  rfl

section Preservation

variable {P : Registers → σ → Prop}

theorem log_keeps {rule : Rule} (holds : P s.registers s.host) :
    P (log setup indent rule s).registers (log setup indent rule s).host := by
  unfold log
  split <;> exact holds

theorem close_keeps (indent : Option Nat) (holds : P s.registers s.host) :
    P (s.close indent).2.registers (s.close indent).2.host := by
  rcases closed : s.close indent with ⟨_ | _ | _, t⟩
  · exact close_none closed ▸ holds
  · obtain ⟨_, -, -, -, same⟩ := close_again closed
    exact same ▸ holds
  · obtain ⟨_, -, -, -, same⟩ := close_done closed
    exact same ▸ holds

/-- Executing a line of the program keeps a property of registers and host. -/
def ExecutionKeeps (setup : Setup σ) (P : Registers → σ → Prop) : Prop :=
  ∀ line ∈ setup.lines, ∀ settled (s : Machine σ), P s.registers s.host →
    P ((execute setup line settled).run s).2.registers ((execute setup line settled).run s).2.host

/-- What reading operands and performing calls keep is kept by executing a line. -/
theorem executionKeeps_of_terms
    (operand : ∀ line ∈ setup.lines, ∀ t ∈ Expr.termsOf line.calls, ∀ s : Machine σ,
      P s.registers s.host → P ((operandValue setup t).run s).2.registers
        ((operandValue setup t).run s).2.host)
    (called : ∀ line ∈ setup.lines, ∀ t ∈ Expr.headsOf line.calls, ∀ indent settled args,
      ∀ s : Machine σ, P s.registers s.host →
        P ((perform setup indent settled t args).run s).2.registers
          ((perform setup indent settled t args).run s).2.host) : ExecutionKeeps setup P := by
  intro line member settled s holds
  have lifted {c : Exec σ Float}
      (kept : ∀ s : Machine σ, P s.registers s.host → P (c.run s).2.registers (c.run s).2.host)
      (s : Machine σ) (holds : P s.registers s.host) :
      Keeps (fun s => P s.registers s.host) (fun _ s => P s.registers s.host)
      (fun _ => True) c s := by
    have after := kept s holds
    constructor
    · intro x t ran
      rw [ran] at after
      exact ⟨trivial, after⟩
    · intro e t ran
      rwa [ran] at after
  have keeps : Keeps (fun s => P s.registers s.host) (fun _ s => P s.registers s.host)
      (fun _ => True) (execute setup line settled) s := by
    apply (Keeps.lockstep _ _).evalAll_related (N := meaning setup line.indent settled)
      (V := fun _ => True)
    · intro t part
      exact lifted (operand line member t part)
    · intro t part args _
      exact lifted (called line member t part line.indent settled args)
    · exact holds
  rcases outcome : (execute setup line settled).run s with ⟨e | _, t⟩
  · exact keeps.interrupt e t outcome
  · exact (keeps.value _ t outcome).2

theorem tick_keeps (executes : ExecutionKeeps setup P) (holds : P s.registers s.host) :
    P (tick setup s).2.registers (tick setup s).2.host := by
  have enters : ∀ line ∈ setup.lines, ∀ settled (s : Machine σ), P s.registers s.host →
      P (enter setup line settled s).2.registers (enter setup line settled s).2.host := by
    intro line member settled s holds
    have after := executes line member settled
      (log setup line.indent .line { s with settled := false }) (log_keeps holds)
    unfold enter
    split
    next ran => simpa only [ran] using after
    next ran => exact log_keeps (by simpa only [ran] using after)
    next ran => simpa only [ran] using after
  unfold tick
  split
  · exact holds
  next line found =>
    have stepped : P (stepLine setup line s).2.registers (stepLine setup line s).2.host := by
      have member := List.mem_of_getElem? found
      obtain ⟨t, -, closed, step⟩ | ⟨settled, t, before, step⟩ := stepLine_cases setup line s
      · rw [step]
        exact log_keeps (by simpa only [closed] using close_keeps line.indent holds)
      · rw [step]
        refine enters line member settled t ?_
        rcases before with rfl | closed
        · exact holds
        · simpa only [closed] using close_keeps line.indent holds
    split
    next ran => simpa only [ran] using stepped
    next t ran =>
      rw [ran] at stepped
      dsimp only
      split
      · exact stepped
      · have closing : P (close (some 0) { t with steps := t.steps + 1 }).2.registers
            (close (some 0) { t with steps := t.steps + 1 }).2.host := close_keeps _ stepped
        split
        next closed => exact log_keeps (by simpa only [closed] using closing)
        next closed => simpa only [closed] using closing

theorem reaches_keeps (executes : ExecutionKeeps setup P) (holds : P s.registers s.host)
    (path : Reaches setup s t) : P t.registers t.host := by
  induction path with
  | refl => exact holds
  | tail _ ticked ih => simpa only [show tick setup _ = _ from ticked] using tick_keeps executes ih

theorem loop_keeps (executes : ExecutionKeeps setup P) (cap : Nat) (holds : P s.registers s.host) :
    P (loop setup cap s).2.registers (loop setup cap s).2.host := by
  induction cap generalizing s with
  | zero => exact log_keeps holds
  | succ cap ih =>
    have stepped := tick_keeps executes holds
    unfold loop
    split
    next ran => simpa only [ran] using stepped
    next ran => simpa only [ran] using stepped
    next ran => exact ih (by simpa only [ran] using stepped)

end Preservation

end Machine

section Start

variable (setup : Setup σ) (s : Session σ)

@[simp] theorem Session.start_pc : (s.start setup).pc = 0 := by unfold start; split <;> rfl

@[simp] theorem Session.start_previous : (s.start setup).previous = some 0 :=
  by unfold start; split <;> rfl

@[simp] theorem Session.start_blocks : (s.start setup).blocks = [] := by unfold start; split <;> rfl

@[simp] theorem Session.start_settled : (s.start setup).settled = false :=
  by unfold start; split <;> rfl

@[simp] theorem Session.start_store : (s.start setup).store = s.store :=
  by unfold start; split <;> rfl

end Start

theorem Session.run_loop {setup : Setup σ} {maxSteps : Int} {s t : Session σ}
    {result : Except Fault Result} (content : setup.lines ≠ [])
    (ran : s.run setup maxSteps = (result, t)) :
    ∃ u, Machine.loop setup maxSteps.toNat (s.start setup) = (result, u) ∧ u.toSession = t := by
  rw [Session.run, if_neg (by simpa using content)] at ran
  rcases looped : Machine.loop setup maxSteps.toNat (s.start setup) with ⟨other, u⟩
  rw [looped] at ran
  obtain ⟨rfl, rfl⟩ := Prod.mk.inj ran
  exact ⟨u, rfl, rfl⟩

theorem Session.run_keeps {setup : Setup σ} {P : Registers → σ → Prop} {s : Session σ}
    (executes : Machine.ExecutionKeeps setup P) (maxSteps : Int) (holds : P s.registers s.host) :
    P (s.run setup maxSteps).2.registers (s.run setup maxSteps).2.host := by
  unfold Session.run
  split
  · exact holds
  · refine Machine.loop_keeps executes maxSteps.toNat ?_
    unfold Session.start
    split <;> exact holds

end Termwise
