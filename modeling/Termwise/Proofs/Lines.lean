import Termwise.Proofs.Keywords
import Termwise.Proofs.Steps

/-! Entering a line that calls no flow keyword, or that holds one keyword and nothing else. What
follows is told by the situation of the machine, which leaves out the step log and the step
count. -/
namespace Termwise

variable {σ : Type}

namespace Line

/-- The line holds a single call, of a keyword, and calls no keyword to find its arguments. -/
structure Holds (line : Line) (keyword : Flow) (level : Nat) : Prop where
  indent : line.indent = some level
  call : ∃ t args, line.calls = [.call t args] ∧ t.kind = .flow ∧
    Flow.ofWord? t.nameText = some keyword ∧
    ∀ e ∈ args, e.FlowFree

def arguments (line : Line) : List Expr :=
  match line.calls with
  | [.call _ args] => args
  | _ => []

/-- Evaluates the condition of a keyword; a keyword without arguments has the condition zero. -/
def condition (bridge : Host.Bridge σ) (line : Line) : Calculation σ Float := do
  let args ← Expr.evalArgs (Store.meaning bridge) line.arguments
  return args.getD 0 0.0

def effect (bridge : Host.Bridge σ) (line : Line) : Calculation σ Unit :=
  Expr.evalAll (Store.meaning bridge) line.calls

end Line

namespace Flow

/-- Whether the block below a keyword is run, given whether its chain has had its branch, and the
condition. -/
def enters (settled : Bool) (x : Float) : Flow → Bool
  | .when | .loop => !(x == 0.0)
  | .orWhen => !(settled || x == 0.0)
  | .otherwise => !settled
  | .leave => false

/-- The keywords that go on with a chain. -/
def continues : Flow → Bool
  | .orWhen | .otherwise => true
  | .when | .loop | .leave => false

end Flow

/-- What decides how a run goes on. -/
structure Situation (σ : Type) where
  pc : Nat
  previous : Option Nat
  blocks : List Block
  settled : Bool
  store : Store σ

namespace Machine

variable {setup : Setup σ} {line : Line} {keyword : Flow} {level : Nat} {settled : Bool}
  {blocks : List Block} {s t : Machine σ}

def situation (s : Machine σ) : Situation σ := ⟨s.pc, s.previous, s.blocks, s.settled, s.store⟩

theorem performFlow_condition (setup : Setup σ) (indent : Option Nat) (settled : Bool)
    (keyword : Option Flow) (args : List Float) :
    performFlow setup indent settled keyword args =
      performFlow setup indent settled keyword [args.getD 0 0.0] :=
  rfl

theorem performFlow_head (heads : keyword ≠ .leave) (indent : Option Nat) (x : Float) :
    performFlow setup indent settled (some keyword) [x] =
      if keyword.enters settled x then openBlock keyword indent
      else skip setup indent (keyword.continues && settled) := by
  cases keyword with
  | leave => contradiction
  | orWhen =>
    cases settled <;> cases zero : x == 0.0 <;>
      simp [performFlow, Flow.enters, Flow.continues, zero]
  | otherwise => cases settled <;> simp [performFlow, Flow.enters, Flow.continues]
  | _ => cases zero : x == 0.0 <;> simp [performFlow, Flow.enters, Flow.continues, zero]

/-- A line that holds a keyword evaluates its condition on the store, which does not jump, and then
performs the keyword. -/
theorem execute_holds (setup : Setup σ) (settled : Bool) (holds : line.Holds keyword level)
    (s : Machine σ) :
    (∃ f store, (line.condition setup.bridge).run s.store = (.error (.fault f), store) ∧
      (execute setup line settled).run s = (.error (.fault f), s.withStore store)) ∨
    ∃ x store, (line.condition setup.bridge).run s.store = (.ok x, store) ∧
      (execute setup line settled).run s =
        (((performFlow setup (some level) settled (some keyword) [x]).run (s.withStore store)).1.map
          fun _ => (),
          ((performFlow setup (some level) settled (some keyword) [x]).run
            (s.withStore store)).2) := by
  obtain ⟨indent, t, args, calls, kind, word, free⟩ := holds
  obtain ⟨run, stays⟩ := Framed.evalArgs setup line.indent settled free s
  have arguments : line.arguments = args := by simp only [Line.arguments, calls]
  simp only [execute, calls, Expr.evalAll, Expr.evalCall_call, Line.condition, arguments,
    Exec.run_bind, run]
  rcases outcome : (Expr.evalArgs (Store.meaning setup.bridge) args).run s.store
    with ⟨(_ | f) | xs, store⟩
  · rw [outcome] at stays
    exact absurd rfl stays
  · exact .inl ⟨f, store, rfl, rfl⟩
  · refine .inr ⟨xs.getD 0 0.0, store, rfl, ?_⟩
    simp only [meaning, perform, kind, word, indent,
      performFlow_condition setup (some level) settled _ xs, Exec.run_pure]
    rcases (performFlow setup (some level) settled (some keyword) [xs.getD 0 0.0]).run
      (s.withStore store) with ⟨e | y, t⟩ <;> rfl

/-- A line is executed from the situation in which it is entered, with the mark of a settled chain
taken away. -/
theorem enter_situation (entered : enter setup line settled s = (.ok (), t)) :
    ∃ r : Machine σ, r.situation = ⟨s.pc, s.previous, s.blocks, false, s.store⟩ ∧
      ((∃ u, (execute setup line settled).run r = (.ok (), u) ∧
          t.situation = ⟨u.pc + 1, line.indent, u.blocks, u.settled, u.store⟩) ∨
        ∃ u, (execute setup line settled).run r = (.error .jump, u) ∧
          t.situation = ⟨u.pc, none, u.blocks, u.settled, u.store⟩) := by
  refine ⟨log setup line.indent .line { s with settled := false }, ?_, ?_⟩
  · simp only [situation, pc_log, previous_log, blocks_log, settled_log, store_log]
  · obtain ⟨u, ran, rfl⟩ | ⟨u, ran, rfl⟩ := enter_cases entered
    · exact .inl ⟨u, ran, rfl⟩
    · refine .inr ⟨u, ran, ?_⟩
      simp only [situation, pc_log, previous_log, blocks_log, settled_log, store_log]

theorem enter_plain (indent : line.indent = some level) (free : line.FlowFree)
    (entered : enter setup line settled s = (.ok (), t)) :
    ∃ store, (line.effect setup.bridge).run s.store = (.ok (), store) ∧
      t.situation = ⟨s.pc + 1, some level, s.blocks, false, store⟩ := by
  obtain ⟨r, same, outcome⟩ := enter_situation entered
  simp only [situation, Situation.mk.injEq] at same
  obtain ⟨pc, -, blocks, unsettled, store⟩ := same
  obtain ⟨run, stays⟩ := Framed.evalAll setup line.indent settled free r
  rw [store] at run stays
  rcases outcome with ⟨u, ran, leads⟩ | ⟨u, ran, -⟩
  · obtain ⟨ended, rfl⟩ := Prod.mk.inj (run.symm.trans ran)
    refine ⟨_, Prod.ext ended rfl, ?_⟩
    rw [leads]
    simp [pc, blocks, unsettled, indent, Line.effect]
  · exact absurd (congrArg Prod.fst (run.symm.trans ran)) stays

/-- A line that holds a keyword evaluates its condition, and then goes on as the keyword says. -/
theorem enter_holds (holds : line.Holds keyword level)
    (entered : enter setup line settled s = (.ok (), t)) :
    ∃ x store, (line.condition setup.bridge).run s.store = (.ok x, store) ∧
      ∃ r : Machine σ, r.situation = ⟨s.pc, s.previous, s.blocks, false, store⟩ ∧
        ((∃ y u, (performFlow setup (some level) settled (some keyword) [x]).run r = (.ok y, u) ∧
            t.situation = ⟨u.pc + 1, some level, u.blocks, u.settled, u.store⟩) ∨
          ∃ u, (performFlow setup (some level) settled (some keyword) [x]).run r =
            (.error .jump, u) ∧
            t.situation = ⟨u.pc, none, u.blocks, u.settled, u.store⟩) := by
  obtain ⟨r, same, outcome⟩ := enter_situation entered
  simp only [situation, Situation.mk.injEq] at same
  obtain ⟨pc, previous, blocks, unsettled, store⟩ := same
  obtain ⟨f, after, -, run⟩ | ⟨x, after, evaluated, run⟩ := execute_holds setup settled holds r
  · rcases outcome with ⟨u, ran, -⟩ | ⟨u, ran, -⟩ <;> cases run.symm.trans ran
  · rw [store] at evaluated
    refine ⟨x, after, evaluated, r.withStore after, ?_, ?_⟩
    · simp [situation, pc, previous, blocks, unsettled]
    · rcases performed : (performFlow setup (some level) settled (some keyword) [x]).run
        (r.withStore after) with ⟨e | y, v⟩
      · rw [performed] at run
        rcases outcome with ⟨u, ran, -⟩ | ⟨u, ran, leads⟩
        · cases run.symm.trans ran
        · cases run.symm.trans ran
          exact .inr ⟨v, rfl, leads⟩
      · rw [performed] at run
        rcases outcome with ⟨u, ran, leads⟩ | ⟨u, ran, -⟩
        · cases run.symm.trans ran
          exact .inl ⟨y, v, rfl, holds.indent ▸ leads⟩
        · cases run.symm.trans ran

theorem enter_head (heads : keyword ≠ .leave) (holds : line.Holds keyword level)
    (entered : enter setup line settled s = (.ok (), t)) :
    ∃ x store, (line.condition setup.bridge).run s.store = (.ok x, store) ∧
      ((keyword.enters settled x = true ∧
          t.situation = ⟨s.pc + 1, some level, ⟨keyword, some level, s.pc⟩ :: s.blocks,
            false, store⟩) ∨
        (keyword.enters settled x = false ∧
          t.situation = ⟨skipBlock setup.lines (some level) s.pc, none, s.blocks,
            (keyword.continues && settled) &&
              (setup.lines[skipBlock setup.lines (some level) s.pc]?.map Line.indent) ==
                some (some level), store⟩)) := by
  obtain ⟨x, store, evaluated, r, same, outcome⟩ := enter_holds holds entered
  simp only [situation, Situation.mk.injEq] at same
  obtain ⟨pc, previous, blocks, unsettled, stored⟩ := same
  refine ⟨x, store, evaluated, ?_⟩
  rw [performFlow_head heads] at outcome
  cases enters : keyword.enters settled x with
  | true =>
    simp only [enters, if_true, openBlock_run] at outcome
    rcases outcome with ⟨y, u, ran, leads⟩ | ⟨u, ran, -⟩
    · cases ran
      refine .inl ⟨rfl, ?_⟩
      rw [leads]
      simp only [pc, blocks, unsettled]
      rw [← stored]
    · cases ran
  | false =>
    simp only [enters, Bool.false_eq_true, if_false, skip_run] at outcome
    rcases outcome with ⟨y, u, ran, -⟩ | ⟨u, ran, leads⟩
    · cases ran
    · cases ran
      refine .inr ⟨rfl, ?_⟩
      rw [leads]
      simp only [pc, blocks, unsettled, Bool.false_or]
      rw [← stored]

theorem enter_leave (holds : line.Holds .leave level)
    (entered : enter setup line settled s = (.ok (), t)) :
    ∃ x store, (line.condition setup.bridge).run s.store = (.ok x, store) ∧
      t.situation = match s.blocks.dropWhile fun block => block.kind ≠ .loop with
        | [] => ⟨s.pc + 1, some level, s.blocks, false, store⟩
        | block :: outer =>
          ⟨skipBlock setup.lines block.indent s.pc, none, outer, false, store⟩ := by
  obtain ⟨x, store, evaluated, r, same, outcome⟩ := enter_holds holds entered
  simp only [situation, Situation.mk.injEq] at same
  obtain ⟨pc, previous, blocks, unsettled, stored⟩ := same
  refine ⟨x, store, evaluated, ?_⟩
  simp only [performFlow, leaveLoop_run, blocks] at outcome
  cases rest : s.blocks.dropWhile fun block => block.kind ≠ .loop with
  | nil =>
    simp only [rest] at outcome
    rcases outcome with ⟨y, u, ran, leads⟩ | ⟨u, ran, -⟩
    · cases ran
      rw [leads]
      simp only [pc, blocks, unsettled, stored]
    · cases ran
  | cons block outer =>
    simp only [rest] at outcome
    rcases outcome with ⟨y, u, ran, -⟩ | ⟨u, ran, leads⟩
    · cases ran
    · cases ran
      rw [leads]
      simp only [pc, unsettled]
      rw [← stored]

/-- The machine is between statements at `level`, with `blocks` around it. Either they are the open
blocks and the line before was no deeper, or the last block of a chain is still open and the next
line closes it, which counts as having had a branch. -/
inductive Between (level : Nat) (blocks : List Block) : Bool → Machine σ → Prop where
  | calm {s : Machine σ} :
      s.blocks = blocks → (∀ before, s.previous = some before → before ≤ level) →
      Between level blocks s.settled s
  | closing {s : Machine σ} {block : Block} {before : Nat} :
      s.blocks = block :: blocks → block.kind ≠ .loop →
      Indent.below block.indent (some level) = false → s.previous = some before → level < before →
      Between level blocks true s

theorem Between.of_line {before : Nat} (stack : s.blocks = blocks)
    (previous : s.previous = some before) (shallow : before ≤ level) :
    Between level blocks s.settled s := by
  refine .calm stack fun other same => ?_
  obtain rfl : before = other := by simpa [previous] using same
  exact shallow

theorem Between.of_jump (stack : s.blocks = blocks) (previous : s.previous = none)
    (mark : s.settled = settled) : Between level blocks settled s := by
  subst mark
  exact .calm stack (by simp [previous])

theorem Between.stepLine (between : Between level blocks settled s)
    (indent : line.indent = some level) :
    stepLine setup line s = enter setup line settled { s with blocks := blocks } := by
  cases between with
  | calm stack shallow =>
    have stays : dedents line.indent s.previous = false := by
      rw [indent]
      cases previous : s.previous with
      | none => rfl
      | some before => exact decide_eq_false (Nat.not_lt.mpr (shallow before previous))
    subst stack
    simp [Machine.stepLine, stays]
  | closing stack kind above previous deeper =>
    have dedent : dedents line.indent s.previous = true := by
      rw [indent, previous]
      exact decide_eq_true deeper
    have closed : s.close line.indent = (some .done, { s with blocks := blocks }) := by
      simp [close, stack, indent, above, kind]
    simp only [Machine.stepLine, dedent, if_true, closed]

end Machine

end Termwise
