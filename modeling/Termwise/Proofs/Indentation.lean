import Mathlib.Order.Monotone.Basic
import Termwise.Proofs.Hosts

/-! Levels of indentation count only by their order. A run compares levels with one another, and
with zero only from above, where every level ends up; so a program may be indented by other numbers
as long as they are in the same order. -/
namespace Termwise

variable {σ : Type}

/-- The line at another level of indentation. A line without content has no level and keeps none. -/
def Line.reindent (f : Nat → Nat) (line : Line) : Line := { line with indent := line.indent.map f }

def Setup.reindent (f : Nat → Nat) (setup : Setup σ) : Setup σ :=
  { setup with lines := setup.lines.map (Line.reindent f) }

/-- The comparison with zero at the end of a program holds of no level, whatever its number. -/
theorem Renumbering.of_strictMono {f : Nat → Nat} (increasing : StrictMono f) :
    Renumbering (Option.map f) where
  injective := Option.map_injective increasing.injective
  below i j := by
    cases i <;> cases j <;> simp [Indent.below, increasing.lt_iff_lt]
  outermost i := by
    cases i <;> simp [Indent.below]
  dedents i j := by
    cases i <;> cases j <;> simp [Machine.dedents, increasing.lt_iff_lt]

theorem Setup.aligned_reindent (f : Nat → Nat) (setup : Setup σ) :
    Aligned (Option.map f) setup.lines (setup.reindent f).lines := by
  simp [Aligned, Setup.reindent, Line.reindent]

theorem Host.AnswersAlike.refl (b : Host.Bridge σ) : Host.AnswersAlike b b Eq := by
  constructor
  · rintro host _ rfl name args
    exact ⟨rfl, rfl⟩
  · rintro host _ rfl name
    exact ⟨rfl, rfl⟩

/-- The two programs are run side by side on one host. The step logs are left out, since they show
the levels. -/
theorem Setup.reindent_paired {f : Nat → Nat} (increasing : StrictMono f) (setup : Setup σ) :
    Machine.Paired (Option.map f) (Session.Resembles Eq fun _ _ => True) setup
      (setup.reindent f) := by
  refine Machine.paired_of_executes (setup.aligned_reindent f) rfl rfl
    (fun _ _ _ _ _ _ _ _ _ => trivial) ?_
  intro pc first second here there settled s t matched
  obtain rfl : first.reindent f = second := by
    have moved : (setup.reindent f).lines[pc]? = (setup.lines[pc]?).map (Line.reindent f) :=
      List.getElem?_map
    rw [moved, here] at there
    exact Option.some.inj there
  exact Machine.evalAll_paired (.of_strictMono increasing) (setup.aligned_reindent f)
    (.refl setup.bridge) first.indent settled first.calls matched

theorem Session.run_reindent_alike {f : Nat → Nat} (increasing : StrictMono f) (setup : Setup σ)
    (maxSteps : Int) (s : Session σ) :
    Alike (Session.Resembles Eq fun _ _ => True) (fun _ => True) (s.run setup maxSteps)
      (s.run (setup.reindent f) maxSteps) :=
  Session.run_paired (.of_strictMono increasing) (setup.reindent_paired increasing) maxSteps
    ⟨rfl, rfl, trivial⟩ ⟨rfl, rfl, trivial⟩

/-- Levels in the same order give the same result, the same registers, the same calls of host
functions and the same host afterwards. -/
theorem Session.run_reindent (setup : Setup σ) {f : Nat → Nat} (increasing : StrictMono f)
    (maxSteps : Int) (s : Session σ) :
    (s.run (setup.reindent f) maxSteps).1 = (s.run setup maxSteps).1 ∧
    (s.run (setup.reindent f) maxSteps).2.registers = (s.run setup maxSteps).2.registers ∧
    (s.run (setup.reindent f) maxSteps).2.host = (s.run setup maxSteps).2.host ∧
    s.hostCalls (setup.reindent f) maxSteps = s.hostCalls setup maxSteps := by
  obtain ⟨outcome, ⟨registers, host, -⟩, -⟩ := run_reindent_alike increasing setup maxSteps s
  -- The calls are the state of the recording host, which reindenting leaves as it is too.
  have recorded := run_reindent_alike increasing setup.recorded maxSteps s.recorded
  refine ⟨outcome, registers, host.symm, ?_⟩
  exact congrArg (fun kept => kept.2.reverse) recorded.states.host.symm

/-- A loop that calls the host in its body and is followed by a line at the outer level, with the
levels 0 and 1 moved to 2 and 5. -/
theorem Session.run_reindent_loop :
    let rows : List (List Term) :=
      [[{ kind := .flow, name := some "while", argCount := 1 },
          { kind := .function, name := some "lessThan", argCount := 2 },
          { kind := .register, index := some 0 }, .ofNumber 2.0],
        [{ kind := .indent }, { kind := .assignment, name := some "assignInc", index := some 0 },
          { kind := .function, name := some "f", argCount := 1 },
          { kind := .register, index := some 0 }],
        [{ kind := .assignment, name := some "assignInc", index := some 1 }]]
    let functions : Table String (Host.Binding Nat) :=
      [("f", .routine fun args count => (.ok (.float (args.headD 0.0)), count + 1))]
    let setup : Setup Nat := { lines := Program.ofTerms rows, bridge := { functions } }
    let f : Nat → Nat := fun n => 3 * n + 2
    let moved := setup.reindent f
    let s : Session Nat := { registers := .zeros 2, host := 0 }
    StrictMono f ∧ moved.lines.map Line.indent = [some 2, some 5, some 2] ∧
      (s.run moved 20).1.toOption = some ⟨8, false⟩ ∧ (s.run moved 20).2.host = 2 := by
  have increasing : StrictMono fun n => 3 * n + 2 := fun a b less => by dsimp only; omega
  refine ⟨increasing, rfl, ?_, ?_⟩
  · refine (congrArg Except.toOption (run_reindent _ increasing 20 _).1).trans ?_
    decide +kernel
  · refine (run_reindent _ increasing 20 _).2.2.1.trans ?_
    decide +kernel

end Termwise
