import Termwise.Proofs.Keywords
import Termwise.Proofs.Steps

/-! Every number that a machine stores or computes with is finite. NaN and infinities can arise
inside operators, assignments, literals and the host, and each is replaced by zero before it is
stored, returned or passed on. -/
namespace Termwise

variable {σ α β : Type}

namespace Number

theorem zero_isFinite : (0.0 : Float).isFinite = true := by decide

theorem sanitize_isFinite (x : Float) : (sanitize x).isFinite = true := by
  unfold sanitize
  split
  · assumption
  · exact zero_isFinite

@[simp] theorem sanitize_sanitize (x : Float) : sanitize (sanitize x) = sanitize x :=
  if_pos (sanitize_isFinite x)

theorem ofBool_isFinite (b : Bool) : (ofBool b).isFinite = true := by
  cases b <;> decide

end Number

namespace Registers

variable {r : Registers}

def Finite (r : Registers) : Prop := ∀ x ∈ r.values, x.isFinite = true

instance (r : Registers) : Decidable r.Finite :=
  inferInstanceAs (Decidable (∀ x ∈ r.values, x.isFinite = true))

theorem zeros_finite (count : Int) : (zeros count).Finite := by
  intro x member
  rw [List.eq_of_mem_replicate member]
  exact Number.zero_isFinite

theorem reset_finite (r : Registers) : r.reset.Finite := by
  intro x member
  obtain ⟨y, -, rfl⟩ := List.mem_map.mp member
  exact Number.zero_isFinite

theorem Finite.get (finite : r.Finite) (index : Option Int) : (r.get index).isFinite = true := by
  unfold Registers.get
  split
  next i _ =>
    rw [List.getD_eq_getElem?_getD]
    cases found : r.values[i]? with
    | none => exact Number.zero_isFinite
    | some x => exact finite x (List.mem_of_getElem? found)
  next => exact Number.zero_isFinite

theorem Finite.set (finite : r.Finite) (index : Option Int) (x : Float) :
    (r.set index x).Finite := by
  unfold Registers.set
  split
  · intro y member
    rcases List.mem_or_eq_of_mem_set member with old | rfl
    · exact finite y old
    · exact Number.sanitize_isFinite x
  · exact finite

@[simp] theorem set_sanitize (r : Registers) (index : Option Int) (x : Float) :
    r.set index (Number.sanitize x) = r.set index x := by
  unfold Registers.set
  rw [Number.sanitize_sanitize]

end Registers

namespace Machine

variable {setup : Setup σ} {s : Machine σ}

/-- A computation keeps the registers finite, and gives a finite number. -/
def GivesFinite (c : Exec σ Float) : Prop := ∀ s : Machine σ, s.registers.Finite →
  (c.run s).2.registers.Finite ∧ ∀ x, (c.run s).1 = .ok x → x.isFinite = true

theorem askHost_finite (use : σ → Except Fault Host.Reply × σ) : GivesFinite (askHost use) := by
  intro s finite
  rw [askHost_run]
  rcases use s.host with ⟨f | reply, host⟩
  · exact ⟨finite, fun x same => nomatch same⟩
  · exact ⟨finite, fun x same => Except.ok.inj same ▸ Number.sanitize_isFinite _⟩

theorem operandValue_finite (setup : Setup σ) (t : Term) : GivesFinite (operandValue setup t) := by
  intro s finite
  rw [operandValue_run]
  cases t.kind with
  | number | negated =>
    exact ⟨finite, fun x same => Except.ok.inj same ▸ Number.sanitize_isFinite _⟩
  | property => exact askHost_finite _ s finite
  | register => exact ⟨finite, fun x same => Except.ok.inj same ▸ finite.get t.index⟩
  | inverted => exact ⟨finite, fun x same => Except.ok.inj same ▸ Number.ofBool_isFinite _⟩
  | _ => exact ⟨finite, fun x same => Except.ok.inj same ▸ Number.zero_isFinite⟩

theorem assign_finite (a : Assignment) (index : Int) (args : List Float) :
    GivesFinite (assign a index args : Exec σ Float) := by
  intro s finite
  rw [assign_run]
  cases a.eval (s.registers.get (some index)) (args ++ [0.0]) with
  | error f => exact ⟨finite, fun x same => nomatch same⟩
  | ok y => exact ⟨finite.set _ y, fun x same => Except.ok.inj same ▸ Number.sanitize_isFinite y⟩

theorem callByName_finite (setup : Setup σ) (name : String) (args : List Float) :
    GivesFinite (callByName setup name args) := by
  unfold callByName
  split
  · cases Operator.invoke name args with
    | error f => exact fun s finite => ⟨finite, fun x same => nomatch same⟩
    | ok y =>
      exact fun s finite => ⟨finite, fun x same => Except.ok.inj same ▸ Number.sanitize_isFinite y⟩
  · exact askHost_finite _

theorem performFlow_finite (setup : Setup σ) (indent : Option Nat) (settled : Bool)
    (keyword : Option Flow) (args : List Float) :
    GivesFinite (performFlow setup indent settled keyword args) := by
  intro s finite
  have possible := performFlow_outcome setup indent settled keyword args s
  generalize (performFlow setup indent settled keyword args).run s = outcome at possible ⊢
  cases possible with
  | idle | opened => exact ⟨finite, fun x same => Except.ok.inj same ▸ Number.zero_isFinite⟩
  | skipped | left => exact ⟨finite, fun x same => nomatch same⟩

theorem perform_finite (setup : Setup σ) (indent : Option Nat) (settled : Bool) (t : Term)
    (args : List Float) : GivesFinite (perform setup indent settled t args) := by
  unfold perform
  split
  · exact performFlow_finite setup indent settled _ args
  · split
    · exact assign_finite _ _ args
    · exact callByName_finite setup _ args
  · exact callByName_finite setup _ args

section Watching

theorem run_watch_bind (c : OptionT (Exec σ) α) (f : α → OptionT (Exec σ) β) (s : Machine σ) :
    (c >>= f).run.run s = match c.run.run s with
      | (.ok (some a), t) => (f a).run.run t
      | (.ok none, t) => (.ok none, t)
      | (.error e, t) => (.error e, t) := by
  rw [OptionT.run_bind, Option.elimM, Exec.run_bind]
  rcases c.run.run s with ⟨_ | _ | _, t⟩ <;> rfl

theorem run_guard {p : Prop} [Decidable p] (holds : p) (s : Machine σ) :
    (guard p : OptionT (Exec σ) Unit).run.run s = (.ok (some ()), s) := by
  change (if p then pure () else failure : OptionT (Exec σ) Unit).run.run s = _
  rw [if_pos holds]
  rfl

theorem run_plain (c : Exec σ α) (s : Machine σ) :
    (OptionT.lift c).run.run s = ((c.run s).1.map some, (c.run s).2) := by
  change (c >>= fun a => pure (some a)).run s = _
  rw [Exec.run_bind]
  rcases c.run s with ⟨_ | _, t⟩ <;> rfl

/-- Lets a computation give its number only when the registers before it and the number itself are
finite. -/
def watch (c : Exec σ Float) : OptionT (Exec σ) Float := do
  let s ← OptionT.lift (getThe (Machine σ))
  guard s.registers.Finite
  let x ← OptionT.lift c
  guard (x.isFinite = true)
  return x

/-- Evaluation that gives up as soon as it meets a number that is not finite: in a register, among
the arguments of a call, or as the value of an operand or a call. -/
def watched (meaning : Meaning (Exec σ)) : Meaning (OptionT (Exec σ)) where
  operand t := watch (meaning.operand t)
  perform t args := do
    guard (∀ x ∈ args, x.isFinite = true)
    watch (meaning.perform t args)

/-- From `s` on, `c` does what `d` does without ever giving up, and the registers end finite. -/
structure Unstopped (V : α → Prop) (c : OptionT (Exec σ) α) (d : Exec σ α) (s : Machine σ) :
    Prop where
  run : c.run.run s = ((d.run s).1.map some, (d.run s).2)
  finite : (d.run s).2.registers.Finite
  value : ∀ a, (d.run s).1 = .ok a → V a

theorem watch_unstopped {c : Exec σ Float} (gives : GivesFinite c) (finite : s.registers.Finite) :
    Unstopped (fun x => x.isFinite = true) (watch c) c s := by
  obtain ⟨after, value⟩ := gives s finite
  refine ⟨?_, after, value⟩
  have current : (OptionT.lift (getThe (Machine σ) : Exec σ _)).run.run s = (.ok (some s), s) :=
    run_plain _ s
  rw [watch, run_watch_bind, current]
  dsimp only
  rw [run_watch_bind, run_guard finite]
  dsimp only
  rw [run_watch_bind, run_plain]
  rcases outcome : c.run s with ⟨e | x, t⟩
  · rfl
  · dsimp only [Except.map]
    rw [run_watch_bind, run_guard (value x (by rw [outcome]))]
    rfl

theorem perform_unstopped {c : Exec σ Float} {args : List Float}
    (all : ∀ x ∈ args, x.isFinite = true) (gives : GivesFinite c) (finite : s.registers.Finite) :
    Unstopped (fun x => x.isFinite = true)
      (do guard (∀ x ∈ args, x.isFinite = true); watch c) c s := by
  have watches := watch_unstopped gives finite
  exact ⟨by rw [run_watch_bind, run_guard all]; exact watches.run, watches.finite, watches.value⟩

def watching : Lockstep (OptionT (Exec σ)) (Exec σ) where
  Related V c d := ∀ s : Machine σ, s.registers.Finite → Unstopped V c d s
  ofPure fits s finite := ⟨rfl, finite, fun _ same => Except.ok.inj same ▸ fits⟩
  ofBind {_ _ _ _ c d f g} first later s finite := by
    obtain ⟨run, after, value⟩ := first s finite
    rcases outcome : d.run s with ⟨e | a, t⟩
    · rw [outcome] at run after
      exact ⟨by simp only [run_watch_bind, Exec.run_bind, run, outcome, Except.map],
        by simpa only [Exec.run_bind, outcome] using after, by simp [Exec.run_bind, outcome]⟩
    · rw [outcome] at run after value
      obtain ⟨run', after', value'⟩ := later a (value a rfl) t after
      exact ⟨by simpa only [run_watch_bind, Exec.run_bind, run, outcome, Except.map] using run',
        by simpa only [Exec.run_bind, outcome] using after',
        by simpa only [Exec.run_bind, outcome] using value'⟩

theorem execute_unstopped (setup : Setup σ) (line : Line) (settled : Bool)
    (finite : s.registers.Finite) :
    Unstopped (fun _ => True)
      (Expr.evalAll (watched (meaning setup line.indent settled)) line.calls)
      (execute setup line settled) s := by
  refine watching.evalAll_related (V := fun x => x.isFinite = true) line.calls ?_ ?_ s finite
  · exact fun t _ _ finite => watch_unstopped (operandValue_finite setup t) finite
  · exact fun t _ args all _ finite =>
      perform_unstopped all (perform_finite setup line.indent settled t args) finite

end Watching

theorem execution_keeps_finite (setup : Setup σ) :
    ExecutionKeeps setup fun registers _ => registers.Finite :=
  fun line _ settled _ finite => (execute_unstopped setup line settled finite).finite

end Machine

namespace Session

inductive Operation (σ : Type) where
  | run (setup : Setup σ) (maxSteps : Int)
  | set (index : Option Int) (x : Float)
  | reset

/-- The session after an operation; a run that faults leaves it as it was at the fault. -/
def apply (s : Session σ) : Operation σ → Session σ
  | .run setup maxSteps => (s.run setup maxSteps).2
  | .set index x => { s with registers := s.registers.set index x }
  | .reset => s.reset

theorem apply_finite {s : Session σ} (finite : s.registers.Finite) (operation : Operation σ) :
    (s.apply operation).registers.Finite := by
  cases operation with
  | run setup maxSteps => exact run_keeps (Machine.execution_keeps_finite setup) maxSteps finite
  | set index x => exact finite.set index x
  | reset => exact Registers.reset_finite _

theorem operations_finite {s : Session σ} (finite : s.registers.Finite)
    (operations : List (Operation σ)) : (operations.foldl apply s).registers.Finite := by
  induction operations generalizing s with
  | nil => exact finite
  | cons operation rest ih => exact ih (apply_finite finite operation)

def after (count : Int) (host : σ) (operations : List (Operation σ)) : Session σ :=
  operations.foldl apply { registers := .zeros count, host := host }

/-- Whatever was done with a session: its registers are finite, they are finite in every state of
every run of it, and no evaluation in such a state meets a number that is not finite. -/
theorem finite_throughout (count : Int) (host : σ) (operations : List (Operation σ)) :
    (after count host operations).registers.Finite ∧
    ∀ (setup : Setup σ) (t : Machine σ),
      Machine.Reaches setup ((after count host operations).start setup) t →
      t.registers.Finite ∧
      ∀ (line : Line) (settled : Bool) (u : Machine σ), u.registers = t.registers →
        (Expr.evalAll (Machine.watched (Machine.meaning setup line.indent settled))
          line.calls).run.run u = (((Machine.execute setup line settled).run u).1.map some,
            ((Machine.execute setup line settled).run u).2) := by
  have finite : (after count host operations).registers.Finite :=
    operations_finite (Registers.zeros_finite count) operations
  refine ⟨finite, fun setup t reached => ?_⟩
  have started : ((after count host operations).start setup).registers.Finite := by
    unfold start
    split <;> exact finite
  have during := Machine.reaches_keeps (Machine.execution_keeps_finite setup) started reached
  refine ⟨during, fun line settled u same => ?_⟩
  exact (Machine.execute_unstopped setup line settled (same ▸ during)).run

/-- A program that assigns a NaN literal, after a write of an infinity. -/
theorem finite_throughout_nan :
    let line := Line.ofTerms
      [{ kind := .assignment, name := some "assign", argCount := 1, index := some 0 },
        { kind := .number, value := some (0.0 / 0.0) }]
    let setup : Setup Unit := { lines := [line], bridge := {} }
    let s := after 2 () [.set (some 1) (1.0 / 0.0), .run setup 10]
    s.registers.Finite ∧
      (Expr.evalAll (Machine.watched (Machine.meaning setup line.indent false)) line.calls).run.run
        (s.start setup) =
        (((Machine.execute setup line false).run (s.start setup)).1.map some,
          ((Machine.execute setup line false).run (s.start setup)).2) := by
  intro line setup s
  have holds := finite_throughout 2 () [.set (some 1) (1.0 / 0.0), .run setup 10]
  exact ⟨holds.1, (holds.2 setup (s.start setup) .refl).2 line false (s.start setup) rfl⟩

end Session

end Termwise
