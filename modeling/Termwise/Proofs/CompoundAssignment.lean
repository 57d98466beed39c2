import Termwise.Proofs.Classification
import Termwise.Proofs.Faults
import Termwise.Proofs.Finiteness
import Termwise.Proofs.RegisterUse

/-! Compound assignments. An operator with an assignment to a register does what the assignment of
the operator to that register does, whatever the argument is. Both read the register after the calls
of the argument have run, and the second replacement of a number that is not finite changes
nothing. -/
namespace Termwise

variable {σ : Type}

namespace Assignment

/-- The operator of a compound assignment. -/
def operator? : Assignment → Option Operator
  | .add => some .add
  | .sub => some .sub
  | .mul => some .mul
  | .div => some .div
  | .mod => some .mod
  | .set | .increment | .decrement => none

theorem eval_of_operator? {a : Assignment} {op : Operator} (compound : a.operator? = some op)
    (current : Float) (args : List Float) :
    a.eval current (args ++ [0.0]) = op.eval (current :: args) := by
  cases a <;> cases compound <;> cases args <;> rfl

end Assignment

namespace Expr

/-- An assignment to the register `i`. -/
def assigning (a : Assignment) (i : Int) (args : List Expr) : Expr :=
  .call { kind := .assignment, name := some a.name, argCount := a.arity, index := some i } args

def applying (op : Operator) (args : List Expr) : Expr := .call (Term.ofOperator op) args

/-- The register `i` as an operand. -/
def reading (i : Int) : Expr := .operand { kind := .register, index := some i }

section Order

variable {m : Type → Type} [Monad m] [LawfulMonad m] (M : Meaning m) (v w t : Term)
  (args : List Expr)

theorem evalArgs_operand : evalArgs M [.operand v] = (do
    let x ← M.operand v
    return [x]) := by
  simp [evalArgs, evalNested, evalCall, resolve, head]

theorem evalArgs_call : evalArgs M [.call t args] = (do
    let values ← evalArgs M args
    let x ← M.perform t values
    return [x]) := by
  simp [evalArgs, evalNested, evalCall, resolve]

theorem evalArgs_operands : evalArgs M [.operand v, .operand w] = (do
    let x ← M.operand v
    let y ← M.operand w
    return [x, y]) := by
  simp [evalArgs, evalNested, evalCall, resolve, head]

theorem evalArgs_operand_call : evalArgs M [.operand v, .call t args] = (do
    let values ← evalArgs M args
    let y ← M.perform t values
    let x ← M.operand v
    return [x, y]) := by
  simp [evalArgs, evalNested, evalCall, resolve, head]

end Order

end Expr

namespace Machine

variable (setup : Setup σ) (indent : Option Nat) (settled : Bool)

/-- A register that is read in front of an argument has the number that the argument leaves in
it. -/
theorem evalArgs_reading (i : Int) (e : Expr) (s : Machine σ) :
    (Expr.evalArgs (meaning setup indent settled) [.reading i, e]).run s =
      match (Expr.evalArgs (meaning setup indent settled) [e]).run s with
      | (.ok xs, t) => (.ok (t.registers.get (some i) :: xs), t)
      | (.error interrupt, t) => (.error interrupt, t) := by
  have read (t : Machine σ) :
      ((meaning setup indent settled).operand { kind := .register, index := some i }).run t =
      (.ok (t.registers.get (some i)), t) :=
      operandValue_run setup { kind := .register, index := some i } t
  cases e with
  | operand v =>
    have kept : ∀ x t, ((meaning setup indent settled).operand v).run s = (x, t) →
        t.registers = s.registers := by
      intro x t ran
      have same := registers_operandValue setup v s
      rwa [show (operandValue setup v).run s = (x, t) from ran] at same
    rw [Expr.reading, Expr.evalArgs_operands, Expr.evalArgs_operand]
    simp only [Exec.run_bind, read, Exec.run_pure]
    rcases ran : ((meaning setup indent settled).operand v).run s with ⟨interrupt | y, t⟩
    · rfl
    · simp only [kept _ _ ran]
  | call t args =>
    rw [Expr.reading, Expr.evalArgs_operand_call, Expr.evalArgs_call]
    simp only [Exec.run_bind, Exec.run_pure]
    rcases (Expr.evalArgs (meaning setup indent settled) args).run s with ⟨interrupt | values, u⟩
    · rfl
    · dsimp only
      rcases ((meaning setup indent settled).perform t values).run u with ⟨interrupt | y, w⟩
      · rfl
      · simp only [read]

theorem perform_assignment (a : Assignment) (count i : Int) (xs : List Float) :
    (meaning setup indent settled).perform
      { kind := .assignment, name := some a.name, argCount := count, index := some i } xs =
        assign a i xs := by
  cases a <;> rfl

theorem perform_operator {op : Operator} {xs : List Float} {x : Float} (value : op.eval xs = .ok x)
    (t : Machine σ) :
    ((meaning setup indent settled).perform (Term.ofOperator op) xs).run t =
      (.ok (Number.sanitize x), t) := by
  have known : Operator.ofName? op.name = some op := by cases op <;> rfl
  have invoked : Operator.invoke op.name xs = .ok x := by rw [Operator.invoke, known]; exact value
  show (callByName setup op.name xs).run t = _
  rw [callByName, known, Option.isSome_some, if_pos rfl, invoked]
  rfl

theorem evalCall_assigning {a : Assignment} {op : Operator} (compound : a.operator? = some op)
    (i : Int) (e : Expr) :
    Expr.evalCall (meaning setup indent settled) (.assigning a i [e]) =
      Expr.evalCall (meaning setup indent settled)
        (.assigning .set i [.applying op [.reading i, e]]) := by
  funext s
  show (Expr.evalCall (meaning setup indent settled) (.assigning a i [e])).run s =
    (Expr.evalCall (meaning setup indent settled)
      (.assigning .set i [.applying op [.reading i, e]])).run s
  rw [Expr.assigning, Expr.assigning, Expr.applying, Expr.evalCall_call, Expr.evalCall_call,
    Expr.evalArgs_call]
  simp only [Exec.run_bind, evalArgs_reading, perform_assignment]
  rcases (Expr.evalArgs (meaning setup indent settled) [e]).run s with ⟨interrupt | xs, t⟩
  · rfl
  · obtain ⟨x, value⟩ := op.eval_ok (t.registers.get (some i) :: xs)
    have same := Assignment.eval_of_operator? compound (t.registers.get (some i)) xs
    -- The operator's number is finite already when it is assigned.
    have assigned : (assign .set i [Number.sanitize x]).run t =
        (.ok (Number.sanitize x), { t with registers := t.registers.set (some i) x }) := by
      rw [assign_run]
      simp [Assignment.eval, Assignment.combine]
    simp only [assign_run, same, value, perform_operator setup indent settled value,
      Exec.run_pure, assigned]

/-- A counter counts by one: it does what the assignment does that computes the same from the
argument one. -/
theorem evalCall_counting {counter a : Assignment}
    (alike : ∀ current, counter.eval current [0.0] = a.eval current [1.0, 0.0]) (i : Int) :
    Expr.evalCall (meaning setup indent settled) (.assigning counter i []) =
      Expr.evalCall (meaning setup indent settled) (.assigning a i [.operand (.ofNumber 1.0)]) := by
  funext s
  show (Expr.evalCall (meaning setup indent settled) (.assigning counter i [])).run s =
    (Expr.evalCall (meaning setup indent settled) (.assigning a i [.operand (.ofNumber 1.0)])).run s
  have one : ((meaning setup indent settled).operand (.ofNumber 1.0)).run s = (.ok 1.0, s) :=
    operandValue_run setup (.ofNumber 1.0) s
  have none : (Expr.evalArgs (meaning setup indent settled) []).run s = (.ok [], s) := rfl
  rw [Expr.assigning, Expr.assigning, Expr.evalCall_call, Expr.evalCall_call, Expr.evalArgs_operand]
  simp only [Exec.run_bind, Exec.run_pure, perform_assignment, one, none, assign_run]
  simp only [List.nil_append, List.cons_append, alike]

/-- A compound assignment and its expansion are the same computation, whatever the register, the
argument and the host, one that writes down its calls included: they give the same number or are
interrupted alike, and they leave the same registers, the same open blocks and the same place in the
program, and the same state of the host. So are a counter and the compound assignment of one. -/
theorem compound_expansion {a : Assignment} {op : Operator} (compound : a.operator? = some op)
    (i : Int) (e : Expr) :
    Expr.evalCall (meaning setup indent settled) (.assigning a i [e]) =
      Expr.evalCall (meaning setup indent settled)
        (.assigning .set i [.applying op [.reading i, e]]) ∧
    Expr.evalCall (meaning setup indent settled) (.assigning .increment i []) =
      Expr.evalCall (meaning setup indent settled) (.assigning .add i [.operand (.ofNumber 1.0)]) ∧
    Expr.evalCall (meaning setup indent settled) (.assigning .decrement i []) =
      Expr.evalCall (meaning setup indent settled) (.assigning .sub i [.operand (.ofNumber 1.0)]) :=
  ⟨evalCall_assigning setup indent settled compound i e, evalCall_counting setup indent settled
    (fun _ => rfl) i, evalCall_counting setup indent settled (fun _ => rfl) i⟩

/-- The argument assigns to the register itself, so that the register is divided by the new
number. -/
theorem compound_expansion_ownRegister :
    let e : Expr := .assigning .set 0 [.operand (.ofNumber 4.0)]
    let meaning := meaning ({ lines := [], bridge := {} } : Setup Unit) none false
    let s : Machine Unit := { registers := ⟨[12.0]⟩, host := () }
    Assignment.operator? .div = some .div ∧
      (Expr.evalCall meaning (.assigning .div 0 [e])).run s =
        (Expr.evalCall meaning (.assigning .set 0 [.applying .div [.reading 0, e]])).run s ∧
      ((Expr.evalCall meaning (.assigning .div 0 [e])).run s).2.registers.values = [1.0] := by
  intro e meaning s
  refine ⟨rfl, ?_, by decide +kernel⟩
  rw [(compound_expansion { lines := [], bridge := {} } none false rfl 0 e).1]

end Machine

end Termwise
