import Termwise.Proofs.Lines

/-! Structured programs: blocks of lines, loops and chains, nested to any depth. Their meaning is a
relation on stores that follows the nesting; it knows nothing of a program counter, of indentation
or of open blocks. -/
namespace Termwise

variable {σ : Type}

mutual

/-- A block of statements. -/
inductive Code where
  | done
  | plain (line : Line) (rest : Code)
  | leave (line : Line) (rest : Code)
  | loop (head : Line) (body rest : Code)
  | chain (members : Chain) (rest : Code)

/-- The branches of a chain, or those that are left of it. -/
inductive Chain where
  | done
  | branch (head : Line) (body : Code) (others : Chain)
  | otherwise (head : Line) (body : Code)

end

mutual

def Code.lines : Code → List Line
  | .done => []
  | .plain line rest => line :: rest.lines
  | .leave line rest => line :: rest.lines
  | .loop head body rest => head :: (body.lines ++ rest.lines)
  | .chain members rest => members.lines ++ rest.lines

def Chain.lines : Chain → List Line
  | .done => []
  | .branch head body others => head :: (body.lines ++ others.lines)
  | .otherwise head body => head :: body.lines

end

/-- Whether the last statement is a single line. `before` answers for a block without statements. -/
def Code.endsWithLine (before : Bool) : Code → Bool
  | .done => before
  | .plain _ rest | .leave _ rest => rest.endsWithLine true
  | .loop _ _ rest | .chain _ rest => rest.endsWithLine false

mutual

/-- All statements of the block are at one level, the bodies in it are deeper, and each body ends
with a single line. -/
def Code.WellFormed : Code → Nat → Prop
  | .done, _ => True
  | .plain line rest, level => line.indent = some level ∧ line.FlowFree ∧ rest.WellFormed level
  | .leave line rest, level => line.Holds .leave level ∧ rest.WellFormed level
  | .loop head body rest, level =>
    head.Holds .loop level ∧ (∃ inner > level, body.WellFormed inner) ∧
      body.endsWithLine false = true ∧
      rest.WellFormed level
  | .chain members rest, level => members.WellFormed .when level ∧ rest.WellFormed level

/-- `lead` is the keyword of the first branch; a chain does not end or turn to the last resort
before that. -/
def Chain.WellFormed : Chain → Flow → Nat → Prop
  | .done, lead, _ => lead = .orWhen
  | .branch head body others, lead, level =>
    head.Holds lead level ∧ (∃ inner > level, body.WellFormed inner) ∧
      body.endsWithLine false = true ∧
      others.WellFormed .orWhen level
  | .otherwise head body, lead, level =>
    lead = .orWhen ∧ head.Holds .otherwise level ∧ (∃ inner > level, body.WellFormed inner) ∧
      body.endsWithLine false = true

end

inductive Ending where
  | through
  | left
deriving Repr, DecidableEq, Inhabited

/-- What can be run: a block, or the branches that are left of a chain. -/
inductive Task where
  | block (code : Code)
  | choice (members : Chain)

/-- The meaning of structured programs. `inLoop` says that there is a loop around; `pass` is what
happens to the branches that are left when a branch has been taken. -/
inductive Runs (pass : Chain → Calculation σ Unit) (bridge : Host.Bridge σ) :
    Bool → Task → Store σ → Ending → Store σ → Prop where
  | done {inLoop s} : Runs pass bridge inLoop (.block .done) s .through s
  | plain {inLoop line rest s t ending u} : (line.effect bridge).run s = (.ok (), t) →
      Runs pass bridge inLoop (.block rest) t ending u →
      Runs pass bridge inLoop (.block (.plain line rest)) s ending u
  | left {line rest s x t} : (line.condition bridge).run s = (.ok x, t) →
      Runs pass bridge true (.block (.leave line rest)) s .left t
  | ignored {line rest s x t ending u} : (line.condition bridge).run s = (.ok x, t) →
      Runs pass bridge false (.block rest) t ending u →
      Runs pass bridge false (.block (.leave line rest)) s ending u
  | loopOver {inLoop head body rest s x t ending u} : (head.condition bridge).run s = (.ok x, t) →
      (x == 0.0) = true → Runs pass bridge inLoop (.block rest) t ending u →
      Runs pass bridge inLoop (.block (.loop head body rest)) s ending u
  | loopAgain {inLoop head body rest s x t u ending v} :
      (head.condition bridge).run s = (.ok x, t) →
      (x == 0.0) = false → Runs pass bridge true (.block body) t .through u →
      Runs pass bridge inLoop (.block (.loop head body rest)) u ending v →
      Runs pass bridge inLoop (.block (.loop head body rest)) s ending v
  | loopLeft {inLoop head body rest s x t u ending v} : (head.condition bridge).run s = (.ok x, t) →
      (x == 0.0) = false → Runs pass bridge true (.block body) t .left u →
      Runs pass bridge inLoop (.block rest) u ending v →
      Runs pass bridge inLoop (.block (.loop head body rest)) s ending v
  | chain {inLoop members rest s t ending u} :
      Runs pass bridge inLoop (.choice members) s .through t →
      Runs pass bridge inLoop (.block rest) t ending u →
      Runs pass bridge inLoop (.block (.chain members rest)) s ending u
  | chainLeft {inLoop members rest s t} : Runs pass bridge inLoop (.choice members) s .left t →
      Runs pass bridge inLoop (.block (.chain members rest)) s .left t
  | none {inLoop s} : Runs pass bridge inLoop (.choice .done) s .through s
  | taken {inLoop head body others s x t u v} : (head.condition bridge).run s = (.ok x, t) →
      (x == 0.0) = false → Runs pass bridge inLoop (.block body) t .through u →
      (pass others).run u = (.ok (), v) →
      Runs pass bridge inLoop (.choice (.branch head body others)) s .through v
  | takenLeft {inLoop head body others s x t u} : (head.condition bridge).run s = (.ok x, t) →
      (x == 0.0) = false → Runs pass bridge inLoop (.block body) t .left u →
      Runs pass bridge inLoop (.choice (.branch head body others)) s .left u
  | next {inLoop head body others s x t ending u} : (head.condition bridge).run s = (.ok x, t) →
      (x == 0.0) = true → Runs pass bridge inLoop (.choice others) t ending u →
      Runs pass bridge inLoop (.choice (.branch head body others)) s ending u
  | otherwise {inLoop head body s x t ending u} : (head.condition bridge).run s = (.ok x, t) →
      Runs pass bridge inLoop (.block body) t ending u →
      Runs pass bridge inLoop (.choice (.otherwise head body)) s ending u

/-- Evaluates the conditions of branches, and takes none of them. -/
def Chain.visit (bridge : Host.Bridge σ) : Chain → Calculation σ Unit
  | .done => pure ()
  | .branch head _ others => do
    let _ ← head.condition bridge
    others.visit bridge
  | .otherwise head _ => do
    let _ ← head.condition bridge

def Chain.ignore (_ : Chain) : Calculation σ Unit := pure ()

/-- A task that is run from a store has one ending and one result. -/
theorem Runs.deterministic {pass : Chain → Calculation σ Unit} {bridge : Host.Bridge σ}
    {inLoop : Bool} {task : Task} {s t t' : Store σ} {ending ending' : Ending}
    (first : Runs pass bridge inLoop task s ending t)
    (second : Runs pass bridge inLoop task s ending' t') : ending = ending' ∧ t = t' := by
  induction first generalizing ending' t' with
  | done | none => cases second; exact ⟨rfl, rfl⟩
  | plain performed _ ih =>
    cases second with
    | plain performed' later => cases performed.symm.trans performed'; exact ih later
  | left evaluated =>
    cases second with
    | left evaluated' => cases evaluated.symm.trans evaluated'; exact ⟨rfl, rfl⟩
  | ignored evaluated _ ih =>
    cases second with
    | ignored evaluated' later => cases evaluated.symm.trans evaluated'; exact ih later
  | loopOver evaluated zero _ ih =>
    cases second with
    | loopOver evaluated' _ later => cases evaluated.symm.trans evaluated'; exact ih later
    | loopAgain evaluated' nonzero | loopLeft evaluated' nonzero =>
      cases evaluated.symm.trans evaluated'
      cases zero.symm.trans nonzero
  | loopAgain evaluated nonzero _ _ inside ih =>
    cases second with
    | loopOver evaluated' zero =>
      cases evaluated.symm.trans evaluated'
      cases zero.symm.trans nonzero
    | loopAgain evaluated' _ body later =>
      cases evaluated.symm.trans evaluated'
      obtain ⟨-, rfl⟩ := inside body
      exact ih later
    | loopLeft evaluated' _ body =>
      cases evaluated.symm.trans evaluated'
      cases (inside body).1
  | loopLeft evaluated nonzero _ _ inside ih =>
    cases second with
    | loopOver evaluated' zero =>
      cases evaluated.symm.trans evaluated'
      cases zero.symm.trans nonzero
    | loopAgain evaluated' _ body =>
      cases evaluated.symm.trans evaluated'
      cases (inside body).1
    | loopLeft evaluated' _ body later =>
      cases evaluated.symm.trans evaluated'
      obtain ⟨-, rfl⟩ := inside body
      exact ih later
  | chain _ _ choice ih =>
    cases second with
    | chain choice' later =>
      obtain ⟨-, rfl⟩ := choice choice'
      exact ih later
    | chainLeft choice' => cases (choice choice').1
  | chainLeft _ choice =>
    cases second with
    | chain choice' => cases (choice choice').1
    | chainLeft choice' => exact choice choice'
  | taken evaluated nonzero _ passed inside =>
    cases second with
    | taken evaluated' _ body passed' =>
      cases evaluated.symm.trans evaluated'
      obtain ⟨-, rfl⟩ := inside body
      cases passed.symm.trans passed'
      exact ⟨rfl, rfl⟩
    | takenLeft evaluated' _ body =>
      cases evaluated.symm.trans evaluated'
      cases (inside body).1
    | next evaluated' zero =>
      cases evaluated.symm.trans evaluated'
      cases zero.symm.trans nonzero
  | takenLeft evaluated nonzero _ inside =>
    cases second with
    | taken evaluated' _ body =>
      cases evaluated.symm.trans evaluated'
      cases (inside body).1
    | takenLeft evaluated' _ body => cases evaluated.symm.trans evaluated'; exact inside body
    | next evaluated' zero =>
      cases evaluated.symm.trans evaluated'
      cases zero.symm.trans nonzero
  | next evaluated zero _ ih =>
    cases second with
    | taken evaluated' nonzero | takenLeft evaluated' nonzero =>
      cases evaluated.symm.trans evaluated'
      cases zero.symm.trans nonzero
    | next evaluated' _ later => cases evaluated.symm.trans evaluated'; exact ih later
  | otherwise evaluated _ ih =>
    cases second with
    | otherwise evaluated' later => cases evaluated.symm.trans evaluated'; exact ih later

/-- A stretch of lines that starts, if at all, with a line that is not deeper than a level. -/
def Stops (level : Nat) (lines : List Line) : Prop :=
  ∀ line, lines.head? = some line → ∃ shallow ≤ level, line.indent = some shallow

theorem Stops.mono {level inner : Nat} {lines : List Line} (stops : Stops level lines)
    (deeper : level ≤ inner) : Stops inner lines := by
  intro line first
  obtain ⟨shallow, bound, indent⟩ := stops line first
  exact ⟨shallow, Nat.le_trans bound deeper, indent⟩

theorem Stops.cons {level : Nat} {line : Line} {rest : List Line}
    (indent : line.indent = some level) : Stops level (line :: rest) := by
  intro first same
  obtain rfl : line = first := by simpa using same
  exact ⟨level, Nat.le_refl level, indent⟩

theorem Chain.stops {members : Chain} {lead : Flow} {level : Nat} {tail : List Line}
    (formed : members.WellFormed lead level) (stops : Stops level tail) :
    Stops level (members.lines ++ tail) := by
  cases members with
  | done => exact stops
  | branch head body others => exact .cons formed.1.indent
  | otherwise head body => exact .cons formed.2.1.indent

theorem Code.stops {code : Code} {level : Nat} {tail : List Line} (formed : code.WellFormed level)
    (stops : Stops level tail) : Stops level (code.lines ++ tail) := by
  cases code with
  | done => exact stops
  | plain line rest => exact .cons formed.1
  | leave line rest => exact .cons formed.1.indent
  | loop head body rest => exact .cons formed.1.indent
  | chain members rest =>
    cases members with
    | done => cases formed.1
    | branch head body others => exact .cons formed.1.1.indent
    | otherwise head body => cases formed.1.1

mutual

theorem Code.deeper (code : Code) {level : Nat} (formed : code.WellFormed level) :
    ∀ line ∈ code.lines, ∃ inner ≥ level, line.indent = some inner := by
  cases code with
  | done => simp [Code.lines]
  | plain line rest =>
    obtain ⟨indent, -, formed⟩ := formed
    exact List.forall_mem_cons.mpr ⟨⟨level, Nat.le_refl level, indent⟩, rest.deeper formed⟩
  | leave line rest =>
    obtain ⟨holds, formed⟩ := formed
    exact List.forall_mem_cons.mpr ⟨⟨level, Nat.le_refl level, holds.indent⟩, rest.deeper formed⟩
  | loop head body rest =>
    obtain ⟨holds, ⟨inner, below, inside⟩, -, formed⟩ := formed
    refine List.forall_mem_cons.mpr ⟨⟨level, Nat.le_refl level, holds.indent⟩, ?_⟩
    refine List.forall_mem_append.mpr ⟨fun line member => ?_, rest.deeper formed⟩
    obtain ⟨deep, bound, indent⟩ := body.deeper inside line member
    exact ⟨deep, by omega, indent⟩
  | chain members rest =>
    obtain ⟨branches, formed⟩ := formed
    exact List.forall_mem_append.mpr ⟨members.deeper branches, rest.deeper formed⟩

theorem Chain.deeper (members : Chain) {lead : Flow} {level : Nat}
    (formed : members.WellFormed lead level) :
    ∀ line ∈ members.lines, ∃ inner ≥ level, line.indent = some inner := by
  cases members with
  | done => simp [Chain.lines]
  | branch head body others =>
    obtain ⟨holds, ⟨inner, below, inside⟩, -, formed⟩ := formed
    refine List.forall_mem_cons.mpr ⟨⟨level, Nat.le_refl level, holds.indent⟩, ?_⟩
    refine List.forall_mem_append.mpr ⟨fun line member => ?_, others.deeper formed⟩
    obtain ⟨deep, bound, indent⟩ := body.deeper inside line member
    exact ⟨deep, by omega, indent⟩
  | otherwise head body =>
    obtain ⟨-, holds, ⟨inner, below, inside⟩, -⟩ := formed
    refine List.forall_mem_cons.mpr ⟨⟨level, Nat.le_refl level, holds.indent⟩,
      fun line member => ?_⟩
    obtain ⟨deep, bound, indent⟩ := body.deeper inside line member
    exact ⟨deep, by omega, indent⟩

end

theorem Code.skipBlock_eq {body : Code} {lines tail : List Line} {level inner start pc : Nat}
    (formed : body.WellFormed inner) (below : inner > level)
    (place : lines.drop start = body.lines ++ tail) (stops : Stops level tail)
    (low : start ≤ pc + 1) (high : pc < start + body.lines.length) :
    skipBlock lines (some level) pc = start + body.lines.length := by
  refine skipBlock_of_drop place (fun line member => ?_) (fun line first => ?_) low high
  · obtain ⟨deep, bound, indent⟩ := body.deeper formed line member
    rw [indent]
    exact decide_eq_true (by omega)
  · obtain ⟨shallow, bound, indent⟩ := stops line first
    rw [indent]
    exact decide_eq_false (by omega)

end Termwise
