import Mathlib.Control.Monad.Basic
import Termwise.Proofs.Resumption

/-! Runs of structured programs. A run that is not stopped by the cap does to the store what the
meaning of the program says: the program counter, the indentation of the line before, the open
blocks and the mark of a settled chain together keep track of the place in the nesting. -/
namespace Termwise

variable {σ : Type}

namespace Machine

variable {setup : Setup σ} {line : Line} {keyword : Flow} {level cap : Nat} {settled : Bool}
  {blocks : List Block} {s t u : Machine σ}

section Simulation

variable {lines tail : List Line} {low high stop : Nat} {context : Option (List Block × Nat)}
  {block : Block} {task task' : Task} {rests : Bool}

/-- What the lines from `low` to `high` have around them when `blocks` are open: no loop, or a loop
with the given blocks around it and the given line after it. -/
def Within (lines : List Line) (blocks : List Block) (low high : Nat) :
    Option (List Block × Nat) → Prop
  | none => blocks.dropWhile (fun block => block.kind ≠ .loop) = []
  | some (outer, exit) =>
    ∃ block, blocks.dropWhile (fun block => block.kind ≠ .loop) = block :: outer ∧
      ∀ pc, low ≤ pc → pc < high → skipBlock lines block.indent pc = exit

theorem Within.narrow {low' high' : Nat} (within : Within lines blocks low high context)
    (above : low ≤ low') (below : high' ≤ high) : Within lines blocks low' high' context := by
  match context, within with
  | none, outside => exact outside
  | some (outer, exit), ⟨block, inside, exits⟩ =>
    exact ⟨block, inside, fun pc from_low to_high => exits pc (by omega) (by omega)⟩

theorem Within.push (within : Within lines blocks low high context) (kind : block.kind ≠ .loop) :
    Within lines (block :: blocks) low high context := by
  have same : (block :: blocks).dropWhile (fun block => block.kind ≠ .loop) =
      blocks.dropWhile fun block => block.kind ≠ .loop :=
      List.dropWhile_cons_of_pos (by simpa using kind)
  match context, within with
  | none, outside => exact same.trans outside
  | some (outer, exit), ⟨block, inside, exits⟩ => exact ⟨block, same.trans inside, exits⟩

/-- From `s` on, the run does what the meaning of a task says and then comes to its end in `u` with
at most `cap` steps: it goes on at `stop`, or it has left the loop around. `rests` says that a
single line came last. -/
inductive Simulated (setup : Setup σ) (u : Machine σ) (cap : Nat)
    (context : Option (List Block × Nat)) (level : Nat) (blocks : List Block) (task : Task)
    (stop : Nat) (rests : Bool) (s : Machine σ) : Prop where
  | through {c : Nat} {t : Machine σ} {settled : Bool} : c ≤ cap → Ends setup c t u →
      Runs (Chain.visit setup.bridge) setup.bridge context.isSome task s.store .through t.store →
      t.pc = stop →
      Between level blocks settled t →
      (rests = true → t.previous = some level ∧ t.blocks = blocks) →
      Simulated setup u cap context level blocks task stop rests s
  | left {c : Nat} {t : Machine σ} {outer : List Block} {exit : Nat} : c ≤ cap → Ends setup c t u →
      Runs (Chain.visit setup.bridge) setup.bridge context.isSome task s.store .left t.store →
      context = some (outer, exit) → t.pc = exit → t.previous = none → t.blocks = outer →
      Simulated setup u cap context level blocks task stop rests s

theorem Simulated.prepend {c : Nat}
    (simulated : Simulated setup u c context level blocks task stop rests t) (fewer : c ≤ cap)
    (rule : ∀ ending store, Runs (Chain.visit setup.bridge) setup.bridge context.isSome task t.store
      ending store → Runs (Chain.visit setup.bridge) setup.bridge context.isSome task' s.store
        ending store) : Simulated setup u cap context level blocks task' stop rests s := by
  cases simulated with
  | through steps ends runs pc between rested =>
    exact .through (Nat.le_trans steps fewer) ends (rule _ _ runs) pc between rested
  | left steps ends runs around pc previous stack =>
    exact .left (Nat.le_trans steps fewer) ends (rule _ _ runs) around pc previous stack

/-- A run in a chain that has had its branch visits the conditions that are left of it and takes no
branch. -/
theorem visits_rest {cap : Nat} {s : Machine σ} {settled : Bool} (members : Chain)
    (formed : members.WellFormed .orWhen level)
    (place : setup.lines.drop s.pc = members.lines ++ tail) (stops : Stops level tail)
    (between : Between level blocks settled s) (spent : members = .done ∨ settled = true)
    (ends : Ends setup cap s u) :
    ∃ c t settled', c ≤ cap ∧ Ends setup c t u ∧
      (members.visit setup.bridge).run s.store = (.ok (), t.store) ∧
      t.pc = s.pc + members.lines.length ∧ Between level blocks settled' t := by
  match members with
  | .done => exact ⟨cap, s, settled, Nat.le_refl cap, ends, rfl, rfl, between⟩
  | .branch head body others =>
    obtain rfl : settled = true := by simpa using spent
    obtain ⟨holds, ⟨inner, below, inside⟩, -, formed⟩ := formed
    simp only [Chain.lines, List.cons_append, List.append_assoc] at place
    obtain ⟨found, place⟩ := drop_cons place
    have skips := Code.skipBlock_eq inside below place (Chain.stops formed stops) (Nat.le_refl _)
      (Nat.lt_add_right _ (Nat.lt_succ_self s.pc))
    obtain ⟨c, t, x, fewer, ends, evaluated, ⟨enters, -⟩ | ⟨-, pc, previous, stack, carried⟩⟩ :=
      ends.head between found (by decide) holds
    · cases enters
    · rw [skips] at pc carried
      have place := drop_append place
      rw [← pc] at place carried
      have spent : others = .done ∨ t.settled = true := by
        cases others with
        | done => exact .inl rfl
        | branch next _ _ =>
          rw [carried, (drop_cons place).1]
          simp [Flow.continues, formed.1.indent]
        | otherwise next _ =>
          rw [carried, (drop_cons place).1]
          simp [Flow.continues, formed.2.1.indent]
      have between : Between level blocks t.settled t := .of_jump stack previous rfl
      obtain ⟨c', t', settled', steps, ends, visited, stop, between⟩ :=
        visits_rest others formed place stops between spent ends
      refine ⟨c', t', settled', by omega, ends, ?_, ?_, between⟩
      · simp only [Chain.visit, Exec.run_bind, evaluated, visited]
      · rw [stop, pc, Chain.lines, List.length_cons, List.length_append]
        omega
  | .otherwise head body =>
    obtain rfl : settled = true := by simpa using spent
    obtain ⟨-, holds, ⟨inner, below, inside⟩, -⟩ := formed
    obtain ⟨found, place⟩ := drop_cons place
    have skips := Code.skipBlock_eq inside below place stops (Nat.le_refl _)
      (Nat.lt_add_right _ (Nat.lt_succ_self s.pc))
    obtain ⟨c, t, x, fewer, ends, evaluated, ⟨enters, -⟩ | ⟨-, pc, previous, stack, -⟩⟩ :=
      ends.head between found (by decide) holds
    · cases enters
    · refine ⟨c, t, t.settled, Nat.le_of_lt fewer, ends, ?_, ?_, .of_jump stack previous rfl⟩
      · simp only [Chain.visit, Exec.run_bind, evaluated, Exec.run_pure]
      · rw [pc, skips, Chain.lines, List.length_cons]
        omega

/-- With `cap` steps to go, every block is simulated wherever it stands in the program. -/
def SimulatesBlocks (setup : Setup σ) (u : Machine σ) (cap : Nat) : Prop :=
  ∀ (code : Code) (level : Nat) (blocks : List Block) (context : Option (List Block × Nat))
    (tail : List Line) (settled before : Bool) (s : Machine σ), code.WellFormed level →
    setup.lines.drop s.pc = code.lines ++ tail →
    Stops level tail → Within setup.lines blocks s.pc (s.pc + code.lines.length) context →
    Between level blocks settled s → (before = true → s.previous = some level ∧ s.blocks = blocks) →
    Ends setup cap s u →
    Simulated setup u cap context level blocks (.block code) (s.pc + code.lines.length)
      (code.endsWithLine before) s

/-- With `cap` steps to go, every chain that has not had its branch is simulated. -/
def SimulatesChoices (setup : Setup σ) (u : Machine σ) (cap : Nat) : Prop :=
  ∀ (members : Chain) (lead : Flow) (level : Nat) (blocks : List Block)
    (context : Option (List Block × Nat))
    (tail : List Line) (settled : Bool) (s : Machine σ), members.WellFormed lead level →
    setup.lines.drop s.pc = members.lines ++ tail → Stops level tail →
    Within setup.lines blocks s.pc (s.pc + members.lines.length) context →
    Between level blocks settled s →
    (lead = .when ∨ lead = .orWhen ∧ settled = false) → Ends setup cap s u →
    ∃ c ≤ cap, (lead = .when → c < cap) ∧
      Simulated setup u c context level blocks (.choice members)
        (s.pc + members.lines.length) false s

/-- A body that has been opened by a branch is simulated; at its end the block of the branch is left
to close. -/
theorem simulates_body {body : Code} {inner : Nat} (simulates : SimulatesBlocks setup u cap)
    (formed : body.WellFormed inner) (below : inner > level)
    (closed : body.endsWithLine false = true) (place : setup.lines.drop s.pc = body.lines ++ tail)
    (stops : Stops level tail)
    (within : Within setup.lines blocks s.pc (s.pc + body.lines.length) context)
    (kind : block.kind ≠ .loop) (indent : block.indent = some level)
    (previous : s.previous = some level) (stack : s.blocks = block :: blocks)
    (ends : Ends setup cap s u) :
    (∃ c t, c ≤ cap ∧ Ends setup c t u ∧
      Runs (Chain.visit setup.bridge) setup.bridge context.isSome (.block body) s.store
        .through t.store ∧
      t.pc = s.pc + body.lines.length ∧ Between level blocks true t) ∨
    ∃ c t outer exit, c ≤ cap ∧ Ends setup c t u ∧
      Runs (Chain.visit setup.bridge) setup.bridge context.isSome (.block body) s.store
        .left t.store ∧
      context = some (outer, exit) ∧ t.pc = exit ∧ t.previous = none ∧ t.blocks = outer := by
  have between : Between inner (block :: blocks) s.settled s :=
    .of_line stack previous (Nat.le_of_lt below)
  have simulated := simulates body inner (block :: blocks) context tail s.settled false s
    formed place (stops.mono (Nat.le_of_lt below)) (within.push kind) between (by simp) ends
  rw [closed] at simulated
  cases simulated with
  | through steps ends runs pc _ rested =>
    obtain ⟨previous, stack⟩ := rested rfl
    have above : Indent.below block.indent (some level) = false := by simp [indent, Indent.below]
    exact .inl ⟨_, _, steps, ends, runs, pc, .closing stack kind above previous below⟩
  | left steps ends runs around pc previous stack =>
    exact .inr ⟨_, _, _, _, steps, ends, runs, around, pc, previous, stack⟩

theorem choices_simulated (ih : ∀ c < cap, SimulatesBlocks setup u c ∧ SimulatesChoices setup u c) :
    SimulatesChoices setup u cap := by
  intro members lead level blocks context tail settled s formed place stops within
    between fresh ends
  cases members with
  | done =>
    refine ⟨cap, Nat.le_refl cap, fun first => ?_, ?_⟩
    · cases formed.symm.trans first
    · exact .through (Nat.le_refl cap) ends .none rfl between (by simp)
  | branch head body others =>
    obtain ⟨holds, ⟨inner, below, inside⟩, closed, formed⟩ := formed
    simp only [Chain.lines, List.cons_append, List.append_assoc] at place
    simp only [Chain.lines, List.length_cons, List.length_append] at within ⊢
    obtain ⟨found, place⟩ := drop_cons place
    have after := drop_append place
    have keyword : lead ≠ .leave ∧ lead ≠ .loop := by rcases fresh with rfl | ⟨rfl, -⟩ <;> decide
    obtain ⟨c, t, x, fewer, ends, evaluated, outcome⟩ := ends.head between found keyword.1 holds
    have enters : lead.enters settled x = !(x == 0.0) := by
      rcases fresh with rfl | ⟨rfl, rfl⟩ <;> rfl
    rw [enters] at outcome
    refine ⟨c, Nat.le_of_lt fewer, fun _ => fewer, ?_⟩
    rcases outcome with ⟨nonzero, pc, previous, stack⟩ | ⟨zero, pc, previous, stack, carried⟩
    · have nonzero : (x == 0.0) = false := by simpa using nonzero
      rw [← pc] at place after
      obtain ⟨c', t', steps, ends, runs, pc', between⟩ |
        ⟨c', t', outer, exit, steps, ends, runs, left⟩ :=
        simulates_body (ih c fewer).1 inside below closed place (Chain.stops formed stops)
          (within.narrow (by omega) (by omega)) keyword.2 rfl previous stack ends
      · rw [← pc'] at after
        obtain ⟨c'', t'', settled', steps', ends, visited, pc'', between⟩ :=
          visits_rest others formed after stops between (.inr rfl) ends
        exact .through (Nat.le_trans steps' steps) ends (.taken evaluated nonzero runs visited)
          (by omega) between (by simp)
      · obtain ⟨around, pc, previous, stack⟩ := left
        exact .left steps ends (.takenLeft evaluated nonzero runs) around pc previous stack
    · have zero : (x == 0.0) = true := by simpa using zero
      rw [Code.skipBlock_eq inside below place (Chain.stops formed stops) (Nat.le_refl _)
        (by omega)] at pc
      have unsettled : t.settled = false := by
        rw [carried]; rcases fresh with rfl | ⟨rfl, rfl⟩ <;> rfl
      have between : Between level blocks false t := .of_jump stack previous unsettled
      rw [← pc] at after
      obtain ⟨c', steps, -, simulated⟩ := (ih c fewer).2 others .orWhen level blocks context tail
        false t formed after
        stops (within.narrow (by omega) (by omega)) between (.inr ⟨rfl, rfl⟩) ends
      have stop : s.pc + (body.lines.length + others.lines.length + 1) =
          t.pc + others.lines.length := by omega
      rw [stop]
      exact simulated.prepend steps fun _ _ runs => .next evaluated zero runs
  | otherwise head body =>
    obtain ⟨rfl, holds, ⟨inner, below, inside⟩, closed⟩ := formed
    obtain rfl : settled = false := by simpa using fresh
    simp only [Chain.lines, List.length_cons] at within ⊢
    obtain ⟨found, place⟩ := drop_cons place
    obtain ⟨c, t, x, fewer, ends, evaluated, ⟨-, pc, previous, stack⟩ | ⟨skipped, -⟩⟩ :=
      ends.head between found (by decide) holds
    · refine ⟨c, Nat.le_of_lt fewer, fun _ => fewer, ?_⟩
      rw [← pc] at place
      obtain ⟨c', t', steps, ends, runs, pc', between⟩ |
        ⟨c', t', outer, exit, steps, ends, runs, left⟩ :=
        simulates_body (ih c fewer).1 inside below closed place stops
          (within.narrow (by omega) (by omega))
          (show Flow.otherwise ≠ .loop by decide) rfl previous stack ends
      · exact .through steps ends (.otherwise evaluated runs) (by omega) between (by simp)
      · obtain ⟨around, pc, previous, stack⟩ := left
        exact .left steps ends (.otherwise evaluated runs) around pc previous stack
    · cases skipped

/-- After a statement, the rest of its block is simulated. -/
theorem SimulatesBlocks.rest {c : Nat} (simulates : SimulatesBlocks setup u c) (fewer : c ≤ cap)
    (rest : Code) (before : Bool) (formed : rest.WellFormed level)
    (place : setup.lines.drop t.pc = rest.lines ++ tail) (stops : Stops level tail)
    (within : Within setup.lines blocks t.pc stop context)
    (last : stop = t.pc + rest.lines.length ∧ rests = rest.endsWithLine before)
    (between : Between level blocks settled t)
    (rested : before = true → t.previous = some level ∧ t.blocks = blocks) (ends : Ends setup c t u)
    (rule : ∀ ending store, Runs (Chain.visit setup.bridge) setup.bridge context.isSome
      (.block rest) t.store ending store →
        Runs (Chain.visit setup.bridge) setup.bridge context.isSome task s.store ending store) :
    Simulated setup u cap context level blocks task stop rests s := by
  obtain ⟨rfl, rfl⟩ := last
  have simulated := simulates rest level blocks context tail settled before t formed place stops
    within between rested ends
  exact simulated.prepend fewer rule

theorem loop_simulated {head : Line} {body rest : Code} {before : Bool}
    (ih : ∀ c < cap, SimulatesBlocks setup u c ∧ SimulatesChoices setup u c)
    (formed : (Code.loop head body rest).WellFormed level)
    (place : setup.lines.drop s.pc = (Code.loop head body rest).lines ++ tail)
    (stops : Stops level tail)
    (within : Within setup.lines blocks s.pc
      (s.pc + (Code.loop head body rest).lines.length) context)
    (between : Between level blocks settled s) (ends : Ends setup cap s u) :
    Simulated setup u cap context level blocks (.block (.loop head body rest))
      (s.pc + (Code.loop head body rest).lines.length)
        ((Code.loop head body rest).endsWithLine before) s := by
  have whole := formed
  have start := place
  obtain ⟨holds, ⟨inner, below, inside⟩, closed, formed⟩ := formed
  simp only [Code.lines, List.cons_append, List.append_assoc] at place
  obtain ⟨found, place⟩ := drop_cons place
  have after := drop_append place
  have following := Code.stops formed stops
  have length : (Code.loop head body rest).lines.length =
      body.lines.length + rest.lines.length + 1 := by
    simp [Code.lines]
  obtain ⟨c, t, x, fewer, ends, evaluated, outcome⟩ := ends.head between found (by decide) holds
  rcases outcome with ⟨nonzero, pc, previous, stack⟩ | ⟨zero, pc, previous, stack, -⟩
  · have nonzero : (x == 0.0) = false := by simpa [Flow.enters] using nonzero
    rw [← pc] at place after
    -- Inside the body, leaving the loop leads to the line after the body.
    have exits : Within setup.lines (⟨.loop, some level, s.pc⟩ :: blocks) t.pc
        (t.pc + body.lines.length) (some (blocks, t.pc + body.lines.length)) :=
      ⟨_, List.dropWhile_cons_of_neg (by simp),
        fun pc' low high => Code.skipBlock_eq inside below place following (by omega) high⟩
    have entry : Between inner (⟨.loop, some level, s.pc⟩ :: blocks) t.settled t :=
      .of_line stack previous (Nat.le_of_lt below)
    have simulated := (ih c fewer).1 body inner _ _ (rest.lines ++ tail) t.settled false t
      inside place (following.mono (Nat.le_of_lt below)) exits entry (by simp) ends
    rw [closed] at simulated
    cases simulated with
    | @through c' t' settled' steps ends runs pc' _ rested =>
      obtain ⟨previous, stack⟩ := rested rfl
      rw [← pc'] at after
      obtain ⟨c'', t'', steps', ends, store, pc'', previous, stack⟩ :=
        ends.again (List.getElem?_eq_some_iff.mp found).1 stack previous below (after ▸ following)
      rw [← pc''] at start within ⊢
      exact (ih c'' (by omega)).1.rest (by omega) (.loop head body rest) false whole start stops
        within ⟨rfl, rfl⟩ (.of_jump stack previous rfl) (by simp) ends
        fun _ _ later => .loopAgain evaluated nonzero runs (store ▸ later)
    | @left c' t' outer exit steps ends runs around pc' previous stack =>
      obtain ⟨rfl, rfl⟩ : blocks = outer ∧ t.pc + body.lines.length = exit := by simpa using around
      rw [← pc'] at after
      exact (ih c' (by omega)).1.rest (by omega) rest false formed after stops
        (within.narrow (by omega) (Nat.le_refl _)) ⟨by omega, rfl⟩ (.of_jump stack previous rfl)
        (by simp) ends
        fun _ _ later => .loopLeft evaluated nonzero runs later
  · have zero : (x == 0.0) = true := by simpa [Flow.enters] using zero
    rw [Code.skipBlock_eq inside below place following (Nat.le_refl _) (by omega)] at pc
    rw [← pc] at after
    exact (ih c fewer).1.rest (Nat.le_of_lt fewer) rest false formed after stops
      (within.narrow (by omega) (Nat.le_refl _)) ⟨by omega, rfl⟩ (.of_jump stack previous rfl)
      (by simp) ends
      fun _ _ runs => .loopOver evaluated zero runs

theorem blocks_simulated (ih : ∀ c < cap, SimulatesBlocks setup u c ∧ SimulatesChoices setup u c)
    (choices : SimulatesChoices setup u cap) : SimulatesBlocks setup u cap := by
  intro code level blocks context tail settled before s formed place stops within
    between rested ends
  cases code with
  | done => exact .through (Nat.le_refl cap) ends .done rfl between rested
  | plain line rest =>
    obtain ⟨indent, free, formed⟩ := formed
    simp only [Code.lines, List.length_cons] at within ⊢
    obtain ⟨found, place⟩ := drop_cons place
    obtain ⟨c, t, fewer, ends, performed, pc, previous, stack⟩ :=
      ends.plain between found indent free
    rw [← pc] at place
    exact (ih c fewer).1.rest (Nat.le_of_lt fewer) rest true formed place stops
      (within.narrow (by omega) (Nat.le_refl _)) ⟨by omega, rfl⟩
      (.of_line stack previous (Nat.le_refl level)) (fun _ => ⟨previous, stack⟩) ends
      fun _ _ runs => .plain performed runs
  | leave line rest =>
    obtain ⟨holds, formed⟩ := formed
    simp only [Code.lines, List.length_cons] at within ⊢
    obtain ⟨found, place⟩ := drop_cons place
    obtain ⟨c, t, x, fewer, ends, evaluated, outcome⟩ := ends.leave between found holds
    match context, within with
    | none, outside =>
      obtain ⟨-, pc, previous, stack⟩ | ⟨block, outer, around, -⟩ := outcome
      · rw [← pc] at place
        have within : Within setup.lines blocks t.pc (s.pc + (rest.lines.length + 1)) none :=
          outside
        exact (ih c fewer).1.rest (Nat.le_of_lt fewer) rest true formed place stops within
          ⟨by omega, rfl⟩
          (.of_line stack previous (Nat.le_refl level)) (fun _ => ⟨previous, stack⟩) ends
          fun _ _ runs => .ignored evaluated runs
      · cases outside.symm.trans around
    | some (outer, exit), ⟨block, around, exits⟩ =>
      obtain ⟨outside, -⟩ | ⟨block', outer', around', pc, previous, stack⟩ := outcome
      · cases outside.symm.trans around
      · cases around.symm.trans around'
        exact .left (Nat.le_of_lt fewer) ends (.left evaluated) rfl
          (pc.trans (exits s.pc (Nat.le_refl _) (by omega))) previous stack
  | loop head body rest => exact loop_simulated ih formed place stops within between ends
  | chain members rest =>
    obtain ⟨branches, formed⟩ := formed
    simp only [Code.lines, List.append_assoc, List.length_append] at place within ⊢
    obtain ⟨c, -, fewer, simulated⟩ := choices members .when level blocks context
      (rest.lines ++ tail) settled s branches place (Code.stops formed stops)
      (within.narrow (Nat.le_refl _) (by omega)) between (.inl rfl) ends
    have fewer := fewer rfl
    cases simulated with
    | @through c' t settled' steps ends runs pc between _ =>
      have after := drop_append place
      rw [← pc] at after
      exact (ih c' (by omega)).1.rest (by omega) rest false formed after stops
        (within.narrow (by omega) (Nat.le_refl _)) ⟨by omega, rfl⟩ between (by simp) ends
        fun _ _ later => .chain runs later
    | left steps ends runs around pc previous stack =>
      exact .left (by omega) ends (.chainLeft runs) around pc previous stack

theorem simulated (setup : Setup σ) (u : Machine σ) (cap : Nat) :
    SimulatesBlocks setup u cap ∧ SimulatesChoices setup u cap := by
  -- Every statement takes a step, so the steps to go carry the induction, not the program: a loop
  -- runs again.
  induction cap using Nat.strongRecOn with
  | ind cap ih =>
    have choices := choices_simulated ih
    exact ⟨blocks_simulated ih choices, choices⟩

end Simulation

/-- At the end of the program no loop is left to go back to, so the run is over. -/
theorem Ends.store_eq (ends : Ends setup cap s u) (outside : setup.lines.length ≤ s.pc)
    (between : Between 0 [] settled s) : u.store = s.store := by
  obtain ⟨n, ran⟩ := ends
  rw [resume, if_neg (Nat.not_lt.mpr outside)] at ran
  cases between with
  | calm stack =>
    simp only [close, stack, Prod.mk.injEq] at ran
    rw [← ran.2]
  | closing stack kind above =>
    have above : Indent.below _ (some 0) = false := above
    simp only [close, stack, above, Bool.false_eq_true, if_false, if_neg kind, Prod.mk.injEq] at ran
    rw [← ran.2]

end Machine

theorem Code.eq_done {code : Code} {level : Nat} (formed : code.WellFormed level)
    (empty : code.lines = []) : code = .done := by
  cases code with
  | done => rfl
  | chain members rest =>
    cases members with
    | done => cases formed.1
    | branch => cases empty
    | otherwise => cases empty
  | _ => cases empty

/-- A run of a structured program that is not stopped by the cap ends with the store that the
meaning of the program gives, and this is the only one. The conditions of branches after the one
that was taken are still evaluated. The store holds the state of the host, so the calls of the host
are the same too. -/
theorem Session.run_structured (program : Code) (formed : program.WellFormed 0) (setup : Setup σ)
    (flat : setup.lines = program.lines) (maxSteps : Int) (s t : Session σ) (n : Nat)
    (finished : s.run setup maxSteps = (.ok ⟨n, false⟩, t)) (ending : Ending) (store : Store σ) :
    Runs (Chain.visit setup.bridge) setup.bridge false (.block program) s.store ending store ↔
      ending = .through ∧ store = t.store := by
  have runs : Runs (Chain.visit setup.bridge) setup.bridge false (.block program) s.store .through
      t.store := by
    by_cases content : setup.lines = []
    · rw [Session.run, if_pos (by simp [content])] at finished
      obtain ⟨-, rfl⟩ := Prod.mk.inj finished
      rw [Code.eq_done formed (flat.symm.trans content)]
      exact .done
    · obtain ⟨u, looped, rfl⟩ := run_loop content finished
      have ends : Machine.Ends setup maxSteps.toNat (s.start setup) u := by
        refine ⟨n, ?_⟩
        rw [Machine.resume, start_pc, if_pos (List.length_pos_iff.mpr content), looped]
      have between : Machine.Between 0 [] (s.start setup).settled (s.start setup) :=
        .calm (start_blocks setup s) (by simp)
      have simulated := (Machine.simulated setup u maxSteps.toNat).1 program 0 [] none [] _ false
        (s.start setup) formed (by simp [flat]) (by simp [Stops]) rfl between (by simp) ends
      cases simulated with
      | @through _ v _ _ ends runs pc between =>
        have outside : setup.lines.length ≤ v.pc := by simp [pc, flat]
        rw [start_store, ← ends.store_eq outside between] at runs
        exact runs
      | left _ _ _ around => cases around
  constructor
  · intro given
    obtain ⟨rfl, rfl⟩ := given.deterministic runs
    exact ⟨rfl, rfl⟩
  · rintro ⟨rfl, rfl⟩
    exact runs

section Samples

/-- `while 1`, `V0++`, `if V0`, `break`, `V0++`: the loop is left from inside a chain. -/
def Code.leavingLoop : Code :=
  let count : Line := .ofTerms
    [{ kind := .indent }, { kind := .assignment, name := some "assignInc", index := some 0 }]
  let test : Line := .ofTerms
    [{ kind := .indent }, { kind := .flow, name := some "if", argCount := 1 },
      { kind := .register, index := some 0 }]
  .loop (.ofTerms [{ kind := .flow, name := some "while", argCount := 1 }, Term.ofNumber 1.0])
    (.plain count (.chain
      (.branch test
        (.leave (.ofTerms [{ kind := .indent }, { kind := .indent },
          { kind := .flow, name := some "break" }]) .done)
        .done)
      (.plain count .done)))
    .done

theorem Code.leavingLoop_wellFormed : leavingLoop.WellFormed 0 := by
  refine ⟨⟨by decide, _, _, rfl, rfl, by decide +kernel, by decide⟩,
    ⟨1, by decide, by decide, by decide, ?_, ?_⟩, rfl, trivial⟩
  · refine ⟨⟨by decide, _, _, rfl, rfl, by decide +kernel, by decide⟩,
      ⟨2, by decide, ?_, trivial⟩, rfl, rfl⟩
    exact ⟨by decide, _, _, rfl, rfl, by decide +kernel, by decide⟩
  · exact ⟨by decide, by decide, trivial⟩

theorem Session.run_structured_leavingLoop :
    let setup : Setup Unit := { lines := Code.leavingLoop.lines, bridge := {} }
    let s : Session Unit := { registers := .zeros 1, host := () }
    (s.run setup 10).1 = .ok ⟨4, false⟩ ∧
      Runs (Chain.visit {}) {} false (.block .leavingLoop) s.store .through
        (s.run setup 10).2.store := by
  intro setup s
  have finished : (s.run setup 10).1 = .ok ⟨4, false⟩ := by decide +kernel
  rcases ran : s.run setup 10 with ⟨result, t⟩
  rw [ran] at finished
  obtain rfl : result = .ok ⟨4, false⟩ := finished
  refine ⟨rfl, ?_⟩
  have meets := run_structured .leavingLoop Code.leavingLoop_wellFormed setup rfl 10 s t 4 ran
    .through t.store
  exact meets.mpr ⟨rfl, rfl⟩

/-- `if 1`, `V0 = 1`, `elif V1 = 5`, `V0 = 2`: the second condition assigns. -/
def Code.assigningChain : Code :=
  let write (x : Float) : Line := .ofTerms
    [{ kind := .indent },
      { kind := .assignment, name := some "assign", argCount := 1, index := some 0 },
      Term.ofNumber x]
  .chain
    (.branch (.ofTerms [{ kind := .flow, name := some "if", argCount := 1 }, Term.ofNumber 1.0])
      (.plain (write 1.0) .done)
      (.branch
        (.ofTerms [{ kind := .flow, name := some "elif", argCount := 1 },
          { kind := .assignment, name := some "assign", argCount := 1, index := some 1 },
          Term.ofNumber 5.0])
        (.plain (write 2.0) .done)
        .done))
    .done

theorem Code.assigningChain_wellFormed : assigningChain.WellFormed 0 := by
  refine ⟨⟨⟨by decide, _, _, rfl, rfl, by decide +kernel, by decide⟩,
    ⟨1, by decide, by decide, by decide, trivial⟩, rfl,
    ⟨by decide, _, _, rfl, rfl, by decide +kernel, by decide⟩,
    ⟨1, by decide, by decide, by decide, trivial⟩, rfl, rfl⟩, trivial⟩

/-- After a branch has been taken, a condition that assigns is still evaluated: with the other
branches left alone, the program has one meaning, and it ends with other registers. -/
theorem Session.run_assigningChain_visits :
    let setup : Setup Unit := { lines := Code.assigningChain.lines, bridge := {} }
    let s : Session Unit := { registers := .zeros 2, host := () }
    Code.assigningChain.WellFormed 0 ∧ (s.run setup 10).1 = .ok ⟨3, false⟩ ∧
      ∃ store, Runs Chain.ignore {} false (.block .assigningChain) s.store .through store ∧
        store.registers ≠ (s.run setup 10).2.registers := by
  intro setup s
  refine ⟨Code.assigningChain_wellFormed, by decide +kernel, ⟨s.registers.set (some 0) 1.0, (), []⟩,
    ?_, ?_⟩
  · exact .chain (.taken (x := 1.0) (t := s.store) rfl rfl (.plain rfl .done) rfl) .done
  · intro same
    have assigned : ((s.run setup 10).2.registers.get (some 1) == 5.0) = true := by decide +kernel
    rw [← same] at assigned
    revert assigned
    decide +kernel

end Samples

end Termwise
