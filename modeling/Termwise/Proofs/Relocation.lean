import Termwise.Proofs.Pairing
import Termwise.Proofs.Resumption

/-! A program behind other lines. Once a run has come past the lines in front and has no block open,
it goes on as a run of the program alone does: the program counter, the first lines of open blocks
and the count of steps are off by the number of lines in front, and all else is the same. -/
namespace Termwise

variable {σ α : Type}

section Lines

variable (front lines : List Line) (indent : Option Nat) (pc : Nat)

theorem getElem?_behind : (front ++ lines)[pc + front.length]? = lines[pc]? := by
  rw [List.getElem?_append_right (Nat.le_add_left _ _), Nat.add_sub_cancel]

theorem skipBlock_behind :
    skipBlock (front ++ lines) indent (pc + front.length) =
      skipBlock lines indent pc + front.length := by
  have rest : (front ++ lines).drop (pc + front.length + 1) = lines.drop (pc + 1) := by
    rw [show pc + front.length + 1 = front.length + (pc + 1) by omega, ← List.drop_drop,
      List.drop_left]
  unfold skipBlock
  rw [rest]
  omega

end Lines

def Block.shift (k : Nat) (block : Block) : Block := { block with opener := block.opener + k }

/-- The result of a run that goes on after `k` steps. -/
def Result.later (k : Nat) (result : Result) : Result := ⟨k + result.steps, result.halted⟩

/-- The second program is the first one behind the lines `front`, on the same host. -/
structure Setup.Behind (front : List Line) (P Q : Setup σ) : Prop where
  lines : Q.lines = front ++ P.lines
  bridge : Q.bridge = P.bridge

theorem Alike.of_framed {R : Machine σ → Machine σ → Prop} {s t : Machine σ} {c e : Exec σ α}
    {d : Calculation σ α} (first : Framed s c d) (second : Framed t e d) (same : t.store = s.store)
    (related : ∀ store, R (s.withStore store) (t.withStore store)) :
    Alike R (fun _ => True) (c.run s) (e.run t) := by
  rw [first.run, second.run, same]
  exact ⟨rfl, related _, fun _ _ => trivial⟩

namespace Machine

variable {front : List Line} {P Q : Setup σ} {line : Line} {indent : Option Nat} {k : Nat}
  {s t : Machine σ}

/-- Machines at the same place of a program, the second of which counts `k` lines and steps more.
What the line before was is left open. -/
structure Shifted (k : Nat) (s t : Machine σ) : Prop where
  store : t.store = s.store
  pc : t.pc = s.pc + k
  blocks : t.blocks = s.blocks.map (Block.shift k)
  steps : t.steps = s.steps + k
  settled : t.settled = s.settled

theorem Shifted.withStore (shifted : Shifted k s t) (store : Store σ) :
    Shifted k (s.withStore store) (t.withStore store) := { shifted with store := rfl }

theorem Shifted.log (shifted : Shifted k s t) (i j : Option Nat) (rule : Rule) :
    Shifted k (log P i rule s) (log Q j rule t) := by
  constructor
  · simpa using shifted.store
  · simpa using shifted.pc
  · simpa using shifted.blocks
  · simpa using shifted.steps
  · simpa using shifted.settled

theorem skip_shifted (behind : Setup.Behind front P Q) (indent : Option Nat) (chain : Bool)
    (shifted : Shifted front.length s t) :
    Alike (Shifted front.length) (fun _ => True) ((skip P indent chain).run s)
      ((skip Q indent chain).run t) := by
  rw [skip_run, skip_run, behind.lines, shifted.pc, skipBlock_behind, getElem?_behind,
    shifted.settled]
  exact ⟨rfl, { shifted with pc := rfl, settled := rfl }, fun _ _ => trivial⟩

theorem openBlock_shifted (kind : Flow) (indent : Option Nat) (shifted : Shifted k s t) :
    Alike (Shifted k) (fun _ => True) ((openBlock kind indent).run s)
      ((openBlock kind indent).run t) := by
  refine ⟨rfl, { shifted with blocks := ?_ }, fun _ _ => trivial⟩
  simp [openBlock_run, shifted.blocks, shifted.pc, Block.shift]

theorem leaveLoop_shifted (behind : Setup.Behind front P Q) (shifted : Shifted front.length s t) :
    Alike (Shifted front.length) (fun _ => True) ((leaveLoop P).run s) ((leaveLoop Q).run t) := by
  have inner : (t.blocks.dropWhile fun block => block.kind ≠ .loop) =
      (s.blocks.dropWhile fun block => block.kind ≠ .loop).map (Block.shift front.length) := by
    rw [shifted.blocks, List.dropWhile_map]
    rfl
  rw [leaveLoop_run, leaveLoop_run, inner]
  cases s.blocks.dropWhile fun block => block.kind ≠ .loop with
  | nil => exact ⟨rfl, shifted, fun _ _ => trivial⟩
  | cons block outer =>
    refine ⟨rfl, { shifted with pc := ?_, blocks := rfl }, fun _ _ => trivial⟩
    simp only [behind.lines, shifted.pc]
    exact skipBlock_behind front P.lines block.indent s.pc

theorem performFlow_shifted (behind : Setup.Behind front P Q) (indent : Option Nat) (settled : Bool)
    (keyword : Option Flow) (args : List Float) (shifted : Shifted front.length s t) :
    Alike (Shifted front.length) (fun _ => True) ((performFlow P indent settled keyword args).run s)
      ((performFlow Q indent settled keyword args).run t) := by
  cases keyword with
  | none => exact ⟨rfl, shifted, fun _ _ => trivial⟩
  | some kind =>
    cases kind with
    | leave => exact leaveLoop_shifted behind shifted
    | _ =>
      simp only [performFlow]
      split
      · exact skip_shifted behind indent _ shifted
      · exact openBlock_shifted _ indent shifted

theorem execute_shifted (behind : Setup.Behind front P Q) (line : Line) (settled : Bool)
    (shifted : Shifted front.length s t) :
    Alike (Shifted front.length) (fun _ => True) ((execute P line settled).run s)
      ((execute Q line settled).run t) := by
  apply (pairing (Shifted front.length)).evalAll_related (V := fun _ => True)
  · intro u _ s t shifted
    have second := Framed.operandValue Q u t
    rw [behind.bridge] at second
    exact .of_framed (Framed.operandValue P u s) second shifted.store shifted.withStore
  · intro u _ args _ s t shifted
    by_cases flow : u.kind = .flow
    · simp only [meaning, perform, flow]
      exact performFlow_shifted behind line.indent settled _ args shifted
    · have second := Framed.perform Q line.indent settled flow args t
      rw [behind.bridge] at second
      exact .of_framed (Framed.perform P line.indent settled flow args s) second shifted.store
        shifted.withStore
  · exact shifted

theorem close_shifted (indent : Option Nat) (shifted : Shifted k s t) :
    (t.close indent).1 = (s.close indent).1 ∧ Shifted k (s.close indent).2 (t.close indent).2 := by
  unfold close
  rw [shifted.blocks]
  cases stack : s.blocks with
  | nil => exact ⟨rfl, shifted⟩
  | cons block outer =>
    simp only [List.map_cons, Block.shift]
    split
    · exact ⟨rfl, shifted⟩
    · split
      · exact ⟨rfl, { shifted with pc := rfl, blocks := rfl }⟩
      · exact ⟨rfl, { shifted with blocks := rfl }⟩

/-- After a line has been stepped, the line before is the same as well. -/
theorem enter_shifted (behind : Setup.Behind front P Q) (line : Line) (settled : Bool)
    (shifted : Shifted front.length s t) :
    Alike (Shifted front.length) (fun _ => True) (enter P line settled s) (enter Q line settled t) ∧
      ((enter P line settled s).1 = .ok () →
        (enter Q line settled t).2.previous = (enter P line settled s).2.previous) := by
  have entered : Shifted front.length (Machine.log P line.indent .line { s with settled := false })
      (Machine.log Q line.indent .line { t with settled := false }) :=
    Shifted.log (s := { s with settled := false }) (t := { t with settled := false })
      { shifted with settled := rfl } line.indent line.indent .line
  have ends := execute_shifted behind line settled entered
  unfold enter
  rcases ran :
    (execute P line settled).run (Machine.log P line.indent .line { s with settled := false }) with
    ⟨x, u⟩
  rcases other :
    (execute Q line settled).run (Machine.log Q line.indent .line { t with settled := false }) with
    ⟨y, v⟩
  rw [ran, other] at ends
  obtain ⟨outcome, states, -⟩ := ends
  dsimp only at outcome states
  subst outcome
  rcases y with (_ | f) | _
  · have jumped : Shifted front.length { u with previous := none } { v with previous := none } :=
      { states with }
    exact ⟨⟨rfl, jumped.log _ _ .jump, fun _ _ => trivial⟩, fun _ => by simp⟩
  · exact ⟨⟨rfl, states, fun _ _ => trivial⟩, fun faulted => nomatch faulted⟩
  · have onwards : v.pc + 1 = u.pc + 1 + front.length := by rw [states.pc]; omega
    exact ⟨⟨rfl, { states with pc := onwards }, fun _ _ => trivial⟩, fun _ => rfl⟩

/-- Without open blocks there is nothing to close, whatever the line before was. -/
theorem stepLine_of_no_blocks (setup : Setup σ) (line : Line) (none_open : s.blocks = []) :
    stepLine setup line s = enter setup line s.settled s := by
  have closed : s.close line.indent = (none, s) := by simp [close, none_open]
  unfold stepLine
  rw [closed, ite_self]

theorem stepLine_shifted (behind : Setup.Behind front P Q) (line : Line)
    (shifted : Shifted front.length s t) (level : s.blocks = [] ∨ t.previous = s.previous) :
    Alike (Shifted front.length) (fun _ => True) (stepLine P line s) (stepLine Q line t) ∧
      ((stepLine P line s).1 = .ok () →
        (stepLine Q line t).2.previous = (stepLine P line s).2.previous) := by
  -- The line before is looked at to close a block, so it may differ where no block is open.
  rcases level with none_open | same
  · have also_none : t.blocks = [] := by rw [shifted.blocks, none_open, List.map_nil]
    rw [stepLine_of_no_blocks P line none_open, stepLine_of_no_blocks Q line also_none,
      shifted.settled]
    exact enter_shifted behind line s.settled shifted
  · unfold stepLine
    rw [same]
    by_cases dedent : dedents line.indent s.previous = true
    · rw [if_pos dedent, if_pos dedent]
      have closes := close_shifted line.indent shifted
      rcases closed : s.close line.indent with ⟨_, u⟩
      rcases other : t.close line.indent with ⟨closing, v⟩
      rw [closed, other] at closes
      obtain ⟨rfl, after⟩ := closes
      cases closing with
      | none =>
        dsimp only
        rw [after.settled]
        exact enter_shifted behind line u.settled after
      | some closing =>
        cases closing with
        | again =>
          have unsettled : Shifted front.length { u with settled := false, previous := none }
              { v with settled := false, previous := none } := { after with settled := rfl }
          exact ⟨⟨rfl, unsettled.log _ _ .loop, fun _ _ => trivial⟩, fun _ => by simp⟩
        | done => exact enter_shifted behind line true after
    · rw [if_neg dedent, if_neg dedent]
      dsimp only
      rw [shifted.settled]
      exact enter_shifted behind line s.settled shifted

/-- The program counter and the first lines of the open blocks are inside the program, however it is
indented. -/
structure Anchored (lines : List Line) (s : Machine σ) : Prop where
  inside : s.pc < lines.length
  openers : ∀ block ∈ s.blocks, block.opener < lines.length

theorem execute_anchored {setup : Setup σ} (line : Line) (settled : Bool)
    (anchored : Anchored setup.lines s) :
    Keeps (Anchored setup.lines)
      (fun e t => e = .jump → ∀ block ∈ t.blocks, block.opener < setup.lines.length)
      (fun _ => True) (execute setup line settled) s := by
  apply execute_keeps_of_flow
  · intro s _ anchored
    exact ⟨anchored.inside, anchored.openers⟩
  · intro f s jump
    cases jump
  · intro keyword _ _ args s anchored
    have possible := performFlow_outcome setup line.indent settled keyword args s
    generalize outcome : (performFlow setup line.indent settled keyword args).run s =
      after at possible
    cases possible with
    | idle => exact .of_ok outcome trivial anchored
    | opened =>
      refine .of_ok outcome trivial ⟨anchored.inside, ?_⟩
      intro block member
      rcases List.mem_cons.mp member with rfl | old
      · exact anchored.inside
      · exact anchored.openers block old
    | skipped => exact .of_error outcome fun _ => anchored.openers
    | @left block outer _ rest =>
      refine .of_error outcome fun _ other member => anchored.openers other ?_
      exact (List.dropWhile_sublist _).mem (rest ▸ List.mem_cons_of_mem block member)
  · exact anchored

theorem Anchored.of_again {lines : List Line}
    (openers : ∀ block ∈ s.blocks, block.opener < lines.length)
    (closed : s.close indent = (some .again, t)) : Anchored lines t := by
  obtain ⟨block, stack, -, -, same⟩ := close_again closed
  rw [stack] at openers
  constructor
  · rw [same]
    exact openers block List.mem_cons_self
  · intro other member
    exact openers other (List.mem_cons_of_mem block member)

theorem stepLine_openers {setup : Setup σ} (anchored : Anchored setup.lines s)
    (stepped : stepLine setup line s = (.ok (), t)) :
    ∀ block ∈ t.blocks, block.opener < setup.lines.length := by
  obtain ⟨u, -, closed, step⟩ | ⟨settled, u, before, step⟩ := stepLine_cases setup line s
  · obtain ⟨-, rfl⟩ := Prod.mk.inj (step.symm.trans stepped)
    rw [blocks_restart]
    exact (Anchored.of_again anchored.openers closed).openers
  · have entered :
        Anchored setup.lines (Machine.log setup line.indent .line { u with settled := false }) := by
      have kept : Anchored setup.lines u := by
        rcases before with rfl | closed
        · exact anchored
        · obtain ⟨block, stack, -, -, same⟩ := close_done closed
          refine ⟨by rw [same]; exact anchored.inside, fun other member => ?_⟩
          exact anchored.openers other (stack ▸ List.mem_cons_of_mem block member)
      exact ⟨by simpa using kept.inside, by simpa using kept.openers⟩
    have keeps := execute_anchored line settled entered
    obtain ⟨v, ran, rfl⟩ | ⟨v, ran, rfl⟩ := enter_cases (step.symm.trans stepped)
    · exact (keeps.value _ _ ran).2.openers
    · rw [blocks_log]
      exact keeps.interrupt .jump v ran rfl

/-- The second run ends as the first one, `k` steps later, with the same registers and the same
host. -/
structure Later (k : Nat) (x y : Except Fault Result × Machine σ) : Prop where
  outcome : y.1 = x.1.map (Result.later k)
  registers : y.2.registers = x.2.registers
  host : y.2.host = x.2.host

theorem Later.of_shifted {x : Except Fault Result} (shifted : Shifted k s t) :
    Later k (x, s) (x.map (Result.later k), t) :=
  ⟨rfl, congrArg Store.registers shifted.store, congrArg Store.host shifted.store⟩

theorem resume_shifted (behind : Setup.Behind front P Q) {cap : Nat}
    (loops : ∀ s t : Machine σ, Anchored P.lines s → Shifted front.length s t →
      (s.blocks = [] ∨ t.previous = s.previous) → Later front.length (loop P cap s) (loop Q cap t))
    (openers : ∀ block ∈ s.blocks, block.opener < P.lines.length)
    (shifted : Shifted front.length s t) (same : t.previous = s.previous) :
    Later front.length (resume P cap s) (resume Q cap t) := by
  have bound : t.pc < Q.lines.length ↔ s.pc < P.lines.length := by
    rw [behind.lines, List.length_append, shifted.pc]
    omega
  unfold resume
  by_cases inside : s.pc < P.lines.length
  · rw [if_pos inside, if_pos (bound.mpr inside)]
    exact loops s t ⟨inside, openers⟩ shifted (.inr same)
  · rw [if_neg inside, if_neg (mt bound.mp inside)]
    have closes := close_shifted (some 0) shifted
    rcases closed : s.close (some 0) with ⟨_, u⟩
    rcases other : t.close (some 0) with ⟨closing, v⟩
    rw [closed, other] at closes
    obtain ⟨rfl, after⟩ := closes
    have ended : Result.later front.length ⟨u.steps, false⟩ = ⟨v.steps, false⟩ := by
      rw [after.steps, Nat.add_comm]
      rfl
    rcases closing with _ | _ | _
    · dsimp only
      rw [← ended]
      exact .of_shifted after
    · have anchored := Anchored.of_again openers closed
      have jumped : Shifted front.length { u with previous := none } { v with previous := none } :=
        { after with }
      have restarted : Anchored P.lines (restart P (some 0) u) :=
        ⟨by simpa using anchored.inside, by simpa using anchored.openers⟩
      exact loops _ _ restarted (jumped.log _ _ .loop) (.inr (by simp))
    · dsimp only
      rw [← ended]
      exact .of_shifted after

/-- A program behind other lines runs as it does alone, from a machine on that has come past these
lines. -/
theorem loop_shifted (behind : Setup.Behind front P Q) (cap : Nat) (s t : Machine σ)
    (anchored : Anchored P.lines s) (shifted : Shifted front.length s t)
    (level : s.blocks = [] ∨ t.previous = s.previous) :
    Later front.length (loop P cap s) (loop Q cap t) := by
  induction cap generalizing s t with
  | zero =>
    have logged : Shifted front.length (Machine.log P none .halt s) (Machine.log Q none .halt t) :=
      shifted.log _ _ _
    have count : t.steps = front.length + s.steps := by rw [shifted.steps, Nat.add_comm]
    refine ⟨?_, congrArg Store.registers logged.store, congrArg Store.host logged.store⟩
    simp only [loop, halt, count]
    rfl
  | succ cap ih =>
    obtain ⟨line, found⟩ : ∃ line, P.lines[s.pc]? = some line :=
      ⟨_, List.getElem?_eq_getElem anchored.inside⟩
    have also_found : Q.lines[t.pc]? = some line := by
      rw [behind.lines, shifted.pc, getElem?_behind, found]
    rw [loop_succ found, loop_succ also_found]
    obtain ⟨⟨outcome, states, -⟩, previous⟩ := stepLine_shifted behind line shifted level
    rcases stepped : stepLine P line s with ⟨x, u⟩
    rcases other : stepLine Q line t with ⟨y, v⟩
    rw [stepped, other] at outcome states previous
    dsimp only at outcome states
    subst outcome
    cases y with
    | error f => exact .of_shifted (x := .error f) states
    | ok _ =>
      have counted : Shifted front.length { u with steps := u.steps + 1 }
          { v with steps := v.steps + 1 } :=
        { states with steps := by simp only [states.steps]; omega }
      have openers := stepLine_openers anchored stepped
      exact resume_shifted behind ih openers counted (previous rfl)

end Machine

end Termwise
