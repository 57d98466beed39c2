import Mathlib.Logic.Function.Basic
import Termwise.Proofs.Keywords
import Termwise.Proofs.Steps

/-! Two runs side by side. Machines are matched when they are at the same place with the same blocks
open and their sessions are related; the two programs may number the levels of indentation
differently, as long as all comparisons come out the same. When every line ends alike on matched
machines, so does a whole run. -/
namespace Termwise

variable {σ τ α β : Type}

/-- A change of the numbers of the levels that keeps every comparison a run makes. -/
structure Renumbering (g : Option Nat → Option Nat) : Prop where
  injective : Function.Injective g
  below : ∀ i j, Indent.below (g i) (g j) = Indent.below i j
  outermost : ∀ i, Indent.below (g i) (some 0) = Indent.below i (some 0)
  dedents : ∀ i j, Machine.dedents (g i) (g j) = Machine.dedents i j

theorem Renumbering.identity : Renumbering id :=
  ⟨Function.injective_id, fun _ _ => rfl, fun _ => rfl, fun _ _ => rfl⟩

def Block.renumber (g : Option Nat → Option Nat) (block : Block) : Block :=
  { block with indent := g block.indent }

theorem skipBlock_eq_of_indents (lines : List Line) (indent : Option Nat) (pc : Nat) :
    skipBlock lines indent pc =
      pc + 1 + (((lines.map Line.indent).drop (pc + 1)).takeWhile
        (Indent.below indent)).length := by
  unfold skipBlock
  rw [← List.map_drop, List.takeWhile_map, List.length_map]
  rfl

/-- Two programs with as many lines and with indentations that correspond. -/
def Aligned (g : Option Nat → Option Nat) (first second : List Line) : Prop :=
  second.map Line.indent = first.map fun line => g line.indent

namespace Aligned

variable {g : Option Nat → Option Nat} {first second : List Line}

theorem length (aligned : Aligned g first second) : second.length = first.length := by
  simpa using congrArg List.length aligned

theorem indent_at (aligned : Aligned g first second) (pc : Nat) :
    second[pc]?.map Line.indent = first[pc]?.map fun line => g line.indent := by
  simpa using congrArg (·[pc]?) aligned

theorem skipBlock (aligned : Aligned g first second) (renumbering : Renumbering g)
    (indent : Option Nat) (pc : Nat) :
    skipBlock second (g indent) pc = skipBlock first indent pc := by
  have kept : ∀ indents : List (Option Nat),
      ((indents.map g).takeWhile (Indent.below (g indent))).length =
        (indents.takeWhile (Indent.below indent)).length := by
    intro indents
    rw [List.takeWhile_map, List.length_map]
    congr 2
    funext i
    exact renumbering.below indent i
  have moved : second.map Line.indent = (first.map Line.indent).map g := by
    rw [aligned, List.map_map]
    rfl
  rw [skipBlock_eq_of_indents, skipBlock_eq_of_indents, moved, ← List.map_drop, kept]

end Aligned

/-- Two computations end alike: with the same outcome, and in related states. -/
structure Alike {ε S T : Type} (R : S → T → Prop) (V : α → Prop) (x : Except ε α × S)
    (y : Except ε α × T) : Prop where
  outcome : y.1 = x.1
  states : R x.2 y.2
  value : ∀ a, x.1 = .ok a → V a

namespace Machine

/-- Computations that end alike from related machines. -/
def pairing (R : Machine σ → Machine τ → Prop) : Lockstep (Exec σ) (Exec τ) where
  Related V c d := ∀ s t, R s t → Alike R V (c.run s) (d.run t)
  ofPure fits s t related := ⟨rfl, related, fun _ same => Except.ok.inj same ▸ fits⟩
  ofBind {_ _ _ _ c d f g} first later s t related := by
    obtain ⟨outcome, states, value⟩ := first s t related
    rw [Exec.run_bind, Exec.run_bind]
    rcases ran : c.run s with ⟨x, u⟩
    rcases other : d.run t with ⟨y, v⟩
    rw [ran] at outcome states value
    rw [other] at outcome states
    dsimp only at outcome
    subst outcome
    cases y with
    | error e => exact ⟨rfl, states, fun a same => nomatch same⟩
    | ok a => exact later a (value a rfl) u v states

variable {g : Option Nat → Option Nat} {R : Session σ → Session τ → Prop} {P : Setup σ}
  {Q : Setup τ} {indent : Option Nat} {s : Machine σ} {t : Machine τ}

/-- Machines at the same place of a run. What the line before means for the next one is told by the
comparison that is made with it, since the first line of a run has none before it. -/
structure Matched (g : Option Nat → Option Nat) (R : Session σ → Session τ → Prop) (s : Machine σ)
    (t : Machine τ) : Prop where
  session : R s.toSession t.toSession
  pc : t.pc = s.pc
  previous : ∀ i, dedents (g i) t.previous = dedents i s.previous
  blocks : t.blocks = s.blocks.map (Block.renumber g)
  steps : t.steps = s.steps
  settled : t.settled = s.settled

theorem dedents_none (i : Option Nat) : dedents i none = false := by cases i <;> rfl

theorem Matched.jumped (matched : Matched g R s t) :
    Matched g R { s with previous := none } { t with previous := none } :=
  { matched with previous := fun i => by rw [dedents_none, dedents_none] }

theorem Matched.unsettled (matched : Matched g R s t) :
    Matched g R { s with settled := false } { t with settled := false } :=
  { matched with settled := rfl }

/-- Two setups that can be run side by side. -/
structure Paired (g : Option Nat → Option Nat) (R : Session σ → Session τ → Prop) (P : Setup σ)
    (Q : Setup τ) : Prop where
  aligned : Aligned g P.lines Q.lines
  executes : ∀ (pc : Nat) first second, P.lines[pc]? = some first → Q.lines[pc]? = some second →
    ∀ settled s t,
    Matched g R s t → Alike (Matched g R) (fun _ => True) ((execute P first settled).run s)
      ((execute Q second settled).run t)
  logs : ∀ s t, Matched g R s t → ∀ i j rule, j = i ∨ j = g i →
    R (log P i rule s).toSession (log Q j rule t).toSession
  notes : ∀ s t, Matched g R s t → ∀ notice, R (note notice s).toSession (note notice t).toSession

theorem Paired.log (paired : Paired g R P Q) {i j : Option Nat} (rule : Rule)
    (same : j = i ∨ j = g i) (matched : Matched g R s t) :
    Matched g R (log P i rule s) (log Q j rule t) := by
  refine ⟨paired.logs s t matched i j rule same, ?_, ?_, ?_, ?_, ?_⟩
  · simpa using matched.pc
  · simpa using matched.previous
  · simpa using matched.blocks
  · simpa using matched.steps
  · simpa using matched.settled

theorem skip_paired (renumbering : Renumbering g) (aligned : Aligned g P.lines Q.lines)
    (indent : Option Nat) (chain : Bool) (matched : Matched g R s t) :
    Alike (Matched g R) (fun _ => True) ((skip P indent chain).run s)
      ((skip Q (g indent) chain).run t) := by
  have carried : ((Q.lines[skipBlock P.lines indent s.pc]?.map Line.indent) == some (g indent)) =
      ((P.lines[skipBlock P.lines indent s.pc]?.map Line.indent) == some indent) := by
    rw [aligned.indent_at]
    cases P.lines[skipBlock P.lines indent s.pc]? with
    | none => rfl
    | some line => simp [renumbering.injective.eq_iff]
  rw [skip_run, skip_run, matched.pc, aligned.skipBlock renumbering, carried, matched.settled]
  exact ⟨rfl, { matched with pc := rfl, settled := rfl }, fun _ _ => trivial⟩

theorem openBlock_paired (kind : Flow) (indent : Option Nat) (matched : Matched g R s t) :
    Alike (Matched g R) (fun _ => True) ((openBlock kind indent).run s)
      ((openBlock kind (g indent)).run t) := by
  refine ⟨rfl, { matched with blocks := ?_ }, fun _ _ => trivial⟩
  simp [openBlock_run, matched.blocks, matched.pc, Block.renumber]

theorem leaveLoop_paired (renumbering : Renumbering g) (aligned : Aligned g P.lines Q.lines)
    (matched : Matched g R s t) :
    Alike (Matched g R) (fun _ => True) ((leaveLoop P).run s) ((leaveLoop Q).run t) := by
  have inner : (t.blocks.dropWhile fun block => block.kind ≠ .loop) =
      (s.blocks.dropWhile fun block => block.kind ≠ .loop).map (Block.renumber g) := by
    rw [matched.blocks, List.dropWhile_map]
    rfl
  rw [leaveLoop_run, leaveLoop_run, inner]
  cases s.blocks.dropWhile fun block => block.kind ≠ .loop with
  | nil => exact ⟨rfl, matched, fun _ _ => trivial⟩
  | cons block outer =>
    refine ⟨rfl, { matched with pc := ?_, blocks := rfl }, fun _ _ => trivial⟩
    simp only [matched.pc]
    exact aligned.skipBlock renumbering block.indent s.pc

theorem performFlow_paired (renumbering : Renumbering g) (aligned : Aligned g P.lines Q.lines)
    (indent : Option Nat) (settled : Bool) (keyword : Option Flow) (args : List Float)
    (matched : Matched g R s t) :
    Alike (Matched g R) (fun _ => True) ((performFlow P indent settled keyword args).run s)
      ((performFlow Q (g indent) settled keyword args).run t) := by
  cases keyword with
  | none => exact ⟨rfl, matched, fun _ _ => trivial⟩
  | some kind =>
    cases kind with
    | leave => exact leaveLoop_paired renumbering aligned matched
    | _ =>
      simp only [performFlow]
      split
      · exact skip_paired renumbering aligned indent _ matched
      · exact openBlock_paired _ indent matched

theorem close_paired {i j : Option Nat} (same : ∀ k, Indent.below (g k) j = Indent.below k i)
    (matched : Matched g R s t) :
    (t.close j).1 = (s.close i).1 ∧ Matched g R (s.close i).2 (t.close j).2 := by
  unfold close
  rw [matched.blocks]
  cases stack : s.blocks with
  | nil => exact ⟨rfl, matched⟩
  | cons block outer =>
    simp only [List.map_cons, Block.renumber, same]
    split
    · exact ⟨rfl, matched⟩
    · split
      · exact ⟨rfl, { matched with pc := rfl, blocks := rfl }⟩
      · exact ⟨rfl, { matched with blocks := rfl }⟩

theorem restart_paired (paired : Paired g R P Q) {i j : Option Nat} (same : j = i ∨ j = g i)
    (matched : Matched g R s t) : Matched g R (restart P i s) (restart Q j t) :=
  paired.log .loop same matched.jumped

theorem enter_paired (renumbering : Renumbering g) (paired : Paired g R P Q) {pc : Nat}
    {first second : Line} (here : P.lines[pc]? = some first) (there : Q.lines[pc]? = some second)
    (settled : Bool) (matched : Matched g R s t) :
    Alike (Matched g R) (fun _ => True) (enter P first settled s) (enter Q second settled t) := by
  have indent : second.indent = g first.indent := by
    simpa [here, there] using paired.aligned.indent_at pc
  have ends := paired.executes pc first second here there settled _ _
    (paired.log .line (.inr indent) matched.unsettled)
  unfold enter
  rcases ran : (execute P first settled).run
    (Machine.log P first.indent .line { s with settled := false }) with
    ⟨x, u⟩
  rcases other : (execute Q second settled).run
    (Machine.log Q second.indent .line { t with settled := false }) with
    ⟨y, v⟩
  rw [ran, other] at ends
  obtain ⟨outcome, states, -⟩ := ends
  dsimp only at outcome states
  subst outcome
  rcases y with (_ | f) | _
  · exact ⟨rfl, paired.log .jump (.inr indent) states.jumped, fun _ _ => trivial⟩
  · exact ⟨rfl, states, fun _ _ => trivial⟩
  · refine ⟨rfl, { states with pc := ?_, previous := ?_ }, fun _ _ => trivial⟩
    · simp [states.pc]
    · intro i
      rw [indent]
      exact renumbering.dedents i first.indent

theorem stepLine_paired (renumbering : Renumbering g) (paired : Paired g R P Q) {pc : Nat}
    {first second : Line} (here : P.lines[pc]? = some first) (there : Q.lines[pc]? = some second)
    (matched : Matched g R s t) :
    Alike (Matched g R) (fun _ => True) (stepLine P first s) (stepLine Q second t) := by
  have indent : second.indent = g first.indent := by
    simpa [here, there] using paired.aligned.indent_at pc
  have same : dedents second.indent t.previous = dedents first.indent s.previous := by
    rw [indent]
    exact matched.previous first.indent
  have below : ∀ k, Indent.below (g k) second.indent = Indent.below k first.indent := by
    intro k
    rw [indent]
    exact renumbering.below k first.indent
  unfold stepLine
  rw [same]
  by_cases dedent : dedents first.indent s.previous = true
  · rw [if_pos dedent, if_pos dedent]
    have closes := close_paired below matched
    rcases closed : s.close first.indent with ⟨_, u⟩
    rcases other : t.close second.indent with ⟨closing, v⟩
    rw [closed, other] at closes
    obtain ⟨rfl, after⟩ := closes
    cases closing with
    | none =>
      dsimp only
      rw [after.settled]
      exact enter_paired renumbering paired here there u.settled after
    | some closing =>
      cases closing with
      | again =>
        exact ⟨rfl, restart_paired paired (.inr indent) after.unsettled, fun _ _ => trivial⟩
      | done => exact enter_paired renumbering paired here there true after
  · rw [if_neg dedent, if_neg dedent]
    dsimp only
    rw [matched.settled]
    exact enter_paired renumbering paired here there s.settled matched

theorem tick_paired (renumbering : Renumbering g) (paired : Paired g R P Q)
    (matched : Matched g R s t) : Alike (Matched g R) (fun _ => True) (tick P s) (tick Q t) := by
  have place : Q.lines[t.pc]?.map Line.indent = P.lines[s.pc]?.map fun line => g line.indent := by
    rw [matched.pc]
    exact paired.aligned.indent_at s.pc
  unfold tick
  cases here : P.lines[s.pc]? with
  | none =>
    have there : Q.lines[t.pc]? = none := by simpa [here] using place
    rw [there]
    exact ⟨by simp [matched.pc], matched, fun _ _ => trivial⟩
  | some first =>
    obtain ⟨second, there, -⟩ : ∃ second, Q.lines[t.pc]? = some second ∧
      second.indent = g first.indent := by
      simpa [here] using place
    have steps := stepLine_paired renumbering paired here (matched.pc ▸ there) matched
    rw [there]
    dsimp only
    rcases stepped : stepLine P first s with ⟨x, u⟩
    rcases other : stepLine Q second t with ⟨y, v⟩
    rw [stepped, other] at steps
    obtain ⟨outcome, states, -⟩ := steps
    dsimp only at outcome states
    subst outcome
    cases y with
    | error f => exact ⟨rfl, states, fun _ _ => trivial⟩
    | ok _ =>
      have counted : Matched g R { u with steps := u.steps + 1 } { v with steps := v.steps + 1 } :=
        { states with steps := by simp [states.steps] }
      have bound : v.pc < Q.lines.length ↔ u.pc < P.lines.length := by
        rw [states.pc, paired.aligned.length]
      dsimp only
      by_cases inside : u.pc < P.lines.length
      · rw [if_pos inside, if_pos (bound.mpr inside)]
        exact ⟨rfl, counted, fun _ _ => trivial⟩
      · rw [if_neg inside, if_neg (mt bound.mp inside)]
        have closes := close_paired (j := some 0) renumbering.outermost counted
        rcases closed : close (some 0) { u with steps := u.steps + 1 } with ⟨_, w⟩
        rcases alsoClosed : close (some 0) { v with steps := v.steps + 1 } with ⟨closing, z⟩
        rw [closed, alsoClosed] at closes
        obtain ⟨rfl, after⟩ := closes
        dsimp only at after
        rcases closing with _ | _ | _
        · exact ⟨by simp [after.steps], after, fun _ _ => trivial⟩
        · exact ⟨rfl, restart_paired paired (.inl rfl) after, fun _ _ => trivial⟩
        · exact ⟨by simp [after.steps], after, fun _ _ => trivial⟩

theorem loop_paired (renumbering : Renumbering g) (paired : Paired g R P Q) (cap : Nat)
    (matched : Matched g R s t) :
    Alike (fun u v => R u.toSession v.toSession) (fun _ => True) (loop P cap s) (loop Q cap t) := by
  induction cap generalizing s t with
  | zero =>
    have logged := paired.log .halt (.inl (Eq.refl (none : Option Nat))) matched
    refine ⟨?_, ?_, fun _ _ => trivial⟩
    · simp [loop, halt, matched.steps]
    · simp only [loop, halt, matched.steps, matched.pc]
      exact paired.notes _ _ logged _
  | succ cap ih =>
    have ticks := tick_paired renumbering paired matched
    unfold loop
    rcases ticked : tick P s with ⟨x, u⟩
    rcases other : tick Q t with ⟨y, v⟩
    rw [ticked, other] at ticks
    obtain ⟨outcome, states, -⟩ := ticks
    dsimp only at outcome states
    subst outcome
    rcases y with f | _ | result
    · exact ⟨rfl, states.session, fun _ _ => trivial⟩
    · exact ih states
    · exact ⟨rfl, states.session, fun _ _ => trivial⟩

end Machine

/-- Paired setups have the same results, and take related sessions to related sessions. -/
theorem Session.run_paired {g : Option Nat → Option Nat} {R : Session σ → Session τ → Prop}
    {P : Setup σ} {Q : Setup τ} (renumbering : Renumbering g) (paired : Machine.Paired g R P Q)
    (maxSteps : Int) {a : Session σ} {b : Session τ} (related : R a b)
    (started : R (a.start P).toSession (b.start Q).toSession) :
    Alike R (fun _ => True) (a.run P maxSteps) (b.run Q maxSteps) := by
  have empty : Q.lines.isEmpty = P.lines.isEmpty := by
    rw [Bool.eq_iff_iff, List.isEmpty_iff_length_eq_zero, List.isEmpty_iff_length_eq_zero,
      paired.aligned.length]
  have matched : Machine.Matched g R (a.start P) (b.start Q) := by
    refine ⟨started, by simp, ?_, by simp, ?_, by simp⟩
    · intro i
      rw [Session.start_previous, Session.start_previous]
      cases i <;> cases g _ <;> simp [Machine.dedents]
    · unfold Session.start
      rfl
  unfold Session.run
  rw [empty]
  split
  · exact ⟨rfl, related, fun _ _ => trivial⟩
  · obtain ⟨outcome, states, -⟩ := Machine.loop_paired renumbering paired maxSteps.toNat matched
    exact ⟨outcome, states, fun _ _ => trivial⟩

end Termwise
