import Mathlib.Control.Monad.Basic
import Mathlib.Logic.Relation
import Termwise.Proofs.FlatChain

/-! Which branches of a chain are run. A program that is one chain runs one branch, as long as no
branch is left by a skip. A branch whose last lines are skipped ends without closing its block, and
the rest of the chain goes on as if no branch had been run. -/
namespace Termwise

variable {σ : Type}

/-- The blocks are those of branches. -/
def Tame (blocks : List Block) : Prop :=
  ∀ block ∈ blocks, block.kind ≠ .loop ∧ ∃ level, block.indent = some level

/-- One of the blocks is that of a branch at the outermost level. -/
structure Grounded (blocks : List Block) : Prop where
  tame : Tame blocks
  ground : ∃ block ∈ blocks, block.indent = some 0

theorem Tame.push {blocks : List Block} {block : Block} {level : Nat} (tame : Tame blocks)
    (kind : block.kind ≠ .loop) (indent : block.indent = some level) : Tame (block :: blocks) :=
  List.forall_mem_cons.mpr ⟨⟨kind, level, indent⟩, tame⟩

theorem Grounded.pop {blocks : List Block} {block : Block} {level : Nat}
    (grounded : Grounded (block :: blocks)) (above : Indent.below block.indent (some level) = false)
    (deep : level > 0) : Grounded blocks := by
  obtain ⟨tame, ground, member, outermost⟩ := grounded
  refine ⟨fun block inner => tame block (List.mem_cons_of_mem _ inner), ground, ?_, outermost⟩
  rcases List.mem_cons.mp member with rfl | inner
  · rw [outermost] at above
    exact absurd deep (of_decide_eq_false above)
  · exact inner

namespace Machine

variable {setup : Setup σ} {line : Line} {level : Nat} {settled : Bool} {s t u : Machine σ}

/-- Where the execution of a line of a body leads: to the next line or, if it calls a keyword, over
the lines below it. -/
inductive Advances (setup : Setup σ) (line : Line) (s t : Machine σ) : Prop where
  | next : t.pc = s.pc + 1 → t.previous = line.indent → t.settled = false → Grounded t.blocks →
      Advances setup line s t
  | skip : ¬ line.FlowFree → t.pc = skipBlock setup.lines line.indent s.pc → t.previous = none →
      (t.settled = true → setup.lines[t.pc]?.map Line.indent = some line.indent) →
      Grounded t.blocks →
      Advances setup line s t

structure InBranch (pc : Nat) (s : Machine σ) : Prop where
  here : s.pc = pc
  unsettled : s.settled = false
  grounded : Grounded s.blocks

def SkipsFrom (setup : Setup σ) (line : Line) (pc : Nat) : Interrupt → Machine σ → Prop
  | .jump, s => s.pc = skipBlock setup.lines line.indent pc ∧
      (s.settled = true → setup.lines[s.pc]?.map Line.indent = some line.indent) ∧ Grounded s.blocks
  | .fault _, _ => True

theorem performFlow_advances {pc : Nat} {keyword : Option Flow} {args : List Float}
    (indent : line.indent = some level) (straight : keyword ≠ some .loop ∧ keyword ≠ some .leave)
    (inside : InBranch pc s) :
    Keeps (InBranch pc) (SkipsFrom setup line pc) (fun _ => True)
      (performFlow setup line.indent settled keyword args) s := by
  obtain ⟨here, unsettled, grounded⟩ := inside
  have possible := performFlow_outcome setup line.indent settled keyword args s
  generalize outcome : (performFlow setup line.indent settled keyword args).run s =
    result at possible
  cases possible with
  | idle => exact .of_ok outcome trivial ⟨here, unsettled, grounded⟩
  | @opened kind same =>
    have kind : kind ≠ .loop := by
      rintro rfl
      exact straight.1 same
    obtain ⟨tame, block, member, outermost⟩ := grounded
    refine .of_ok outcome trivial ⟨here, unsettled, tame.push kind indent, ?_⟩
    exact ⟨block, List.mem_cons_of_mem _ member, outermost⟩
  | skipped landing =>
    refine .of_error outcome ⟨by rw [here], fun carried => ?_, grounded⟩
    simpa [unsettled] using landing carried
  | left same => exact absurd same straight.2

theorem enter_advances (indent : line.indent = some level)
    (straight : ¬ line.Calls .loop ∧ ¬ line.Calls .leave) (grounded : Grounded s.blocks)
    (entered : enter setup line settled s = (.ok (), t)) : Advances setup line s t := by
  obtain ⟨r, same, outcome⟩ := enter_situation entered
  simp only [situation, Situation.mk.injEq] at same outcome
  obtain ⟨here, -, blocks, unsettled, -⟩ := same
  have keeps : Keeps (InBranch s.pc) (SkipsFrom setup line s.pc) (fun _ => True)
      (execute setup line settled) r := by
    refine execute_keeps_of_flow
      (fun _ _ inside => ⟨inside.here, inside.unsettled, inside.grounded⟩)
      (fun _ _ => trivial) ?_ ⟨here, unsettled, blocks ▸ grounded⟩
    exact fun keyword _ called args r inside =>
      performFlow_advances indent ⟨fun same => straight.1 (called _ same),
        fun same => straight.2 (called _ same)⟩ inside
  obtain ⟨u, ran, pc, previous, blocks, settled, -⟩ | ⟨u, ran, pc, previous, blocks, settled, -⟩ :=
    outcome
  · obtain ⟨-, here, unsettled, grounded⟩ := keeps.value _ _ ran
    exact .next (pc.trans (by rw [here])) previous (settled.trans unsettled) (blocks ▸ grounded)
  · obtain ⟨skips, landing, grounded⟩ := keeps.interrupt _ _ ran
    have calls : ¬ line.FlowFree := by
      intro free
      obtain ⟨run, stays⟩ := Framed.evalAll setup line.indent _ free r
      exact stays (congrArg Prod.fst (run.symm.trans ran))
    exact .skip calls (pc.trans skips) previous (by rw [settled, pc]; exact landing)
      (blocks ▸ grounded)

theorem stepLine_advances (indent : line.indent = some level) (deep : level > 0)
    (straight : ¬ line.Calls .loop ∧ ¬ line.Calls .leave) (grounded : Grounded s.blocks)
    (stepped : stepLine setup line s = (.ok (), t)) : Advances setup line s t := by
  obtain ⟨v, -, closed, -⟩ | ⟨settled, v, before, step⟩ := stepLine_cases setup line s
  · obtain ⟨block, stack, -, kind, -⟩ := close_again closed
    exact absurd kind (grounded.tame block (stack ▸ List.mem_cons_self)).1
  · rcases before with rfl | closed
    · exact enter_advances indent straight grounded (step.symm.trans stepped)
    · obtain ⟨block, stack, above, -, same⟩ := close_done closed
      rw [stack] at grounded
      rw [indent] at above
      have advances := enter_advances indent straight (grounded.pop above deep)
        (step.symm.trans stepped)
      have here : v.pc = s.pc := by rw [same]
      cases advances with
      | next pc previous unsettled grounded => exact .next (here ▸ pc) previous unsettled grounded
      | skip calls pc previous landing grounded =>
        exact .skip calls (here ▸ pc) previous landing grounded

end Machine

namespace FlatChain

variable {chain : FlatChain} {branch : Branch} {setup : Setup σ} {line : Line} {level k pc : Nat}
  {s t u : Machine σ}

/-- At the head of a branch, in a chain that has not had its branch. -/
structure Fresh (chain : FlatChain) (k : Nat) (s : Machine σ) : Prop where
  here : s.pc = chain.start k
  between : ∃ blocks, Tame blocks ∧ Machine.Between 0 blocks false s

structure Inside (chain : FlatChain) (k : Nat) (s : Machine σ) : Prop where
  body : chain.InBody k s.pc
  grounded : Grounded s.blocks

/-- At the head of a branch that is not the first, in a chain that has had its branch. -/
structure Spent (chain : FlatChain) (k : Nat) (s : Machine σ) : Prop where
  here : s.pc = chain.start k
  later : 0 < k
  between : ∃ blocks, Tame blocks ∧ Machine.Between 0 blocks true s

theorem Inside.advances (inside : chain.Inside k s) (flat : setup.lines = chain.lines)
    (position : chain.branches[k]? = some branch) (found : setup.lines[s.pc]? = some line)
    (stepped : Machine.stepLine setup line s = (.ok (), t)) :
    (∃ level > 0, line.indent = some level) ∧ Machine.Advances setup line s t := by
  obtain ⟨body, grounded⟩ := inside
  obtain ⟨same, -⟩ := body.getElem? position
  have member : line ∈ branch.body := List.mem_of_getElem? (same.symm.trans (flat ▸ found))
  obtain ⟨keyword, fits, -⟩ := fits position
  obtain ⟨level, deep, indent⟩ := fits.level member
  exact ⟨⟨level, deep, indent⟩,
    Machine.stepLine_advances indent deep (fits.straight line member) grounded stepped⟩

/-- A step in a body stays in it, or it leads to its end: by a skip, or from the last line. -/
theorem Inside.step (inside : chain.Inside k s) (flat : setup.lines = chain.lines)
    (found : setup.lines[s.pc]? = some line)
    (stepped : Machine.stepLine setup line s = (.ok (), t)) :
    chain.Inside k t ∨ (t.pc = chain.start (k + 1) ∧ Grounded t.blocks ∧
      ((t.previous = none ∧ t.settled = false) ∨ ∃ level > 0, t.previous = some level)) := by
  obtain ⟨branch, position⟩ := inside.body.exists_branch
  obtain ⟨⟨level, deep, indent⟩, advances⟩ := inside.advances flat position found stepped
  obtain ⟨low, high⟩ := inside.body
  cases advances with
  | next pc previous unsettled grounded =>
    rcases Nat.lt_or_ge t.pc (chain.start (k + 1)) with before | past
    · exact .inl ⟨⟨by omega, before⟩, grounded⟩
    · exact .inr ⟨by omega, grounded, .inr ⟨level, deep, previous.trans indent⟩⟩
  | skip _ pc previous landing grounded =>
    rw [flat, indent] at pc
    have forward := lt_skipBlock chain.lines (some level) s.pc
    have bound := chain.skipBlock_le_start level high
    rcases Nat.lt_or_ge t.pc (chain.start (k + 1)) with before | past
    · exact .inl ⟨⟨by omega, before⟩, grounded⟩
    · have here : t.pc = chain.start (k + 1) := by omega
      refine .inr ⟨here, grounded, .inl ⟨previous, ?_⟩⟩
      by_contra settled
      have same := landing (by simpa using settled)
      rw [flat, here, indent] at same
      obtain ⟨head, found, deepHead⟩ := Option.map_eq_some_iff.mp same
      rw [indent_at_start found] at deepHead
      cases deepHead
      exact absurd deep (Nat.lt_irrefl 0)

/-- At a head of a chain that has not had its branch, the body is entered, or the run goes on to the
next head. -/
theorem Fresh.step (fresh : chain.Fresh k s) (flat : setup.lines = chain.lines)
    (position : chain.branches[k]? = some branch)
    (stepped : Machine.stepLine setup branch.head s = (.ok (), t)) :
    chain.Inside k t ∨ (t.pc = chain.start (k + 1) ∧ t.previous = none ∧ t.settled = false ∧
      Tame t.blocks ∧
      (chain.last.isSome → k + 1 < chain.branches.length)) := by
  obtain ⟨here, blocks, tame, between⟩ := fresh
  obtain ⟨keyword, fits, kind, resort⟩ := FlatChain.fits position
  have heads : keyword ≠ .leave ∧ keyword ≠ .loop := by
    rcases kind with ⟨rfl, -⟩ | ⟨rfl | rfl, -⟩ <;> decide
  rw [between.stepLine fits.head.indent] at stepped
  obtain ⟨x, store, -, outcome⟩ := Machine.enter_head heads.1 fits.head stepped
  simp only [Machine.situation, Situation.mk.injEq] at outcome
  rcases outcome with ⟨-, pc, -, stack, -⟩ | ⟨skipped, pc, previous, stack, carried, -⟩
  · have content := List.length_pos_iff.mpr fits.content
    refine .inl ⟨⟨?_, ?_⟩, ?_, ?_⟩
    · omega
    · rw [start_succ position]
      omega
    · rw [stack]
      exact tame.push heads.2 rfl
    · rw [stack]
      exact ⟨_, List.mem_cons_self, rfl⟩
  · refine .inr ⟨?_, previous, ?_, stack ▸ tame, resort ?_⟩
    · rw [pc, flat, here, skipBlock_head position]
    · simpa using carried
    · rintro rfl
      cases skipped

theorem Spent.step (spent : chain.Spent k s) (flat : setup.lines = chain.lines)
    (position : chain.branches[k]? = some branch)
    (stepped : Machine.stepLine setup branch.head s = (.ok (), t)) :
    t.pc = chain.start (k + 1) ∧ t.previous = none ∧ Tame t.blocks ∧
      (chain.start (k + 1) < chain.lines.length → t.settled = true) := by
  obtain ⟨here, later, blocks, tame, between⟩ := spent
  obtain ⟨keyword, fits, kind, -⟩ := FlatChain.fits position
  have continues : keyword = .orWhen ∨ keyword = .otherwise := by
    rcases kind with ⟨-, first⟩ | ⟨continues, -⟩
    · omega
    · exact continues
  rw [between.stepLine fits.head.indent] at stepped
  have heads : keyword ≠ .leave := by rcases continues with rfl | rfl <;> decide
  obtain ⟨x, store, -, outcome⟩ := Machine.enter_head heads fits.head stepped
  simp only [Machine.situation, Situation.mk.injEq] at outcome
  rcases outcome with ⟨enters, -⟩ | ⟨-, pc, previous, stack, carried, -⟩
  · rcases continues with rfl | rfl <;> cases enters
  · rw [flat, here, skipBlock_head position] at pc carried
    refine ⟨pc, previous, stack ▸ tame, fun inside => ?_⟩
    have found := List.getElem?_eq_getElem inside
    rw [carried, found]
    rcases continues with rfl | rfl <;> simp [Flow.continues, indent_at_start found]

theorem ticks_of_tame (ticked : Machine.Ticks setup s u)
    (tame : ∀ line t, setup.lines[s.pc]? = some line → Machine.stepLine setup line s = (.ok (), t) →
      Tame t.blocks) :
    ∃ line t, setup.lines[s.pc]? = some line ∧ Machine.stepLine setup line s = (.ok (), t) ∧
      t.pc < setup.lines.length ∧ u = { t with steps := t.steps + 1 } := by
  obtain ⟨line, t, found, stepped, ⟨inside, same⟩ | ⟨-, v, closed, -⟩⟩ := Machine.ticks_cases ticked
  · exact ⟨line, t, found, stepped, inside, same⟩
  · obtain ⟨block, stack, -, kind, -⟩ := Machine.close_again closed
    have member : block ∈ t.blocks := by
      rw [show t.blocks = block :: v.blocks from stack]
      exact List.mem_cons_self
    exact absurd kind (tame line t found stepped block member).1

theorem Inside.ticked_step (inside : chain.Inside k s) (flat : setup.lines = chain.lines)
    (ticked : Machine.Ticks setup s u) :
    ∃ line t, setup.lines[s.pc]? = some line ∧ Machine.stepLine setup line s = (.ok (), t) ∧
      u = { t with steps := t.steps + 1 } := by
  obtain ⟨line, t, found, stepped, -, same⟩ := ticks_of_tame ticked fun line t found stepped => by
    rcases inside.step flat found stepped with inside | ⟨-, grounded, -⟩
    · exact inside.grounded.tame
    · exact grounded.tame
  exact ⟨line, t, found, stepped, same⟩

theorem Inside.ticks (inside : chain.Inside k s) (flat : setup.lines = chain.lines)
    (ticked : Machine.Ticks setup s u) :
    chain.Inside k u ∨ (chain.Fresh (k + 1) u ∧ u.previous = none) ∨
      (chain.Spent (k + 1) u ∧ u.previous ≠ none) := by
  obtain ⟨line, t, found, stepped, rfl⟩ := inside.ticked_step flat ticked
  rcases inside.step flat found stepped with inside |
    ⟨here, grounded, ⟨previous, unsettled⟩ | ⟨level, deep, previous⟩⟩
  · exact .inl ⟨inside.body, inside.grounded⟩
  · exact .inr (.inl ⟨⟨here, t.blocks, grounded.tame, .of_jump rfl previous unsettled⟩, previous⟩)
  · refine .inr (.inr ⟨⟨here, Nat.succ_pos k, ?_⟩, fun jumped => by simp [previous] at jumped⟩)
    obtain ⟨tame, block, member, -⟩ := grounded
    -- The innermost block is closed by the next head, whichever block it is.
    cases stack : t.blocks with
    | nil => simp [stack] at member
    | cons block outer =>
      rw [stack] at tame
      obtain ⟨⟨kind, deepest, indent⟩, tame⟩ := List.forall_mem_cons.mp tame
      refine ⟨outer, tame, .closing rfl kind ?_ previous deep⟩
      rw [indent]
      exact decide_eq_false (Nat.not_lt_zero deepest)

theorem Fresh.ticks (fresh : chain.Fresh k s) (flat : setup.lines = chain.lines)
    (ticked : Machine.Ticks setup s u) : chain.Inside k u ∨ chain.Fresh (k + 1) u := by
  have steps (line : Line) (t : Machine σ) (found : setup.lines[s.pc]? = some line)
      (stepped : Machine.stepLine setup line s = (.ok (), t)) :
      chain.Inside k t ∨ (t.pc = chain.start (k + 1) ∧ t.previous = none ∧ t.settled = false ∧
        Tame t.blocks) := by
    rw [flat, fresh.here] at found
    obtain ⟨branch, position, rfl⟩ := branch_at_start found
    exact (fresh.step flat position stepped).imp_right fun ⟨here, previous, unsettled, tame, _⟩ =>
      ⟨here, previous, unsettled, tame⟩
  obtain ⟨line, t, found, stepped, -, rfl⟩ := ticks_of_tame ticked fun line t found stepped => by
    rcases steps line t found stepped with inside | ⟨-, -, -, tame⟩
    · exact inside.grounded.tame
    · exact tame
  rcases steps line t found stepped with inside | ⟨here, previous, unsettled, tame⟩
  · exact .inl ⟨inside.body, inside.grounded⟩
  · exact .inr ⟨here, t.blocks, tame, .of_jump rfl previous unsettled⟩

theorem Spent.ticks (spent : chain.Spent k s) (flat : setup.lines = chain.lines)
    (ticked : Machine.Ticks setup s u) : chain.Spent (k + 1) u := by
  have steps (line : Line) (t : Machine σ) (found : setup.lines[s.pc]? = some line)
      (stepped : Machine.stepLine setup line s = (.ok (), t)) :
      t.pc = chain.start (k + 1) ∧ t.previous = none ∧ Tame t.blocks ∧
        (chain.start (k + 1) < chain.lines.length → t.settled = true) := by
    rw [flat, spent.here] at found
    obtain ⟨branch, position, rfl⟩ := branch_at_start found
    exact spent.step flat position stepped
  obtain ⟨line, t, found, stepped, inside, rfl⟩ := ticks_of_tame ticked fun line t found stepped =>
    (steps line t found stepped).2.2.1
  obtain ⟨here, previous, tame, settled⟩ := steps line t found stepped
  rw [flat, here] at inside
  exact ⟨here, Nat.succ_pos k, t.blocks, tame, .of_jump rfl previous (settled inside)⟩

section Runs

variable {session : Session σ} {i j : Nat}

/-- A run steps a line of the body of a branch. -/
def Steps (chain : FlatChain) (setup : Setup σ) (session : Session σ) (k : Nat) : Prop :=
  ∃ s, Machine.Reaches setup (session.start setup) s ∧ chain.InBody k s.pc

/-- A run leaves the body of a branch by a skip, to the head of the next branch. -/
def LeftBySkip (chain : FlatChain) (setup : Setup σ) (session : Session σ) (k : Nat) : Prop :=
  ∃ s u, Machine.Reaches setup (session.start setup) s ∧ chain.InBody k s.pc ∧
    Machine.Ticks setup s u ∧
    u.pc = chain.start (k + 1) ∧ u.previous = none

/-- A run steps lines of at most one body, and of one at least when there is a last resort. -/
structure OneBranch (chain : FlatChain) (setup : Setup σ) (session : Session σ) : Prop where
  most : ∀ i j, chain.Steps setup session i → chain.Steps setup session j → i = j
  least : chain.last.isSome → ∃ i, chain.Steps setup session i

theorem start_fresh (chain : FlatChain) (setup : Setup σ) (session : Session σ) :
    chain.Fresh 0 (session.start setup) := by
  have between : Machine.Between 0 [] (session.start setup).settled (session.start setup) :=
    .calm (by simp) (by simp)
  rw [Session.start_settled] at between
  exact ⟨by simp [start], [], by simp [Tame], between⟩

def Phase (chain : FlatChain) (k : Nat) (s : Machine σ) : Prop :=
  chain.Fresh k s ∨ chain.Inside k s ∨ chain.Spent k s

/-- A run does not go back to an earlier branch. -/
theorem Phase.reaches (flat : setup.lines = chain.lines) (phase : chain.Phase k s)
    (path : Machine.Reaches setup s t) : ∃ j ≥ k, chain.Phase j t := by
  induction path with
  | refl => exact ⟨k, Nat.le_refl k, phase⟩
  | tail _ ticked ih =>
    obtain ⟨j, later, fresh | inside | spent⟩ := ih
    · rcases fresh.ticks flat ticked with inside | fresh
      · exact ⟨j, later, .inr (.inl inside)⟩
      · exact ⟨j + 1, Nat.le_succ_of_le later, .inl fresh⟩
    · rcases inside.ticks flat ticked with inside | ⟨fresh, -⟩ | ⟨spent, -⟩
      · exact ⟨j, later, .inr (.inl inside)⟩
      · exact ⟨j + 1, Nat.le_succ_of_le later, .inl fresh⟩
      · exact ⟨j + 1, Nat.le_succ_of_le later, .inr (.inr spent)⟩
    · exact ⟨j + 1, Nat.le_succ_of_le later, .inr (.inr (spent.ticks flat ticked))⟩

theorem Phase.inside (phase : chain.Phase j s) (body : chain.InBody k s.pc) :
    j = k ∧ chain.Inside k s := by
  rcases phase with fresh | inside | spent
  · exact absurd fresh.here (body.ne_start j)
  · obtain rfl := inside.body.unique body
    exact ⟨rfl, inside⟩
  · exact absurd spent.here (body.ne_start j)

theorem inside_of_reaches (flat : setup.lines = chain.lines)
    (reached : Machine.Reaches setup (session.start setup) s) (body : chain.InBody k s.pc) :
    chain.Inside k s := by
  obtain ⟨j, -, phase⟩ := Phase.reaches flat (.inl (chain.start_fresh setup session)) reached
  exact (phase.inside body).2

/-- After a body, no other body is stepped before the first has been left by a skip. -/
theorem after_inside (flat : setup.lines = chain.lines)
    (reached : Machine.Reaches setup (session.start setup) s) (inside : chain.Inside k s)
    (path : Machine.Reaches setup s t) :
    chain.Inside k t ∨ chain.LeftBySkip setup session k ∨ ∃ j, chain.Spent j t := by
  induction path with
  | refl => exact .inl inside
  | @tail t u before ticked ih =>
    rcases ih with inside | left | ⟨j, spent⟩
    · rcases inside.ticks flat ticked with inside | ⟨fresh, previous⟩ | ⟨spent, -⟩
      · exact .inl inside
      · exact .inr (.inl ⟨t, u, reached.trans before, inside.body, ticked, fresh.here, previous⟩)
      · exact .inr (.inr ⟨k + 1, spent⟩)
    · exact .inr (.inl left)
    · exact .inr (.inr ⟨j + 1, spent.ticks flat ticked⟩)

/-- Of two bodies that are stepped, the earlier one has been left by a skip. -/
theorem leftBySkip_of_steps (flat : setup.lines = chain.lines) (first : chain.Steps setup session i)
    (second : chain.Steps setup session j) (order : i < j) : chain.LeftBySkip setup session i := by
  obtain ⟨s, reached, body⟩ := first
  obtain ⟨t, reached', body'⟩ := second
  have inside := inside_of_reaches flat reached body
  have inside' := inside_of_reaches flat reached' body'
  rcases reached.total reached' with path | path
  · rcases after_inside flat reached inside path with same | left | ⟨k, spent⟩
    · exact absurd (same.body.unique body') (Nat.ne_of_lt order)
    · exact left
    · exact absurd spent.here (body'.ne_start k)
  · obtain ⟨k, later, phase⟩ := Phase.reaches flat (.inr (.inl inside')) path
    obtain ⟨rfl, -⟩ := phase.inside body
    omega

/-- With a last resort, a run that has not had its branch comes to one. -/
theorem Fresh.steps (flat : setup.lines = chain.lines) (resort : chain.last.isSome = true)
    (fresh : chain.Fresh k s) (reached : Machine.Reaches setup (session.start setup) s)
    (finishes : Machine.Finishes setup s) : ∃ j ≥ k, chain.Steps setup session j := by
  -- The number of branches that are left goes down; there is one as long as there is a line to
  -- step.
  induction left : chain.branches.length - k generalizing k s with
  | zero =>
    have missing : setup.lines[s.pc]? = none := by
      rw [flat, fresh.here, start_of_length_le (by omega)]
      simp
    obtain ⟨u, ticked, -⟩ | ⟨result, u, ended⟩ := finishes.cases
    · obtain ⟨line, t, found, -⟩ := Machine.ticks_cases ticked
      cases missing.symm.trans found
    · obtain ⟨line, t, found, -⟩ := Machine.tick_ends ended
      cases missing.symm.trans found
  | succ left ih =>
    obtain ⟨u, ticked, finishes⟩ | ⟨result, u, ended⟩ := finishes.cases
    · rcases fresh.ticks flat ticked with inside | next
      · exact ⟨k, Nat.le_refl k, u, reached.tail ticked, inside.body⟩
      · obtain ⟨j, later, steps⟩ := ih next (reached.tail ticked) finishes (by omega)
        exact ⟨j, by omega, steps⟩
    · obtain ⟨line, t, found, stepped, outside, -⟩ := Machine.tick_ends ended
      rw [flat, fresh.here] at found
      rw [flat] at outside
      obtain ⟨branch, position, rfl⟩ := branch_at_start found
      rcases fresh.step flat position stepped with inside | ⟨here, -, -, -, more⟩
      · have bound := chain.start_le_length (k + 1)
        have before := inside.body.2
        omega
      · have next := head_at (List.getElem?_eq_getElem (more resort))
        have bound := (List.getElem?_eq_some_iff.mp next).1
        omega

theorem LeftBySkip.steps (left : chain.LeftBySkip setup session k) :
    chain.Steps setup session k := by
  obtain ⟨s, -, reached, body, -⟩ := left
  exact ⟨s, reached, body⟩

theorem LeftBySkip.later (flat : setup.lines = chain.lines) (resort : chain.last.isSome = true)
    (finishes : Machine.Finishes setup (session.start setup))
    (left : chain.LeftBySkip setup session k) : ∃ j > k, chain.Steps setup session j := by
  obtain ⟨s, u, reached, body, ticked, here, previous⟩ := left
  have arrived := reached.tail ticked
  rcases (inside_of_reaches flat reached body).ticks flat ticked with inside |
    ⟨fresh, -⟩ | ⟨-, jumped⟩
  · exact absurd here (inside.body.ne_start (k + 1))
  · exact fresh.steps flat resort arrived (finishes.reaches arrived)
  · exact absurd previous jumped

/-- A body is not left by a skip when its last line calls no keyword and is as shallow as any line
of it. -/
theorem not_leftBySkip (flat : setup.lines = chain.lines)
    (position : chain.branches[k]? = some branch) (plain : branch.EndsPlainly) :
    ¬ chain.LeftBySkip setup session k := by
  rintro ⟨s, u, reached, body, ticked, here, previous⟩
  have inside := inside_of_reaches flat reached body
  obtain ⟨front, last, split, free, shallow⟩ := plain
  have lastly : chain.start (k + 1) = chain.start k + 1 + front.length + 1 := by
    rw [start_succ position, split, List.length_append, List.length_singleton]
    omega
  obtain ⟨line, t, found, stepped, rfl⟩ := inside.ticked_step flat ticked
  obtain ⟨⟨level, deep, indent⟩, advances⟩ := inside.advances flat position found stepped
  obtain ⟨same, -⟩ := body.getElem? position
  rw [flat] at found
  cases advances with
  | next _ reached =>
    cases (reached.trans indent).symm.trans previous
  | skip calls pc =>
    rw [flat] at pc
    rw [same, split] at found
    rcases Nat.lt_or_ge (s.pc - (chain.start k + 1)) front.length with before | after
    · -- A skip from a line before the last one does not pass the last one.
      rw [List.getElem?_append_left before] at found
      have place : chain.InBody k (chain.start k + 1 + front.length) := ⟨by omega, by omega⟩
      have final : chain.lines[chain.start k + 1 + front.length]? = some last := by
        rw [(place.getElem? position).1, split, Nat.add_sub_cancel_left]
        simp
      have bound := skipBlock_le_of_stops (show s.pc < _ by omega) final
        (shallow line (List.mem_of_getElem? found))
      have arrived : t.pc = chain.start (k + 1) := here
      omega
    · have index : s.pc - (chain.start k + 1) = front.length := by
        have high := body.2
        omega
      rw [index] at found
      obtain rfl : last = line := by simpa using found
      exact calls free

end Runs

/-- A run of a chain steps one branch unless a branch that has been left by a skip is followed by
another; with a last resort, unless a branch has been left by a skip at all. A branch that ends
plainly is not left by a skip. -/
theorem oneBranch_iff (chain : FlatChain) (setup : Setup σ) (flat : setup.lines = chain.lines)
    (maxSteps : Int) (session t : Session σ) (n : Nat)
    (finished : session.run setup maxSteps = (.ok ⟨n, false⟩, t)) :
    (chain.OneBranch setup session ↔
      ∀ i j, i < j → chain.LeftBySkip setup session i → ¬ chain.Steps setup session j) ∧
    (chain.last.isSome →
      (chain.OneBranch setup session ↔ ∀ i, ¬ chain.LeftBySkip setup session i)) ∧
    ∀ k branch, chain.branches[k]? = some branch → branch.EndsPlainly →
      ¬ chain.LeftBySkip setup session k := by
  have content : setup.lines ≠ [] := by simp [flat, lines, branches, Branch.lines]
  obtain ⟨u, looped, -⟩ := Session.run_loop content finished
  have finishes : Machine.Finishes setup (session.start setup) := ⟨_, n, u, looped⟩
  have least (resort : chain.last.isSome) : ∃ i, chain.Steps setup session i := by
    obtain ⟨i, -, steps⟩ := (chain.start_fresh setup session).steps flat resort .refl finishes
    exact ⟨i, steps⟩
  have most (left : ∀ i j, i < j → chain.LeftBySkip setup session i → ¬ chain.Steps setup session j)
      (i j : Nat) (first : chain.Steps setup session i) (second : chain.Steps setup session j) : i =
      j := by
    rcases Nat.lt_trichotomy i j with before | same | after
    · exact absurd second (left i j before (leftBySkip_of_steps flat first second before))
    · exact same
    · exact absurd first (left j i after (leftBySkip_of_steps flat second first after))
  refine ⟨⟨fun one i j before left second => ?_, fun left => ⟨most left, least⟩⟩,
    fun resort => ⟨fun one i left => ?_, ?_⟩,
    fun k branch position plain => not_leftBySkip flat position plain⟩
  · exact absurd (one.most i j left.steps second) (Nat.ne_of_lt before)
  · obtain ⟨j, later, second⟩ := left.later flat resort finishes
    exact absurd (one.most i j left.steps second) (Nat.ne_of_lt later)
  · exact fun left => ⟨most fun i _ _ skipped => absurd skipped (left i), least⟩

section Samples

def write (level : Nat) (index : Int) : Line := .ofTerms
  (List.replicate level { kind := .indent } ++
    [{ kind := .assignment, name := some "assign", argCount := 1, index := some index },
      Term.ofNumber 1.0])

/-- A line that runs the lines below it if a number is not zero. -/
def test (level : Nat) (x : Float) : Line := .ofTerms
  (List.replicate level { kind := .indent } ++
    [{ kind := .flow, name := some "if", argCount := 1 }, Term.ofNumber x])

def resort : Branch := ⟨.ofTerms [{ kind := .flow, name := some "else" }], [write 1 1]⟩

theorem resort_fits : resort.Fits .otherwise :=
  ⟨⟨by decide, _, _, rfl, rfl, by decide +kernel, by decide⟩, by simp [resort], by decide,
    by decide +kernel⟩

/-- `if 1`, `V0 = 1`, `else`, `V1 = 1`. -/
def plainChain : FlatChain where
  first := ⟨test 0 1.0, [write 1 0]⟩
  others := []
  last := some resort
  first_fits :=
    ⟨⟨by decide, _, _, rfl, rfl, by decide +kernel, by decide⟩, by simp, by decide,
      by decide +kernel⟩
  others_fit := by simp
  last_fits := by
    rintro branch ⟨⟩
    exact resort_fits

theorem plainChain_oneBranch :
    let setup : Setup Unit := { lines := plainChain.lines, bridge := {} }
    let session : Session Unit := { registers := .zeros 2, host := () }
    (session.run setup 10).1 = .ok ⟨3, false⟩ ∧ plainChain.OneBranch setup session := by
  intro setup session
  have finished : (session.run setup 10).1 = .ok ⟨3, false⟩ := by decide +kernel
  rcases ran : session.run setup 10 with ⟨result, t⟩
  rw [ran] at finished
  obtain rfl : result = .ok ⟨3, false⟩ := finished
  obtain ⟨-, one, plain⟩ := oneBranch_iff plainChain setup rfl 10 session t 3 ran
  refine ⟨rfl, (one rfl).mpr fun k left => ?_⟩
  obtain ⟨s, -, body⟩ := left.steps
  obtain ⟨branch, position⟩ := body.exists_branch
  have ends : branch.EndsPlainly := by
    have member := List.mem_of_getElem? position
    simp only [branches, plainChain, List.nil_append, Option.toList_some, List.mem_cons,
      List.not_mem_nil, or_false] at member
    rcases member with rfl | rfl
    · exact ⟨[], write 1 0, rfl, by decide, by simp⟩
    · exact ⟨[], write 1 1, rfl, by decide, by simp⟩
  exact plain k branch position ends left

/-- `if 1`, `if 0`, `V0 = 1`, `else`, `V1 = 1`: the body of the first branch ends with a block that
is skipped. -/
def skippedChain : FlatChain where
  first := ⟨test 0 1.0, [test 1 0.0, write 2 0]⟩
  others := []
  last := some resort
  first_fits :=
    ⟨⟨by decide, _, _, rfl, rfl, by decide +kernel, by decide⟩, by simp, by decide,
      by decide +kernel⟩
  others_fit := by simp
  last_fits := by
    rintro branch ⟨⟩
    exact resort_fits

/-- Both branches of the sample are run, though the first has been taken. -/
theorem skippedChain_two_branches :
    let setup : Setup Unit := { lines := skippedChain.lines, bridge := {} }
    let session : Session Unit := { registers := .zeros 2, host := () }
    (session.run setup 10).1 = .ok ⟨4, false⟩ ∧ skippedChain.Steps setup session 0 ∧
      skippedChain.Steps setup session 1 ∧ ¬ skippedChain.OneBranch setup session := by
  intro setup session
  let s := (Machine.tick setup (session.start setup)).2
  let t := (Machine.tick setup (Machine.tick setup s).2).2
  have first : Machine.Reaches setup (session.start setup) s :=
    .single (Machine.ticks_of_ok (by decide +kernel))
  have second : Machine.Reaches setup s t :=
    .tail (.single (Machine.ticks_of_ok (by decide +kernel)))
      (Machine.ticks_of_ok (by decide +kernel))
  have steps : skippedChain.Steps setup session 0 := ⟨s, first, by decide +kernel⟩
  have steps' : skippedChain.Steps setup session 1 := ⟨t, first.trans second, by decide +kernel⟩
  exact ⟨by decide +kernel, steps, steps', fun one => absurd (one.most 0 1 steps steps')
    (by decide)⟩

end Samples

end FlatChain

end Termwise
