import Termwise.Proofs.Keywords
import Termwise.Proofs.Steps

/-! The stack of open blocks, for every program and however it is indented. Each open block stands
for a keyword on the line that opened it, inner blocks were opened no earlier than outer ones and no
later than the current line, and the program counter stays inside the program. So a step goes back
only by closing a loop. -/
namespace Termwise

variable {σ : Type}

theorem forest_of_indents {terms : List Term} (blank : ∀ t ∈ terms, t.kind = .indent) :
    Expr.forest terms = [] := by
  induction terms with
  | nil => rfl
  | cons t rest ih =>
    have later := ih fun u member => blank u (List.mem_cons_of_mem t member)
    simp only [Expr.forest] at later
    simp [Expr.forest, later, Expr.push, blank t List.mem_cons_self, Kind.isOperand, Kind.isCall]

/-- A line that calls anything has content, so it has an indentation. -/
theorem Line.indent_of_calls {terms : List Term} {e : Expr}
    (member : e ∈ (Line.ofTerms terms).calls) :
    ∃ level, (Line.ofTerms terms).indent = some level := by
  cases found : indentLevel? terms with
  | some level => exact ⟨level, found⟩
  | none =>
    have blank : ∀ t ∈ terms, t.kind = .indent := by simpa [indentLevel?] using found
    simp [Line.calls, Line.ofTerms, forest_of_indents blank] at member

theorem Program.indented {rows : List (List Term)} {line : Line}
    (member : line ∈ Program.ofTerms rows) {e : Expr} (called : e ∈ line.calls) :
    ∃ level, line.indent = some level := by
  obtain ⟨terms, -, rfl⟩ := List.mem_map.mp member
  exact Line.indent_of_calls called

/-- A block was opened by a keyword of its line, at the indentation of the line. -/
structure Block.Opened (lines : List Line) (block : Block) : Prop where
  kind : block.kind ∈ [Flow.when, .orWhen, .otherwise, .loop]
  line : ∃ line level, lines[block.opener]? = some line ∧ line.indent = some level ∧
    block.indent = some level ∧ line.Calls block.kind

/-- Blocks, innermost first, that were opened one after the other up to the line `pc`. -/
structure Orderly (lines : List Line) (pc : Nat) (blocks : List Block) : Prop where
  ordered : blocks.Pairwise fun inner outer => outer.opener ≤ inner.opener
  reached : ∀ block ∈ blocks, block.opener ≤ pc
  opened : ∀ block ∈ blocks, block.Opened lines

namespace Orderly

variable {lines : List Line} {pc later : Nat} {block : Block} {blocks outer : List Block}

theorem nil : Orderly lines pc [] := ⟨.nil, by simp, by simp⟩

theorem weaken (orderly : Orderly lines pc blocks) (bound : pc ≤ later) :
    Orderly lines later blocks :=
  ⟨orderly.ordered, fun block member => Nat.le_trans (orderly.reached block member) bound,
    orderly.opened⟩

theorem sublist (orderly : Orderly lines pc blocks) (part : outer.Sublist blocks) :
    Orderly lines pc outer :=
  ⟨orderly.ordered.sublist part, fun block member => orderly.reached block (part.mem member),
    fun block member => orderly.opened block (part.mem member)⟩

theorem push {kind : Flow} {indent : Option Nat} (orderly : Orderly lines pc blocks)
    (opened : Block.Opened lines ⟨kind, indent, pc⟩) :
    Orderly lines pc (⟨kind, indent, pc⟩ :: blocks) := by
  refine ⟨.cons orderly.reached orderly.ordered, ?_, ?_⟩
  · intro block member
    rcases List.mem_cons.mp member with rfl | old
    · exact Nat.le_refl pc
    · exact orderly.reached block old
  · intro block member
    rcases List.mem_cons.mp member with rfl | old
    · exact opened
    · exact orderly.opened block old

theorem rewind (orderly : Orderly lines pc (block :: outer)) : Orderly lines block.opener outer :=
  ⟨(List.pairwise_cons.mp orderly.ordered).2, (List.pairwise_cons.mp orderly.ordered).1,
    fun block member => orderly.opened block (List.mem_cons_of_mem _ member)⟩

theorem opener_lt (orderly : Orderly lines pc (block :: outer)) : block.opener < lines.length := by
  obtain ⟨line, _, found, -⟩ := (orderly.opened block List.mem_cons_self).line
  exact (List.getElem?_eq_some_iff.mp found).1

end Orderly

namespace Machine

variable {setup : Setup σ} {line : Line} {settled : Bool} {pc : Nat} {s t u : Machine σ}

/-- A machine at the head of the step loop. -/
structure Sound (lines : List Line) (s : Machine σ) : Prop where
  inside : s.pc < lines.length
  orderly : Orderly lines s.pc s.blocks

structure Executing (lines : List Line) (pc : Nat) (s : Machine σ) : Prop where
  here : s.pc = pc
  orderly : Orderly lines pc s.blocks

/-- What holds where an execution of the line `pc` is interrupted: a jump leads forward. -/
def Interrupted (lines : List Line) (pc : Nat) : Interrupt → Machine σ → Prop
  | .jump, s => pc < s.pc ∧ s.pc ≤ lines.length ∧ Orderly lines pc s.blocks
  | .fault _, _ => True

theorem performFlow_keeps (found : setup.lines[pc]? = some line) {level : Nat}
    (indented : line.indent = some level) {keyword : Option Flow}
    (called : ∀ kind, keyword = some kind → line.Calls kind) (args : List Float)
    (executing : Executing setup.lines pc s) :
    Keeps (Executing setup.lines pc) (Interrupted setup.lines pc) (fun _ => True)
      (performFlow setup line.indent settled keyword args) s := by
  obtain ⟨here, orderly⟩ := executing
  have inside : pc < setup.lines.length := (List.getElem?_eq_some_iff.mp found).1
  have forward (indent : Option Nat) :
      pc < skipBlock setup.lines indent s.pc ∧
      skipBlock setup.lines indent s.pc ≤ setup.lines.length := by
    rw [here]
    exact ⟨lt_skipBlock .., skipBlock_le_length inside⟩
  have possible := performFlow_outcome setup line.indent settled keyword args s
  generalize outcome : (performFlow setup line.indent settled keyword args).run s =
    result at possible
  cases possible with
  | idle => exact .of_ok outcome trivial ⟨here, orderly⟩
  | @opened kind same opens =>
    refine .of_ok outcome trivial ⟨here, ?_⟩
    rw [here]
    refine orderly.push ⟨?_, line, level, found, indented, indented, called kind same⟩
    cases kind <;> simp_all
  | skipped => exact .of_error outcome ⟨(forward _).1, (forward _).2, orderly⟩
  | @left block outer _ rest =>
    have part : outer.Sublist s.blocks :=
      (List.sublist_cons_self block outer).trans (rest ▸ List.dropWhile_sublist _)
    exact .of_error outcome ⟨(forward _).1, (forward _).2, orderly.sublist part⟩

theorem execute_keeps (settled : Bool) (found : setup.lines[pc]? = some line)
    (indented : ∀ e ∈ line.calls, ∃ level, line.indent = some level)
    (executing : Executing setup.lines pc s) :
    Keeps (Executing setup.lines pc) (Interrupted setup.lines pc) (fun _ => True)
      (execute setup line settled) s := by
  refine execute_keeps_of_flow (fun s _ executing => ⟨executing.here, executing.orderly⟩)
    (fun _ _ => trivial) ?_ executing
  intro keyword content called args s executing
  obtain ⟨e, member⟩ := List.exists_mem_of_ne_nil line.calls content
  obtain ⟨level, indent⟩ := indented e member
  exact performFlow_keeps found indent called args executing

/-- The innermost of `blocks` was a loop, it has been closed, and `u` is at its line. -/
def ClosesLoop (blocks : List Block) (u : Machine σ) : Prop :=
  ∃ indent, blocks = ⟨.loop, indent, u.pc⟩ :: u.blocks

theorem closesLoop_of_close {indent : Option Nat} (closed : s.close indent = (some .again, t)) :
    ClosesLoop s.blocks t := by
  obtain ⟨⟨kind, level, opener⟩, stack, -, rfl, same⟩ := close_again closed
  refine ⟨level, ?_⟩
  rw [stack]
  congr 2
  rw [same]

theorem Sound.of_closesLoop {lines : List Line} {blocks : List Block}
    (orderly : Orderly lines pc blocks) (closes : ClosesLoop blocks u) : Sound lines u := by
  obtain ⟨indent, rfl⟩ := closes
  exact ⟨orderly.opener_lt, orderly.rewind⟩

theorem ClosesLoop.calls_loop {lines : List Line} {blocks : List Block}
    (closes : ClosesLoop blocks u) (orderly : Orderly lines pc blocks) :
    ∃ line, lines[u.pc]? = some line ∧ line.Calls .loop := by
  obtain ⟨indent, rfl⟩ := closes
  obtain ⟨line, level, found, -, -, called⟩ := (orderly.opened _ List.mem_cons_self).line
  exact ⟨line, found, called⟩

theorem stepLine_sound (found : setup.lines[s.pc]? = some line)
    (indented : ∀ e ∈ line.calls, ∃ level, line.indent = some level) (sound : Sound setup.lines s)
    (stepped : stepLine setup line s = (.ok (), t)) :
    (Sound setup.lines t ∧ ClosesLoop s.blocks t) ∨
    (s.pc < t.pc ∧ t.pc ≤ setup.lines.length ∧ Orderly setup.lines t.pc t.blocks) := by
  obtain ⟨v, -, closed, step⟩ | ⟨settled, v, before, step⟩ := stepLine_cases setup line s
  · obtain ⟨-, rfl⟩ := Prod.mk.inj (step.symm.trans stepped)
    have closes : ClosesLoop s.blocks (restart setup line.indent { v with settled := false }) := by
      simpa only [ClosesLoop, pc_restart, blocks_restart] using closesLoop_of_close closed
    exact .inl ⟨.of_closesLoop sound.orderly closes, closes⟩
  · have executing :
        Executing setup.lines s.pc (log setup line.indent .line { v with settled := false }) := by
      refine ⟨?_, ?_⟩ <;> simp only [pc_log, blocks_log]
      · rcases before with rfl | closed
        · rfl
        · obtain ⟨_, -, -, -, same⟩ := close_done closed
          rw [same]
      · rcases before with rfl | closed
        · exact sound.orderly
        · obtain ⟨block, stack, -, -, -⟩ := close_done closed
          exact sound.orderly.sublist (stack ▸ List.sublist_cons_self block v.blocks)
    have keeps := execute_keeps settled found indented executing
    obtain ⟨w, ran, rfl⟩ | ⟨w, ran, rfl⟩ := enter_cases (step.symm.trans stepped)
    · obtain ⟨-, here, orderly⟩ := keeps.value _ _ ran
      refine .inr ⟨?_, ?_, ?_⟩ <;> simp only [here]
      · omega
      · exact sound.inside
      · exact orderly.weaken (Nat.le_succ _)
    · obtain ⟨forward, bound, orderly⟩ := keeps.interrupt _ _ ran
      refine .inr ⟨?_, ?_, ?_⟩ <;> simp only [pc_log, blocks_log]
      · exact forward
      · exact bound
      · exact orderly.weaken (Nat.le_of_lt forward)

/-- The places where a step can have closed a loop: before its line, or after it at the end of the
program. -/
def GoesBack (setup : Setup σ) (s u : Machine σ) : Prop :=
  ClosesLoop s.blocks u ∨ ∃ line t, setup.lines[s.pc]? = some line ∧
    stepLine setup line s = (.ok (), t) ∧
    setup.lines.length ≤ t.pc ∧ ClosesLoop t.blocks u

theorem ticks_sound
    (indented : ∀ line ∈ setup.lines, ∀ e ∈ line.calls, ∃ level, line.indent = some level)
    (sound : Sound setup.lines s) (ticked : Ticks setup s u) :
    Sound setup.lines u ∧
      (u.pc ≤ s.pc → GoesBack setup s u ∧ ∃ line, setup.lines[u.pc]? = some line ∧
        line.Calls .loop) := by
  obtain ⟨line, t, found, stepped, next⟩ := ticks_cases ticked
  have leads := stepLine_sound found (indented line (List.mem_of_getElem? found)) sound stepped
  rcases next with ⟨inside, rfl⟩ | ⟨outside, v, closed, rfl⟩
  · rcases leads with ⟨sound', closes⟩ | ⟨forward, -, orderly⟩
    · exact ⟨⟨sound'.inside, sound'.orderly⟩,
        fun _ => ⟨.inl closes, closes.calls_loop sound.orderly⟩⟩
    · exact ⟨⟨inside, orderly⟩, fun back => absurd forward (Nat.not_lt.mpr back)⟩
  · have closes : ClosesLoop t.blocks (restart setup (some 0) v) := by
      simpa only [ClosesLoop, pc_restart, blocks_restart] using closesLoop_of_close closed
    rcases leads with ⟨sound', -⟩ | ⟨-, -, orderly⟩
    · exact absurd sound'.inside (Nat.not_lt.mpr outside)
    · exact ⟨.of_closesLoop orderly closes,
        fun _ => ⟨.inr ⟨line, t, found, stepped, outside, closes⟩, closes.calls_loop orderly⟩⟩

theorem reaches_sound
    (indented : ∀ line ∈ setup.lines, ∀ e ∈ line.calls, ∃ level, line.indent = some level)
    (sound : Sound setup.lines s) (path : Reaches setup s t) : Sound setup.lines t := by
  induction path with
  | refl => exact sound
  | tail _ ticked ih => exact (ticks_sound indented ih ticked).1

end Machine

theorem Session.start_sound {setup : Setup σ} (content : setup.lines ≠ []) (s : Session σ) :
    Machine.Sound setup.lines (s.start setup) := by
  constructor
  · rw [Session.start_pc]
    exact List.length_pos_iff.mpr content
  · rw [Session.start_blocks]
    exact .nil

/-- In every state of every run the program counter is inside the program and the open blocks are in
order. A step that does not go forward has closed a loop and is at a line that calls the loop
keyword. -/
theorem flow_stack_orderly (rows : List (List Term)) (setup : Setup σ)
    (program : setup.lines = Program.ofTerms rows) (content : rows ≠ []) (session : Session σ)
    (s : Machine σ) (reached : Machine.Reaches setup (session.start setup) s) :
    s.pc < setup.lines.length ∧ Orderly setup.lines s.pc s.blocks ∧
    ∀ u, Machine.Ticks setup s u → u.pc ≤ s.pc →
      Machine.GoesBack setup s u ∧ ∃ line, setup.lines[u.pc]? = some line ∧ line.Calls .loop := by
  have indented : ∀ line ∈ setup.lines, ∀ e ∈ line.calls, ∃ level, line.indent = some level := by
    intro line member e called
    rw [program] at member
    obtain ⟨terms, -, rfl⟩ := List.mem_map.mp member
    exact Line.indent_of_calls called
  have initial : Machine.Sound setup.lines (session.start setup) := by
    refine ⟨?_, ?_⟩
    · rw [Session.start_pc, program, Program.ofTerms, List.length_map]
      exact List.length_pos_iff.mpr content
    · rw [Session.start_blocks]
      exact .nil
  have sound := Machine.reaches_sound indented initial reached
  exact ⟨sound.inside, sound.orderly, fun u ticked => (Machine.ticks_sound indented sound ticked).2⟩

/-- An endless loop with one line in its body: the second step goes from the last line back to the
first. -/
theorem flow_stack_orderly_loop :
    let rows : List (List Term) :=
      [[{ kind := .flow, name := some "while", argCount := 1 }, Term.ofNumber 1.0],
        [{ kind := .indent }, { kind := .assignment, name := some "assignInc", index := some 0 }]]
    let setup : Setup Unit := { lines := Program.ofTerms rows, bridge := {} }
    let s := (Machine.tick setup (Session.start setup { registers := .zeros 1, host := () })).2
    let u := (Machine.tick setup s).2
    s.pc = 1 ∧ u.pc = 0 ∧ Machine.GoesBack setup s u := by
  intro rows setup s u
  have reached :
      Machine.Reaches setup (Session.start setup { registers := .zeros 1, host := () }) s :=
    .single (Machine.ticks_of_ok rfl)
  have holds := flow_stack_orderly rows setup rfl (List.cons_ne_nil _ _) _ s reached
  exact ⟨rfl, rfl, (holds.2.2 u (Machine.ticks_of_ok rfl) (Nat.zero_le _)).1⟩

end Termwise
