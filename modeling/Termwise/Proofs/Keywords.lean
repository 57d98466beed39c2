import Termwise.Proofs.Execution

/-! What flow keywords do to a machine. A keyword does nothing, opens a block, skips the block below
its line, or leaves the innermost loop; a line that holds a single keyword first evaluates its
condition on the store. -/
namespace Termwise

variable {σ : Type}

section Skipping

variable {lines body rest : List Line} {indent : Option Nat} {line : Line} {p pc q : Nat}

theorem drop_cons (place : lines.drop p = line :: rest) :
    lines[p]? = some line ∧ lines.drop (p + 1) = rest := by
  refine ⟨by rw [← List.head?_drop, place, List.head?_cons], ?_⟩
  rw [← List.drop_drop, place, List.drop_one, List.tail_cons]

theorem drop_append (place : lines.drop p = body ++ rest) :
    lines.drop (p + body.length) = rest := by
  rw [← List.drop_drop, place, List.drop_left]

theorem lt_skipBlock (lines : List Line) (indent : Option Nat) (pc : Nat) :
    pc < skipBlock lines indent pc := by
  unfold skipBlock
  omega

theorem skipBlock_le_length (inside : pc < lines.length) :
    skipBlock lines indent pc ≤ lines.length := by
  have short := (List.takeWhile_prefix (fun line => Indent.below indent line.indent)
    (l := lines.drop (pc + 1))).length_le
  rw [List.length_drop] at short
  unfold skipBlock
  omega

theorem length_takeWhile_le_of_fails {α : Type} {keep : α → Bool} {a : α} {l : List α} {k : Nat}
    (found : l[k]? = some a) (fails : keep a = false) : (l.takeWhile keep).length ≤ k := by
  induction l generalizing k with
  | nil => simp
  | cons b l ih =>
    cases k with
    | zero =>
      obtain rfl : b = a := by simpa using found
      simp [fails]
    | succ k =>
      have later := ih (by simpa using found)
      rw [List.takeWhile_cons]
      split
      · simpa using later
      · simp

/-- A skip does not pass a line that is not deeper. -/
theorem skipBlock_le_of_stops (before : pc < q) (found : lines[q]? = some line)
    (stops : Indent.below indent line.indent = false) : skipBlock lines indent pc ≤ q := by
  have place : (lines.drop (pc + 1))[q - (pc + 1)]? = some line := by
    rw [List.getElem?_drop, ← found]
    congr 1
    omega
  have short :
      ((lines.drop (pc + 1)).takeWhile fun line => Indent.below indent line.indent).length ≤
      q - (pc + 1) := length_takeWhile_le_of_fails place stops
  unfold skipBlock
  omega

/-- From the line before a deeper stretch, and from every line of it, a skip leads to its end. -/
theorem skipBlock_of_drop (split : lines.drop p = body ++ rest)
    (deeper : ∀ line ∈ body, Indent.below indent line.indent = true)
    (stops : ∀ line, rest.head? = some line → Indent.below indent line.indent = false)
    (low : p ≤ pc + 1) (high : pc < p + body.length) :
    skipBlock lines indent pc = p + body.length := by
  have remaining : lines.drop (pc + 1) = body.drop (pc + 1 - p) ++ rest := by
    have shifted := congrArg (List.drop (pc + 1 - p)) split
    rw [List.drop_drop, List.drop_append_of_le_length (by omega)] at shifted
    rwa [show p + (pc + 1 - p) = pc + 1 by omega] at shifted
  have kept : (lines.drop (pc + 1)).takeWhile (fun line => Indent.below indent line.indent) =
      body.drop (pc + 1 - p) := by
    rw [remaining, List.takeWhile_append_of_pos fun line member => deeper line
      (List.mem_of_mem_drop member)]
    have none_left : rest.takeWhile (fun line => Indent.below indent line.indent) = [] := by
      cases rest with
      | nil => rfl
      | cons line rest => simp [stops line rfl]
    rw [none_left, List.append_nil]
  unfold skipBlock
  rw [kept, List.length_drop]
  omega

end Skipping

namespace Machine

variable {setup : Setup σ} {indent : Option Nat} {settled chain : Bool} {s : Machine σ}

theorem skip_run (setup : Setup σ) (indent : Option Nat) (chain : Bool) (s : Machine σ) :
    (skip setup indent chain).run s = (.error .jump,
      { s with
        pc := skipBlock setup.lines indent s.pc
        settled := s.settled || (chain &&
          (setup.lines[skipBlock setup.lines indent s.pc]?.map Line.indent) == some indent) }) :=
            rfl

theorem openBlock_run (kind : Flow) (indent : Option Nat) (s : Machine σ) :
    (openBlock kind indent).run s =
      (.ok 0.0, { s with blocks := ⟨kind, indent, s.pc⟩ :: s.blocks }) := rfl

theorem leaveLoop_run (setup : Setup σ) (s : Machine σ) :
    (leaveLoop setup).run s = match s.blocks.dropWhile fun block => block.kind ≠ .loop with
      | [] => (.ok 0.0, s)
      | block :: outer =>
        (.error .jump,
          { s with blocks := outer, pc := skipBlock setup.lines block.indent s.pc }) := by
  simp only [leaveLoop, Exec.run_bind, Exec.run_get]
  cases s.blocks.dropWhile fun block => block.kind ≠ .loop <;> rfl

/-- All that a flow keyword can do. -/
inductive FlowOutcome (setup : Setup σ) (indent : Option Nat) (keyword : Option Flow)
    (s : Machine σ) : Except Interrupt Float × Machine σ → Prop where
  | idle : FlowOutcome setup indent keyword s (.ok 0.0, s)
  | opened {kind : Flow} : keyword = some kind → kind ≠ .leave →
      FlowOutcome setup indent keyword s
        (.ok 0.0, { s with blocks := ⟨kind, indent, s.pc⟩ :: s.blocks })
  | skipped {carried : Bool} :
      (carried = true → s.settled = true ∨
        setup.lines[skipBlock setup.lines indent s.pc]?.map Line.indent = some indent) →
      FlowOutcome setup indent keyword s
        (.error .jump, { s with pc := skipBlock setup.lines indent s.pc, settled := carried })
  | left {block : Block} {outer : List Block} : keyword = some .leave →
      (s.blocks.dropWhile fun block => block.kind ≠ .loop) = block :: outer →
      FlowOutcome setup indent keyword s
        (.error .jump, { s with blocks := outer, pc := skipBlock setup.lines block.indent s.pc })

theorem performFlow_outcome (setup : Setup σ) (indent : Option Nat) (settled : Bool)
    (keyword : Option Flow) (args : List Float) (s : Machine σ) :
    FlowOutcome setup indent keyword s ((performFlow setup indent settled keyword args).run s) := by
  cases keyword with
  | none => exact .idle
  | some kind =>
    cases kind with
    | leave =>
      simp only [performFlow, leaveLoop_run]
      split
      · exact .idle
      · exact .left rfl ‹_›
    | _ =>
      simp only [performFlow]
      split
      · rw [skip_run]
        refine .skipped fun carried => ?_
        simp only [Bool.or_eq_true, Bool.and_eq_true, beq_iff_eq] at carried
        exact carried.imp_right And.right
      · rw [openBlock_run]
        exact .opened rfl (by decide)

/-- What every keyword of a line keeps, and does not look at the store, is kept by executing the
line. -/
theorem execute_keeps_of_flow {I : Machine σ → Prop} {E : Interrupt → Machine σ → Prop}
    {line : Line} (framed : ∀ s t, I s → I (s.withStore t)) (faults : ∀ f s, E (.fault f) s)
    (flow : ∀ keyword : Option Flow, line.calls ≠ [] →
      (∀ kind, keyword = some kind → line.Calls kind) → ∀ args s, I s →
        Keeps I E (fun _ => True) (performFlow setup line.indent settled keyword args) s)
    (holds : I s) : Keeps I E (fun _ => True) (execute setup line settled) s := by
  refine (Keeps.lockstep I E).evalAll_related (N := meaning setup line.indent settled)
    (V := fun _ => True) line.calls ?_ ?_ s holds
  · exact fun t _ s holds =>
      .of_framed (Framed.operandValue setup t s) (fun t => framed s t holds) fun f _ => faults f _
  · intro t member args _ s holds
    obtain ⟨e, inside, head⟩ := Expr.mem_headsOf.mp member
    by_cases kind : t.kind = .flow
    · simp only [meaning, perform, kind]
      exact flow _ (List.ne_nil_of_mem inside)
        (fun keyword same => ⟨e, inside, t, head, kind, same⟩) args s holds
    · exact .of_framed (Framed.perform setup line.indent settled kind args s)
        (fun t => framed s t holds)
        fun f _ => faults f _

end Machine

end Termwise
