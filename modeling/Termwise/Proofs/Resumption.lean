import Termwise.Proofs.Structured

/-! The rest of a run from between two statements on. A run that is not stopped by the cap steps the
next line with the blocks around it, and at the end of the body of a loop it goes back. -/
namespace Termwise

variable {σ : Type}

namespace Machine

variable {setup : Setup σ} {line : Line} {keyword : Flow} {level cap : Nat} {settled : Bool}
  {blocks : List Block} {s t u : Machine σ}

/-- The rest of a run after the line of a step has been stepped. -/
def resume (setup : Setup σ) (cap : Nat) (s : Machine σ) : Except Fault Result × Machine σ :=
  if s.pc < setup.lines.length then loop setup cap s
  else
    match s.close (some 0) with
    | (some .again, s) => loop setup cap (restart setup (some 0) s)
    | (_, s) => (.ok ⟨s.steps, false⟩, s)

/-- With `cap` steps to go, the run comes to its end in `u` and is not stopped before. -/
def Ends (setup : Setup σ) (cap : Nat) (s u : Machine σ) : Prop :=
  ∃ n, resume setup cap s = (.ok ⟨n, false⟩, u)

theorem loop_succ (found : setup.lines[s.pc]? = some line) :
    loop setup (cap + 1) s = match stepLine setup line s with
      | (.ok _, t) => resume setup cap { t with steps := t.steps + 1 }
      | (.error f, t) => (.error f, t) := by
  simp only [loop, tick, found]
  rcases stepLine setup line s with ⟨f | _, t⟩
  · rfl
  · simp only [resume]
    by_cases inside : t.pc < setup.lines.length
    · simp only [if_pos inside]
    · simp only [if_neg inside]
      rcases close (some 0) { t with steps := t.steps + 1 } with ⟨_ | _ | _, v⟩ <;> rfl

theorem Ends.step (ends : Ends setup cap s u) (found : setup.lines[s.pc]? = some line) :
    ∃ c t, c < cap ∧ stepLine setup line s = (.ok (), t) ∧
      Ends setup c { t with steps := t.steps + 1 } u := by
  obtain ⟨n, ran⟩ := ends
  rw [resume, if_pos (List.getElem?_eq_some_iff.mp found).1] at ran
  cases cap with
  | zero => cases ran
  | succ c =>
    rw [loop_succ found] at ran
    rcases stepped : stepLine setup line s with ⟨f | _, t⟩
    · rw [stepped] at ran
      cases ran
    · rw [stepped] at ran
      exact ⟨c, t, Nat.lt_succ_self c, rfl, n, ran⟩

theorem Ends.enter (ends : Ends setup cap s u) (between : Between level blocks settled s)
    (found : setup.lines[s.pc]? = some line) (indent : line.indent = some level) :
    ∃ c t v, c < cap ∧ Machine.enter setup line settled { s with blocks := blocks } = (.ok (), v) ∧
      t.situation = v.situation ∧ Ends setup c t u := by
  obtain ⟨c, v, fewer, stepped, ends⟩ := ends.step found
  rw [between.stepLine indent] at stepped
  exact ⟨c, { v with steps := v.steps + 1 }, v, fewer, stepped, rfl, ends⟩

theorem Ends.plain (ends : Ends setup cap s u) (between : Between level blocks settled s)
    (found : setup.lines[s.pc]? = some line) (indent : line.indent = some level)
    (free : line.FlowFree) :
    ∃ c t, c < cap ∧ Ends setup c t u ∧ (line.effect setup.bridge).run s.store = (.ok (), t.store) ∧
      t.pc = s.pc + 1 ∧ t.previous = some level ∧ t.blocks = blocks := by
  obtain ⟨c, t, v, fewer, entered, same, ends⟩ := ends.enter between found indent
  obtain ⟨store, performed, leads⟩ := enter_plain indent free entered
  have place := same.trans leads
  simp only [situation, Situation.mk.injEq] at place
  obtain ⟨pc, previous, stack, -, rfl⟩ := place
  exact ⟨c, t, fewer, ends, performed, pc, previous, stack⟩

theorem Ends.head (ends : Ends setup cap s u) (between : Between level blocks settled s)
    (found : setup.lines[s.pc]? = some line) (heads : keyword ≠ .leave)
    (holds : line.Holds keyword level) :
    ∃ c t x, c < cap ∧ Ends setup c t u ∧
      (line.condition setup.bridge).run s.store = (.ok x, t.store) ∧
      ((keyword.enters settled x = true ∧ t.pc = s.pc + 1 ∧ t.previous = some level ∧
          t.blocks = ⟨keyword, some level, s.pc⟩ :: blocks) ∨
        (keyword.enters settled x = false ∧ t.pc = skipBlock setup.lines (some level) s.pc ∧
          t.previous = none ∧
          t.blocks = blocks ∧ t.settled = ((keyword.continues && settled) &&
            (setup.lines[skipBlock setup.lines (some level) s.pc]?.map Line.indent) ==
              some (some level)))) := by
  obtain ⟨c, t, v, fewer, entered, same, ends⟩ := ends.enter between found holds.indent
  obtain ⟨x, store, evaluated, outcome⟩ := enter_head heads holds entered
  rw [← same] at outcome
  simp only [situation, Situation.mk.injEq] at outcome
  refine ⟨c, t, x, fewer, ends, ?_, ?_⟩
  · rcases outcome with ⟨-, -, -, -, -, rfl⟩ | ⟨-, -, -, -, -, rfl⟩ <;> exact evaluated
  · rcases outcome with ⟨enters, pc, previous, stack, -, -⟩ |
      ⟨enters, pc, previous, stack, carried, -⟩
    · exact .inl ⟨enters, pc, previous, stack⟩
    · exact .inr ⟨enters, pc, previous, stack, carried⟩

theorem Ends.leave (ends : Ends setup cap s u) (between : Between level blocks settled s)
    (found : setup.lines[s.pc]? = some line) (holds : line.Holds .leave level) :
    ∃ c t x, c < cap ∧ Ends setup c t u ∧
      (line.condition setup.bridge).run s.store = (.ok x, t.store) ∧
      ((blocks.dropWhile (fun block => block.kind ≠ .loop) = [] ∧ t.pc = s.pc + 1 ∧
        t.previous = some level ∧
          t.blocks = blocks) ∨
        ∃ block outer, blocks.dropWhile (fun block => block.kind ≠ .loop) = block :: outer ∧
          t.pc = skipBlock setup.lines block.indent s.pc ∧ t.previous = none ∧
            t.blocks = outer) := by
  obtain ⟨c, t, v, fewer, entered, same, ends⟩ := ends.enter between found holds.indent
  obtain ⟨x, store, evaluated, outcome⟩ := enter_leave holds entered
  rw [← same] at outcome
  refine ⟨c, t, x, fewer, ends, ?_⟩
  cases rest : blocks.dropWhile fun block => block.kind ≠ .loop with
  | nil =>
    simp only [rest, situation, Situation.mk.injEq] at outcome
    obtain ⟨pc, previous, stack, -, rfl⟩ := outcome
    exact ⟨evaluated, .inl ⟨rfl, pc, previous, stack⟩⟩
  | cons block outer =>
    simp only [rest, situation, Situation.mk.injEq] at outcome
    obtain ⟨pc, previous, stack, -, rfl⟩ := outcome
    exact ⟨evaluated, .inr ⟨block, outer, rfl, pc, previous, stack⟩⟩

/-- At the end of the body of a loop a run goes back to its line, also when that is the end of the
program. -/
theorem Ends.again (ends : Ends setup cap s u) {start inner : Nat}
    (inside : start < setup.lines.length) (stack : s.blocks = ⟨.loop, some level, start⟩ :: blocks)
    (previous : s.previous = some inner) (deeper : level < inner)
    (stops : Stops level (setup.lines.drop s.pc)) :
    ∃ c t, c ≤ cap ∧ Ends setup c t u ∧ t.store = s.store ∧ t.pc = start ∧ t.previous = none ∧
      t.blocks = blocks := by
  cases found : setup.lines[s.pc]? with
  | none =>
    obtain ⟨n, ran⟩ := ends
    have outside : ¬ s.pc < setup.lines.length :=
      Nat.not_lt.mpr (List.getElem?_eq_none_iff.mp found)
    have closed : s.close (some 0) = (some .again, { s with blocks := blocks, pc := start }) := by
      simp [close, stack, Indent.below]
    simp only [resume, outside, if_false, closed] at ran
    refine ⟨cap, restart setup (some 0) { s with blocks := blocks, pc := start }, Nat.le_refl cap,
      ⟨n, ?_⟩, ?_⟩
    · rwa [resume, if_pos (by simpa using inside)]
    · simp only [store_restart, pc_restart, previous_restart, blocks_restart, and_self]
  | some line =>
    obtain ⟨shallow, bound, indent⟩ := stops line (by rw [List.head?_drop, found])
    obtain ⟨c, t, fewer, stepped, ends⟩ := ends.step found
    have dedent : dedents line.indent s.previous = true := by
      rw [indent, previous]
      exact decide_eq_true (by omega)
    have closed : s.close line.indent =
        (some .again, { s with blocks := blocks, pc := start }) := by
      simp [close, stack, indent, Indent.below, bound]
    simp only [Machine.stepLine, dedent, if_true, closed, Prod.mk.injEq, true_and] at stepped
    subst stepped
    refine ⟨c, _, Nat.le_of_lt fewer, ends, ?_, ?_, ?_, ?_⟩
    · exact store_restart ..
    · exact pc_restart ..
    · exact previous_restart ..
    · exact blocks_restart ..

end Machine

end Termwise
