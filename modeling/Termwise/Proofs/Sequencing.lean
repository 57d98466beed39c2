import Termwise.Proofs.Relocation
import Termwise.Proofs.StepCap

/-! Programs run one after the other. Lines without flow keywords act on the store one by one and
leave no block open, so they may be cut into programs of their own, and a program behind them runs
as it does in a session that has run them before. -/
namespace Termwise

variable {σ : Type}

/-- Lines without flow keywords, performed on a store in order up to the first fault. -/
inductive Program.Performs (bridge : Host.Bridge σ) :
    List Line → Store σ → Except Fault Unit → Store σ → Prop where
  | done {s : Store σ} : Performs bridge [] s (.ok ()) s
  | next {line : Line} {rest : List Line} {s t u : Store σ} {outcome : Except Fault Unit} :
      line.FlowFree → (line.effect bridge).run s = (.ok (), t) → Performs bridge rest t outcome u →
      Performs bridge (line :: rest) s outcome u
  | fault {line : Line} {rest : List Line} {s t : Store σ} {f : Fault} : line.FlowFree →
      (line.effect bridge).run s = (.error (.fault f), t) →
      Performs bridge (line :: rest) s (.error f) t

namespace Program

variable {bridge : Host.Bridge σ} {lines first second : List Line} {s t u : Store σ}
  {outcome : Except Fault Unit}

/-- No such line jumps, so the lines are performed to their end or to a fault. -/
theorem exists_performs (bridge : Host.Bridge σ) (free : ∀ line ∈ lines, line.FlowFree)
    (s : Store σ) : ∃ outcome t, Performs bridge lines s outcome t := by
  induction lines generalizing s with
  | nil => exact ⟨.ok (), s, .done⟩
  | cons line rest ih =>
    have plain : line.FlowFree := free line List.mem_cons_self
    have stays : ((line.effect bridge).run s).1 ≠ .error .jump :=
      (Framed.evalAll { lines := [], bridge := bridge } none false plain s.machine).stays
    rcases ran : (line.effect bridge).run s with ⟨(_ | f) | _, t⟩
    · rw [ran] at stays
      exact absurd rfl stays
    · exact ⟨.error f, t, .fault plain ran⟩
    · obtain ⟨outcome, u, later⟩ :=
        ih (fun line member => free line (List.mem_cons_of_mem _ member)) t
      exact ⟨outcome, u, .next plain ran later⟩

theorem Performs.append_cases (performs : Performs bridge (first ++ second) s outcome u) :
    (∃ f, outcome = .error f ∧ Performs bridge first s (.error f) u) ∨
    ∃ t, Performs bridge first s (.ok ()) t ∧ Performs bridge second t outcome u := by
  induction first generalizing s with
  | nil => exact .inr ⟨s, .done, performs⟩
  | cons line rest ih =>
    cases performs with
    | next plain ran later =>
      obtain ⟨f, same, faulted⟩ | ⟨t, through, after⟩ := ih later
      · exact .inl ⟨f, same, .next plain ran faulted⟩
      · exact .inr ⟨t, .next plain ran through, after⟩
    | fault plain ran => exact .inl ⟨_, rfl, .fault plain ran⟩

end Program

namespace Machine

variable {setup : Setup σ} {line : Line} {lines rest : List Line} {store after : Store σ}
  {outcome : Except Fault Unit} {s t : Machine σ}

theorem execute_flowFree (setup : Setup σ) (free : line.FlowFree) (settled : Bool) (s : Machine σ) :
    (execute setup line settled).run s =
      (((line.effect setup.bridge).run s.store).1,
        s.withStore ((line.effect setup.bridge).run s.store).2) :=
  (Framed.evalAll setup line.indent settled free s).run

/-- A machine that has come to `pc` with no block open. -/
structure Clear (pc steps : Nat) (store : Store σ) (s : Machine σ) : Prop where
  pc : s.pc = pc
  steps : s.steps = steps
  store : s.store = store
  blocks : s.blocks = []
  settled : s.settled = false

/-- A line without flow keywords leads to the next line, or faults. -/
theorem stepLine_clear {pc steps : Nat} (free : line.FlowFree) (clear : Clear pc steps store s) :
    ((line.effect setup.bridge).run store = (.ok (), after) →
      ∃ t, stepLine setup line s = (.ok (), t) ∧ Clear (pc + 1) steps after t) ∧
    ∀ f, (line.effect setup.bridge).run store = (.error (.fault f), after) →
      ∃ t, stepLine setup line s = (.error f, t) ∧ t.store = after := by
  have entered : (log setup line.indent .line { s with settled := false }).store = store := by
    rw [store_log]
    exact clear.store
  rw [stepLine_of_no_blocks setup line clear.blocks]
  unfold enter
  rw [execute_flowFree setup free, entered]
  constructor
  · intro ran
    rw [ran]
    refine ⟨_, rfl, ?_, ?_, rfl, ?_, ?_⟩
    · simp [clear.pc]
    · exact (steps_log ..).trans clear.steps
    · simp [clear.blocks]
    · simp
  · intro f ran
    rw [ran]
    exact ⟨_, rfl, rfl⟩

theorem resume_step (place : setup.lines.drop s.pc = line :: rest) (cap : Nat) :
    resume setup (cap + 1) s = match stepLine setup line s with
      | (.ok _, t) => resume setup cap { t with steps := t.steps + 1 }
      | (.error f, t) => (.error f, t) := by
  obtain ⟨found, -⟩ := drop_cons place
  rw [resume, if_pos (List.getElem?_eq_some_iff.mp found).1]
  exact loop_succ found

/-- Lines without flow keywords take one step each. -/
theorem resume_performs (setup : Setup σ) {pc steps : Nat}
    (performs : Program.Performs setup.bridge lines store outcome after)
    (place : setup.lines.drop pc = lines ++ rest) (cap : Nat) (clear : Clear pc steps store s) :
    ∃ t, t.store = after ∧
      (∀ f, outcome = .error f → resume setup (lines.length + cap) s = (.error f, t)) ∧
      (outcome = .ok () → resume setup (lines.length + cap) s = resume setup cap t ∧
        Clear (pc + lines.length) (steps + lines.length) after t) := by
  induction performs generalizing s pc steps with
  | done =>
    refine ⟨s, clear.store, ?_, ?_⟩
    · intro f faulted
      cases faulted
    · intro _
      rw [List.length_nil, Nat.zero_add]
      exact ⟨rfl, clear⟩
  | @next line later store between after outcome free ran _ ih =>
    have remains : setup.lines.drop (pc + 1) = later ++ rest := (drop_cons place).2
    rw [← clear.pc] at place
    obtain ⟨u, stepped, next⟩ := (stepLine_clear free clear).1 ran
    have counted : Clear (pc + 1) (steps + 1) between { u with steps := u.steps + 1 } :=
      { next with steps := by simp [next.steps] }
    obtain ⟨t, same, faults, goes⟩ := ih remains counted
    rw [List.length_cons, Nat.add_right_comm, resume_step place, stepped]
    refine ⟨t, same, faults, ?_⟩
    intro ended
    obtain ⟨resumed, arrived⟩ := goes ended
    refine ⟨resumed, ?_⟩
    rw [Nat.add_comm later.length 1, ← Nat.add_assoc, ← Nat.add_assoc]
    exact arrived
  | @fault line later store after f free ran =>
    rw [← clear.pc] at place
    obtain ⟨t, stepped, same⟩ := (stepLine_clear free clear).2 f ran
    rw [List.length_cons, Nat.add_right_comm, resume_step place, stepped]
    refine ⟨t, same, ?_, ?_⟩
    · rintro f ⟨⟩
      rfl
    · intro ended
      cases ended

/-- Behind its last line, with no block open, a run is over. -/
theorem resume_outside (outside : setup.lines.length ≤ t.pc) (none_open : t.blocks = [])
    (cap : Nat) : resume setup cap t = (.ok ⟨t.steps, false⟩, t) := by
  have closed : t.close (some 0) = (none, t) := by simp [close, none_open]
  rw [resume, if_neg (Nat.not_lt.mpr outside), closed]

end Machine

namespace Session

variable {first second : List Line} {after : Store σ} {outcome : Except Fault Unit} {s : Session σ}

theorem start_clear (setup : Setup σ) (s : Session σ) :
    Machine.Clear 0 0 s.store (s.start setup) := by
  constructor
  · exact start_pc setup s
  · exact start_steps setup s
  · exact start_store setup s
  · exact start_blocks setup s
  · exact start_settled setup s

theorem run_resume (setup : Setup σ) (content : setup.lines ≠ []) (s : Session σ) (n : Int) :
    s.run setup n = ((Machine.resume setup n.toNat (s.start setup)).1,
      (Machine.resume setup n.toNat (s.start setup)).2.toSession) := by
  have inside : (s.start setup).pc < setup.lines.length := by
    rw [start_pc]
    exact List.length_pos_iff.mpr content
  rw [run_of_content setup content, Machine.resume, if_pos inside]

/-- A run of lines without flow keywords takes as many steps as there are lines. -/
theorem run_performs (setup : Setup σ)
    (performs : Program.Performs setup.bridge setup.lines s.store outcome after) {cap : Int}
    (enough : setup.lines.length ≤ cap) :
    ∃ t : Session σ, t.store = after ∧
      s.run setup cap = (outcome.map fun _ => ⟨setup.lines.length, false⟩, t) := by
  by_cases empty : setup.lines = []
  · rw [run_of_empty setup empty, empty]
    rw [empty] at performs
    cases performs
    exact ⟨s, rfl, rfl⟩
  · have place : setup.lines.drop 0 = setup.lines ++ [] := by simp
    obtain ⟨t, same, faults, goes⟩ :=
      Machine.resume_performs setup performs place (cap.toNat - setup.lines.length)
        (start_clear setup s)
    rw [show setup.lines.length + (cap.toNat - setup.lines.length) = cap.toNat by omega]
      at faults goes
    refine ⟨t.toSession, same, ?_⟩
    rw [run_resume setup empty]
    rcases outcome with f | _
    · rw [faults f rfl]
      rfl
    · obtain ⟨resumed, clear⟩ := goes rfl
      have outside : setup.lines.length ≤ t.pc := by
        rw [clear.pc]
        omega
      rw [resumed, Machine.resume_outside outside clear.blocks, clear.steps, Nat.zero_add]
      rfl

/-- Behind lines without flow keywords a program runs as in a session that has run these lines
before. A fault in the lines in front ends the run there. -/
theorem run_behind (setup : Setup σ)
    (performs : Program.Performs setup.bridge first s.store outcome after) (content : second ≠ [])
    {cap : Int} (enough : first.length ≤ cap) :
    (∀ f, outcome = .error f → (s.run { setup with lines := first ++ second } cap).1 = .error f ∧
      (s.run { setup with lines := first ++ second } cap).2.store = after) ∧
    (outcome = .ok () → ∀ u : Session σ, u.store = after →
      (s.run { setup with lines := first ++ second } cap).1 =
          (u.run { setup with lines := second } (cap - first.length)).1.map
          (Result.later first.length) ∧
      (s.run { setup with lines := first ++ second } cap).2.registers =
          (u.run { setup with lines := second } (cap - first.length)).2.registers ∧
      (s.run { setup with lines := first ++ second } cap).2.host =
          (u.run { setup with lines := second } (cap - first.length)).2.host) := by
  have whole : first ++ second ≠ [] := List.append_ne_nil_of_right_ne_nil _ content
  obtain ⟨t, same, faults, goes⟩ :=
    Machine.resume_performs { setup with lines := first ++ second } performs
    List.drop_zero (cap.toNat - first.length) (start_clear _ s)
  rw [show first.length + (cap.toNat - first.length) = cap.toNat by omega] at faults goes
  rw [run_resume { setup with lines := first ++ second } whole]
  constructor
  · intro f faulted
    rw [faults f faulted]
    exact ⟨rfl, same⟩
  · intro ended u reached
    obtain ⟨resumed, clear⟩ := goes ended
    have inside : t.pc < (first ++ second).length := by
      have some_left := List.length_pos_iff.mpr content
      rw [clear.pc, List.length_append]
      omega
    have shifted : Machine.Shifted first.length (u.start { setup with lines := second }) t := by
      constructor
      · rw [same, start_store, reached]
      · rw [clear.pc, start_pc]
      · rw [clear.blocks, start_blocks, List.map_nil]
      · rw [clear.steps, start_steps]
      · rw [clear.settled, start_settled]
    have anchored : Machine.Anchored second (u.start { setup with lines := second }) := by
      constructor
      · rw [start_pc]
        exact List.length_pos_iff.mpr content
      · rw [start_blocks]
        exact fun block member => nomatch member
    have later := Machine.loop_shifted (P := { setup with lines := second })
      (Q := { setup with lines := first ++ second }) ⟨rfl, rfl⟩ (cap.toNat - first.length) _ t
      anchored shifted (.inl (start_blocks _ u))
    rw [show cap.toNat - first.length = (cap - first.length).toNat by omega] at later resumed
    rw [resumed, Machine.resume, if_pos inside,
      run_of_content { setup with lines := second } content]
    exact ⟨later.outcome, later.registers, later.host⟩

/-- Runs programs one after the other in a session, each with a cap of its own. A fault ends the
sequence. -/
def runInTurn (setup : Setup σ) :
    List (List Line × Int) → Session σ → Except Fault (List Result) × Session σ
  | [], s => (.ok [], s)
  | (lines, cap) :: rest, s =>
    match s.run { setup with lines := lines } cap with
    | (.error f, t) => (.error f, t)
    | (.ok result, t) => ((t.runInTurn setup rest).1.map (result :: ·), (t.runInTurn setup rest).2)

/-- The functions of the host that the programs call, with their arguments, in order. -/
def hostCallsInTurn (setup : Setup σ) (programs : List (List Line × Int)) (s : Session σ) :
    List Host.Call :=
  (s.recorded.runInTurn setup.recorded programs).2.host.2.reverse

theorem runInTurn_performs (setup : Setup σ) {pieces : List (List Line × Int)}
    (allowed : ∀ piece ∈ pieces, piece.1.length ≤ piece.2)
    (performs : Program.Performs setup.bridge (pieces.map Prod.fst).flatten s.store outcome after)
    (rest : List (List Line × Int)) :
    ∃ u : Session σ, u.store = after ∧
      (∀ f, outcome = .error f → s.runInTurn setup (pieces ++ rest) = (.error f, u)) ∧
      (outcome = .ok () → s.runInTurn setup (pieces ++ rest) =
        ((u.runInTurn setup rest).1.map (pieces.map (fun piece => ⟨piece.1.length, false⟩) ++ ·),
          (u.runInTurn setup rest).2)) := by
  induction pieces generalizing s with
  | nil =>
    cases performs
    refine ⟨s, rfl, ?_, ?_⟩
    · intro f faulted
      cases faulted
    · intro _
      rcases ran : s.runInTurn setup rest with ⟨_ | _, u⟩ <;> simp [ran, Except.map]
  | cons piece pieces ih =>
    obtain ⟨lines, cap⟩ := piece
    have enough : lines.length ≤ cap := allowed (lines, cap) List.mem_cons_self
    have others : ∀ piece ∈ pieces, piece.1.length ≤ piece.2 := fun piece member =>
      allowed piece (List.mem_cons_of_mem _ member)
    obtain ⟨f, rfl, faulted⟩ | ⟨between, through, later⟩ := performs.append_cases
    · obtain ⟨t, same, ran⟩ := run_performs { setup with lines := lines } faulted enough
      refine ⟨t, same, ?_, ?_⟩
      · rintro f ⟨⟩
        rw [List.cons_append, runInTurn, ran]
        rfl
      · intro ended
        cases ended
    · obtain ⟨t, rfl, ran⟩ := run_performs { setup with lines := lines } through enough
      obtain ⟨u, reached, faults, goes⟩ := ih others later
      refine ⟨u, reached, ?_, ?_⟩
      · intro f faulted
        rw [List.cons_append, runInTurn, ran]
        dsimp only [Except.map]
        rw [faults f faulted]
      · intro ended
        rw [List.cons_append, runInTurn, ran]
        dsimp only [Except.map]
        rw [goes ended]
        rcases u.runInTurn setup rest with ⟨_ | _, v⟩ <;> rfl

/-- One run comes to the same as runs in turn: the same fault, or the results `before` and one more,
whose steps follow `k` steps of the one run and which says whether the cap stopped it; and the same
registers and the same host. -/
structure SameInTurn (k : Nat) (before : List Result) (whole : Except Fault Result × Session σ)
    (parts : Except Fault (List Result) × Session σ) : Prop where
  outcome : (∃ f, parts.1 = .error f ∧ whole.1 = .error f) ∨
    ∃ last, parts.1 = .ok (before ++ [last]) ∧ whole.1 = .ok ⟨k + last.steps, last.halted⟩
  registers : whole.2.registers = parts.2.registers
  host : whole.2.host = parts.2.host

theorem run_sameInTurn (setup : Setup σ) (free : ∀ line ∈ first, line.FlowFree)
    (content : second ≠ []) {cap : Int} (enough : first.length ≤ cap)
    {pieces : List (List Line × Int)} (cut : (pieces.map Prod.fst).flatten = first)
    (allowed : ∀ piece ∈ pieces, piece.1.length ≤ piece.2) (s : Session σ) :
    SameInTurn first.length (pieces.map fun piece => ⟨piece.1.length, false⟩)
      (s.run { setup with lines := first ++ second } cap)
      (s.runInTurn setup (pieces ++ [(second, cap - first.length)])) := by
  obtain ⟨outcome, after, performs⟩ := Program.exists_performs setup.bridge free s.store
  obtain ⟨faulted, ended⟩ := run_behind setup performs content enough
  rw [← cut] at performs
  obtain ⟨u, reached, faults, goes⟩ := runInTurn_performs setup allowed performs
    [(second, cap - first.length)]
  rcases outcome with f | _
  · obtain ⟨same, store⟩ := faulted f rfl
    rw [faults f rfl]
    rw [← reached] at store
    exact ⟨.inl ⟨f, rfl, same⟩, congrArg Store.registers store, congrArg Store.host store⟩
  · obtain ⟨same, registers, host⟩ := ended rfl u reached
    rw [goes rfl]
    simp only [runInTurn]
    rcases ran : u.run { setup with lines := second } (cap - first.length) with ⟨f | last, v⟩
    · rw [ran] at same registers host
      exact ⟨.inl ⟨f, rfl, same⟩, registers, host⟩
    · rw [ran] at same registers host
      exact ⟨.inr ⟨last, rfl, same⟩, registers, host⟩

/-- A program behind lines without flow keywords comes to the same as these lines and the program
run in turn, with the cap shared out among them. The lines in front may be run as they are or cut
into pieces, down to a line at a time, under any caps that let the pieces end; each piece ends after
as many steps as it has lines. -/
theorem run_append (setup : Setup σ) (first second : List Line)
    (free : ∀ line ∈ first, line.FlowFree) (content : second ≠ []) (cap : Int)
    (enough : first.length ≤ cap) (pieces : List (List Line × Int))
    (cut : (pieces.map Prod.fst).flatten = first)
    (allowed : ∀ piece ∈ pieces, piece.1.length ≤ piece.2) (s : Session σ) :
    let joined : Setup σ := { setup with lines := first ++ second }
    let programs := pieces ++ [(second, cap - first.length)]
    SameInTurn first.length (pieces.map fun piece => ⟨piece.1.length, false⟩) (s.run joined cap)
      (s.runInTurn setup programs) ∧
    s.hostCalls joined cap = s.hostCallsInTurn setup programs := by
  intro joined programs
  refine ⟨run_sameInTurn setup free content enough cut allowed s, ?_⟩
  have recorded := run_sameInTurn setup.recorded free content enough cut allowed s.recorded
  exact congrArg (fun host => host.2.reverse) recorded.host

/-- Three lines in front of a loop, the second of them empty, at levels above that of the loop. They
are run as one program, and then a line at a time. -/
theorem run_append_loop :
    let first := Program.ofTerms
      [[{ kind := .indent }, { kind := .indent },
        { kind := .assignment, name := some "assignInc", index := some 0 }],
        [],
        [{ kind := .indent },
          { kind := .assignment, name := some "assignAdd", argCount := 1, index := some 0 },
          { kind := .function, name := some "f", argCount := 1 },
          { kind := .register, index := some 0 }]]
    let second := Program.ofTerms
      [[{ kind := .flow, name := some "while", argCount := 1 },
        { kind := .register, index := some 0 }],
        [{ kind := .indent }, { kind := .assignment, name := some "assignDec", index := some 0 },
          { kind := .function, name := some "f", argCount := 1 },
          { kind := .register, index := some 0 }]]
    let functions : Table String (Host.Binding Nat) :=
      [("f", .routine fun args count => (.ok (.float (args.headD 0.0)), count + 1))]
    let setup : Setup Nat := { lines := [], bridge := { functions } }
    let joined : Setup Nat := { setup with lines := first ++ second }
    let s : Session Nat := { registers := .zeros 1, host := 0 }
    (∀ line ∈ first, line.FlowFree) ∧
      SameInTurn 3 [⟨3, false⟩] (s.run joined 20) (s.runInTurn setup [(first, 3), (second, 17)]) ∧
      s.hostCalls joined 20 = s.hostCallsInTurn setup [(first, 3), (second, 17)] ∧
      SameInTurn 3 [⟨1, false⟩, ⟨1, false⟩, ⟨1, false⟩] (s.run joined 20)
        (s.runInTurn setup (first.map (fun line => ([line], 1000)) ++ [(second, 17)])) ∧
      (s.run joined 20).1.toOption = some ⟨8, false⟩ ∧ (s.run joined 20).2.host = 3 := by
  intro first second functions setup joined s
  have free : ∀ line ∈ first, line.FlowFree := by decide
  have one := run_append setup first second free (List.cons_ne_nil _ _) 20 (by decide)
    [(first, 3)] (by simp) (by decide) s
  have each := run_append setup first second free (List.cons_ne_nil _ _) 20 (by decide)
    (first.map fun line => ([line], 1000)) rfl (by decide) s
  refine ⟨free, one.1, one.2, each.1, ?_, ?_⟩
  · decide +kernel
  · decide +kernel

end Session

end Termwise
