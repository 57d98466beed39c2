import Termwise.Proofs.Hosts

/-! The step cap. A run is one machine stepped again and again, and the cap says only how often: a
run that comes to its end does so at the same step under every cap that lets it get there, and a
smaller cap stops it after its first steps, with the registers and the calls of the host that these
steps have made. -/
namespace Termwise

variable {σ : Type}

theorem Except.eq_ok_of_toOption {ε α : Type} {x : Except ε α} {a : α}
    (given : x.toOption = some a) : x = .ok a := by
  cases x with
  | error e => cases given
  | ok b => exact congrArg _ (Option.some.inj given)

namespace Machine

variable {setup : Setup σ} {line : Line} {settled : Bool} {result : Result} {m n : Nat}
  {s t u : Machine σ}

/-- Evaluating a line counts no step and writes nothing into the step log. -/
theorem execute_keeps_record (setup : Setup σ) (line : Line) (settled : Bool) (s : Machine σ) :
    Keeps (fun t => t.steps = s.steps ∧ t.trace = s.trace)
      (fun e t => e = .jump → t.steps = s.steps ∧ t.trace = s.trace) (fun _ => True)
      (execute setup line settled) s := by
  apply execute_keeps_of_flow
  · intro t store same
    exact same
  · intro f t jump
    cases jump
  · intro keyword _ _ args t same
    have possible := performFlow_outcome setup line.indent settled keyword args t
    generalize outcome : (performFlow setup line.indent settled keyword args).run t =
      after at possible
    cases possible with
    | idle | opened => exact .of_ok outcome trivial same
    | skipped | left => exact .of_error outcome fun _ => same
  · exact ⟨rfl, rfl⟩

theorem stepLine_steps (stepped : stepLine setup line s = (.ok (), t)) : t.steps = s.steps := by
  obtain ⟨v, -, closed, step⟩ | ⟨settled, v, before, step⟩ := stepLine_cases setup line s
  · obtain ⟨-, rfl⟩ := Prod.mk.inj (step.symm.trans stepped)
    simpa [closed] using steps_close line.indent s
  · have same : v.steps = s.steps := by
      rcases before with rfl | closed
      · rfl
      · simpa [closed] using steps_close line.indent s
    have keeps := execute_keeps_record setup line settled
      (log setup line.indent .line { v with settled := false })
    obtain ⟨w, ran, rfl⟩ | ⟨w, ran, rfl⟩ := enter_cases (step.symm.trans stepped)
    · obtain ⟨-, kept, -⟩ := keeps.value _ _ ran
      simpa [same] using kept
    · obtain ⟨kept, -⟩ := keeps.interrupt _ _ ran rfl
      simpa [same] using kept

theorem ticks_steps (ticked : Ticks setup s u) : u.steps = s.steps + 1 := by
  obtain ⟨line, t, -, stepped, ⟨-, rfl⟩ | ⟨-, v, closed, rfl⟩⟩ := ticks_cases ticked
  · simp [stepLine_steps stepped]
  · have counted : v.steps = t.steps + 1 := by
      simpa [closed] using steps_close (some 0) { t with steps := t.steps + 1 }
    simp [counted, stepLine_steps stepped]

theorem tick_ends_steps (ended : tick setup s = (.ok (some result), u)) :
    result = ⟨s.steps + 1, false⟩ := by
  obtain ⟨line, t, -, stepped, -, rfl, rfl⟩ := tick_ends ended
  simp [stepLine_steps stepped]

/-- The machine after a number of steps; `none` when the run is over before that. -/
def after? (setup : Setup σ) : Nat → Machine σ → Option (Machine σ)
  | 0, s => some s
  | n + 1, s =>
    match tick setup s with
    | (.ok none, t) => after? setup n t
    | _ => none

theorem after?_succ (ticked : Ticks setup s u) (n : Nat) :
    after? setup (n + 1) s = after? setup n u := by
  rw [after?, show tick setup s = (.ok none, u) from ticked]

theorem ticks_of_after? (reached : after? setup (n + 1) s = some t) :
    ∃ u, Ticks setup s u ∧ after? setup n u = some t := by
  unfold after? at reached
  split at reached
  next u ticked => exact ⟨u, ticked, reached⟩
  next => cases reached

theorem steps_after? (reached : after? setup n s = some t) : t.steps = s.steps + n := by
  induction n generalizing s with
  | zero =>
    cases reached
    rfl
  | succ n ih =>
    obtain ⟨u, ticked, later⟩ := ticks_of_after? reached
    rw [ih later, ticks_steps ticked]
    omega

/-- The states on the way are there too. -/
theorem after?_of_le (reached : after? setup n s = some t) (earlier : m ≤ n) :
    ∃ u, after? setup m s = some u := by
  induction m generalizing s n with
  | zero => exact ⟨s, rfl⟩
  | succ m ih =>
    obtain ⟨k, rfl⟩ : ∃ k, n = k + 1 := ⟨n - 1, by omega⟩
    obtain ⟨u, ticked, later⟩ := ticks_of_after? reached
    rw [after?_succ ticked]
    exact ih later (by omega)

/-- A run goes on from the machine after its first steps. -/
theorem loop_add (reached : after? setup m s = some t) (n : Nat) :
    loop setup (m + n) s = loop setup n t := by
  induction m generalizing s with
  | zero =>
    cases reached
    rw [Nat.zero_add]
  | succ m ih =>
    obtain ⟨u, ticked, later⟩ := ticks_of_after? reached
    rw [Nat.succ_add, loop, show tick setup s = (.ok none, u) from ticked]
    exact ih later

theorem loop_ended (reached : after? setup m s = some t)
    (ended : tick setup t = (.ok (some result), u)) (allowed : m < n) :
    loop setup n s = (.ok result, u) := by
  obtain ⟨k, rfl⟩ : ∃ k, n = m + (k + 1) := ⟨n - m - 1, by omega⟩
  rw [loop_add reached, loop, ended]

/-- A run that gives a result was stopped by the cap after as many steps, or has made a step that
ended it. -/
theorem loop_cases (ran : loop setup n s = (.ok result, u)) :
    (∃ t, after? setup n s = some t ∧ (result, u) = halt setup t) ∨
    ∃ m t, m < n ∧ after? setup m s = some t ∧ tick setup t = (.ok (some result), u) := by
  induction n generalizing s with
  | zero =>
    cases ran
    exact .inl ⟨s, rfl, rfl⟩
  | succ n ih =>
    unfold loop at ran
    split at ran
    next => cases ran
    next ended =>
      cases ran
      exact .inr ⟨0, s, Nat.succ_pos n, rfl, ended⟩
    next v ticked =>
      rcases ih ran with ⟨t, reached, halted⟩ | ⟨m, t, less, reached, ended⟩
      · exact .inl ⟨t, (after?_succ ticked n).trans reached, halted⟩
      · exact .inr ⟨m + 1, t, Nat.succ_lt_succ less, (after?_succ ticked m).trans reached, ended⟩

section HostStates

/-- A computation keeps a property of the state of the host, also where it is interrupted. -/
def KeepsHost {α : Type} (H : σ → Prop) (c : Exec σ α) : Prop :=
  ∀ s : Machine σ, H s.host → H (c.run s).2.host

variable {H : σ → Prop}

theorem askHost_keepsHost {use : σ → Except Fault Host.Reply × σ}
    (kept : ∀ host, H host → H (use host).2) : KeepsHost H (askHost use) := by
  intro s holds
  have after := kept s.host holds
  rw [askHost_run]
  rcases used : use s.host with ⟨f | reply, host⟩ <;> rw [used] at after <;> exact after

theorem operandValue_keepsHost (reads : ∀ name host, H host → H (setup.bridge.read name host).2)
    (t : Term) : KeepsHost H (operandValue setup t) := by
  intro s holds
  rw [operandValue_run]
  cases t.kind with
  | property => exact askHost_keepsHost (reads t.nameText) s holds
  | _ => exact holds

theorem perform_keepsHost
    (calls : ∀ name args host, H host → H (setup.bridge.call name args host).2)
    (indent : Option Nat) (settled : Bool) (t : Term) (args : List Float) :
    KeepsHost H (perform setup indent settled t args) := by
  have named : KeepsHost H (callByName setup t.nameText args) := by
    unfold callByName
    split
    · cases Operator.invoke t.nameText args with
      | ok x => exact fun s holds => holds
      | error f => exact fun s holds => holds
    · exact askHost_keepsHost (calls t.nameText args)
  unfold perform
  split
  · intro s holds
    have possible := performFlow_outcome setup indent settled (Flow.ofWord? t.nameText) args s
    generalize (performFlow setup indent settled (Flow.ofWord? t.nameText) args).run s =
      outcome at possible ⊢
    cases possible <;> exact holds
  · split
    · intro s holds
      rw [assign_run]
      split <;> exact holds
    · exact named
  · exact named

/-- What every use of the host keeps is kept by executing a line. -/
theorem execution_keepsHost
    (calls : ∀ name args host, H host → H (setup.bridge.call name args host).2)
    (reads : ∀ name host, H host → H (setup.bridge.read name host).2) :
    ExecutionKeeps setup fun _ host => H host := by
  apply executionKeeps_of_terms
  · intro line _ t _ s holds
    exact operandValue_keepsHost reads t s holds
  · intro line _ t _ indent settled args s holds
    exact perform_keepsHost calls indent settled t args s holds

end HostStates

/-- On a host that writes its calls down, later steps add calls and change none. -/
theorem recorded_calls_grow (setup : Setup σ) (n : Nat) (s : Machine (σ × List Host.Call)) :
    s.host.2.reverse <+: (loop setup.recorded n s).2.host.2.reverse := by
  have bridge : setup.recorded.bridge = setup.bridge.recorded := rfl
  have executes : ExecutionKeeps setup.recorded fun _ host => s.host.2 <:+ host.2 := by
    apply execution_keepsHost (H := fun host : σ × List Host.Call => s.host.2 <:+ host.2)
    · rintro name args ⟨host, calls⟩ grown
      rw [bridge, Host.Bridge.call_recorded]
      exact grown.trans (List.suffix_append _ _)
    · rintro name ⟨host, calls⟩ grown
      rw [bridge, Host.Bridge.read_recorded]
      exact grown
  rw [List.reverse_prefix]
  exact loop_keeps executes n List.suffix_rfl

end Machine

namespace Session

variable {setup : Setup σ} {s : Session σ} {m n : Int} {k : Nat}

@[simp] theorem start_steps (setup : Setup σ) (s : Session σ) : (s.start setup).steps = 0 := by
  unfold start
  rfl

theorem run_of_content (setup : Setup σ) (content : setup.lines ≠ []) (s : Session σ) (n : Int) :
    s.run setup n = ((Machine.loop setup n.toNat (s.start setup)).1,
      (Machine.loop setup n.toNat (s.start setup)).2.toSession) := by
  rw [run, if_neg (by simpa using content)]

theorem run_of_empty (setup : Setup σ) (empty : setup.lines = []) (s : Session σ) (n : Int) :
    s.run setup n = (.ok ⟨0, false⟩, s) := by
  rw [run, if_pos (by simpa using empty)]

/-- The cap stops a run after as many steps as it allows. -/
theorem run_halted (halted : (s.run setup n).1 = .ok ⟨k, true⟩) :
    setup.lines ≠ [] ∧ k = n.toNat ∧ ∃ t, Machine.after? setup n.toNat (s.start setup) = some t ∧
      (s.run setup n).2 = (Machine.halt setup t).2.toSession := by
  have content : setup.lines ≠ [] := by
    intro empty
    rw [run_of_empty setup empty] at halted
    cases halted
  rw [run_of_content setup content] at halted ⊢
  obtain ⟨t, reached, same⟩ | ⟨m, t, -, -, ended⟩ := Machine.loop_cases (Prod.ext halted rfl)
  · obtain ⟨count, machine⟩ := Prod.mk.inj same
    have steps := Machine.steps_after? reached
    rw [start_steps, Nat.zero_add] at steps
    exact ⟨content, (congrArg Result.steps count).trans steps, t, reached,
      congrArg Machine.toSession machine⟩
  · cases Machine.tick_ends_steps ended

theorem run_stopped (content : setup.lines ≠ []) {t : Machine σ}
    (reached : Machine.after? setup n.toNat (s.start setup) = some t) :
    (s.run setup n).1 = .ok ⟨n.toNat, true⟩ := by
  have stopped := Machine.loop_add reached 0
  have steps := Machine.steps_after? reached
  rw [Nat.add_zero] at stopped
  rw [start_steps, Nat.zero_add] at steps
  rw [run_of_content setup content, stopped, ← steps]
  rfl

/-- A run that comes to its end makes all steps but the last under every cap, and the last one under
every cap that allows it. -/
theorem run_finished (finished : (s.run setup n).1 = .ok ⟨k, false⟩) (content : setup.lines ≠ []) :
    0 < k ∧ (∃ t, Machine.after? setup (k - 1) (s.start setup) = some t) ∧
      ∀ m : Int, k ≤ m.toNat → s.run setup m = s.run setup n := by
  rw [run_of_content setup content] at finished
  obtain ⟨t, -, same⟩ | ⟨j, t, less, reached, ended⟩ := Machine.loop_cases (Prod.ext finished rfl)
  · cases (Prod.mk.inj same).1
  · have count : k = j + 1 := by
      have steps := Machine.steps_after? reached
      rw [start_steps, Nat.zero_add] at steps
      rw [← steps]
      exact congrArg Result.steps (Machine.tick_ends_steps ended)
    subst count
    refine ⟨Nat.succ_pos j, ⟨t, reached⟩, ?_⟩
    intro m enough
    rw [run_of_content setup content, run_of_content setup content,
      Machine.loop_ended reached ended enough, Machine.loop_ended reached ended less]

/-- With the cap `m` a run makes the first `m` steps that it makes with the cap `n`, and is stopped
there: the larger cap goes on from the same machine, and its calls of host functions start with
those of these steps. -/
structure Truncates (setup : Setup σ) (m n : Int) (s : Session σ) : Prop where
  stopped : (s.run setup m).1 = .ok ⟨m.toNat, true⟩
  states : ∃ t, Machine.after? setup m.toNat (s.start setup) = some t ∧
    (s.run setup m).2.registers = t.registers ∧ (s.run setup m).2.host = t.host ∧
    (s.run setup m).2.trace = (Machine.log setup none .halt t).trace ∧
    s.run setup n = ((Machine.loop setup (n.toNat - m.toNat) t).1,
      (Machine.loop setup (n.toNat - m.toNat) t).2.toSession)
  calls : ∃ t, Machine.after? setup.recorded m.toNat (s.recorded.start setup.recorded) = some t ∧
    s.hostCalls setup m = t.host.2.reverse ∧ s.hostCalls setup m <+: s.hostCalls setup n

theorem truncates_of_halted (halted : (s.run setup m).1 = .ok ⟨k, true⟩) (larger : m ≤ n) :
    s.Truncates setup m n := by
  obtain ⟨content, rfl, t, reached, session⟩ := run_halted halted
  have rest : n.toNat = m.toNat + (n.toNat - m.toNat) := by omega
  constructor
  · exact halted
  · refine ⟨t, reached, ?_, ?_, ?_, ?_⟩
    · rw [session]
      exact Machine.log_keeps (P := fun registers _ => registers = t.registers) rfl
    · rw [session]
      exact Machine.log_keeps (P := fun _ host => host = t.host) rfl
    · rw [session]
      rfl
    · rw [run_of_content setup content, rest, Machine.loop_add reached, ← rest]
  · -- The recording run is stopped as well, and so it has made the same number of steps.
    have stopped : (s.recorded.run setup.recorded m).1 = .ok ⟨m.toNat, true⟩ :=
      (s.run_recorded setup m).outcome.trans halted
    obtain ⟨-, -, v, written, kept⟩ := run_halted stopped
    have calls : s.hostCalls setup m = v.host.2.reverse := by
      rw [hostCalls, kept]
      exact congrArg (fun host => host.2.reverse)
        (Machine.log_keeps (P := fun _ host => host = v.host) rfl)
    refine ⟨v, written, calls, ?_⟩
    rw [calls, hostCalls, run_of_content setup.recorded content, rest, Machine.loop_add written]
    exact Machine.recorded_calls_grow setup (n.toNat - m.toNat) v

/-- The cap only truncates. A run that comes to its end after `k` steps is the same under every cap
from `k` on, and under a smaller cap it is stopped after as many of its steps. A run that is stopped
has made as many steps as the cap allows, and makes the same ones first under every larger cap. -/
theorem run_cap (setup : Setup σ) (s : Session σ) (n : Int) (k : Nat) :
    ((s.run setup n).1 = .ok ⟨k, false⟩ →
      (∀ m : Int, k ≤ m → s.run setup m = s.run setup n ∧
        s.hostCalls setup m = s.hostCalls setup n) ∧
      ∀ m : Int, 0 ≤ m → m < k → s.Truncates setup m n) ∧
    ((s.run setup n).1 = .ok ⟨k, true⟩ → 0 ≤ n → (k : Int) = n ∧ ∀ m : Int, n < m →
      s.Truncates setup n m) := by
  constructor
  · intro finished
    by_cases empty : setup.lines = []
    · have none_made : k = 0 := by
        rw [run_of_empty setup empty] at finished
        cases finished
        rfl
      subst none_made
      refine ⟨fun m _ => ⟨?_, ?_⟩, fun m _ _ => by omega⟩
      · rw [run_of_empty setup empty, run_of_empty setup empty]
      · rw [hostCalls, hostCalls, run_of_empty setup.recorded empty,
          run_of_empty setup.recorded empty]
    · obtain ⟨some_made, ⟨t, reached⟩, same⟩ := run_finished finished empty
      have allowed : (k : Int) ≤ n := by
        by_contra less
        obtain ⟨u, earlier⟩ := Machine.after?_of_le reached (m := n.toNat) (by omega)
        cases (run_stopped empty earlier).symm.trans finished
      have recorded : (s.recorded.run setup.recorded n).1 = .ok ⟨k, false⟩ :=
        (s.run_recorded setup n).outcome.trans finished
      have written := (run_finished recorded empty).2.2
      refine ⟨fun m enough => ⟨same m (by omega), ?_⟩, fun m positive less => ?_⟩
      · rw [hostCalls, hostCalls, written m (by omega)]
      · obtain ⟨u, earlier⟩ := Machine.after?_of_le reached (m := m.toNat) (by omega)
        exact truncates_of_halted (run_stopped empty earlier) (by omega)
  · intro halted positive
    obtain ⟨-, rfl, -⟩ := run_halted halted
    exact ⟨by omega, fun m larger => truncates_of_halted halted (by omega)⟩

end Session

/-- A loop that counts a register down and calls the host each time round, and a line after the
loop. -/
def Setup.countdown : Setup Nat where
  lines := Program.ofTerms
    [[{ kind := .flow, name := some "while", argCount := 1 },
      { kind := .register, index := some 0 }],
      [{ kind := .indent }, { kind := .assignment, name := some "assignDec", index := some 0 },
        { kind := .function, name := some "f", argCount := 1 },
        { kind := .register, index := some 0 }],
      [{ kind := .assignment, name := some "assignInc", index := some 1 }]]
  bridge :=
    { functions := [("f", .routine fun args count => (.ok (.float (args.headD 0.0)), count + 1))] }
  tracing := true

def Session.fromTwo : Session Nat := { registers := ⟨[2.0, 0.0]⟩, host := 0 }

/-- The run from two on takes eight steps. The cap of four stops it at the second time round, after
one call. -/
theorem Session.run_cap_countdown :
    (fromTwo.run .countdown 20).1 = .ok ⟨8, false⟩ ∧
      fromTwo.run .countdown 8 = fromTwo.run .countdown 20 ∧
      fromTwo.Truncates .countdown 4 20 ∧ (fromTwo.run .countdown 4).2.host = 1 ∧
      fromTwo.Truncates .countdown 4 6 := by
  have finished : (fromTwo.run .countdown 20).1 = .ok ⟨8, false⟩ :=
    Except.eq_ok_of_toOption (by decide +kernel)
  obtain ⟨same, truncated⟩ := (run_cap .countdown fromTwo 20 8).1 finished
  have stopped := (truncated 4 (by decide) (by decide)).stopped
  refine ⟨finished, (same 8 (by decide)).1, truncated 4 (by decide) (by decide), by decide +kernel,
    ?_⟩
  exact ((run_cap .countdown fromTwo 4 4).2 stopped (by decide)).2 6 (by decide)

end Termwise
