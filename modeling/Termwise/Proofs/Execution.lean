import Termwise.Proofs.Evaluation

/-! Evaluation on a machine. Outside flow keywords it reads and changes only the store, that is
registers, host and notices: what it does there does not depend on the program, the program counter
or the open blocks. -/
namespace Termwise

variable {σ α β : Type}

namespace Exec

variable {ε S : Type}

theorem run_pure (a : α) (s : S) : (pure a : ExceptT ε (StateM S) α).run s = (.ok a, s) := rfl

theorem run_get (s : S) : (getThe S : ExceptT ε (StateM S) S).run s = (.ok s, s) := rfl

theorem run_set (s t : S) : (set t : ExceptT ε (StateM S) PUnit).run s = (.ok ⟨⟩, t) := rfl

theorem run_bind (c : ExceptT ε (StateM S) α) (f : α → ExceptT ε (StateM S) β) (s : S) :
    (c >>= f).run s = match c.run s with
      | (.ok a, t) => (f a).run t
      | (.error e, t) => (.error e, t) := by
  change ExceptT.bindCont f (c.run s).1 (c.run s).2 = _
  rcases c.run s with ⟨e | a, t⟩ <;> rfl

theorem run_bind_ok_iff {c : ExceptT ε (StateM S) α} {f : α → ExceptT ε (StateM S) β} {s t : S}
    {b : β} :
    (c >>= f).run s = (.ok b, t) ↔ ∃ a u, c.run s = (.ok a, u) ∧ (f a).run u = (.ok b, t) := by
  rw [run_bind]
  constructor
  · intro ran
    rcases first : c.run s with ⟨e | a, u⟩
    · rw [first] at ran
      cases ran
    · rw [first] at ran
      exact ⟨a, u, rfl, ran⟩
  · rintro ⟨a, u, first, ran⟩
    rw [first]
    exact ran

end Exec

/-- What evaluation outside flow keywords reads and changes: a session without its step log. -/
structure Store (σ : Type) where
  registers : Registers
  host : σ
  notices : List Notice

abbrev Calculation (σ : Type) := ExceptT Interrupt (StateM (Store σ))

def Session.store (s : Session σ) : Store σ := ⟨s.registers, s.host, s.notices⟩

/-- A machine at the start of a program without lines. -/
def Store.machine (s : Store σ) : Machine σ :=
  { registers := s.registers, host := s.host, notices := s.notices }

namespace Machine

def withStore (s : Machine σ) (t : Store σ) : Machine σ :=
  { s with registers := t.registers, host := t.host, notices := t.notices }

@[simp] theorem store_withStore (s : Machine σ) (t : Store σ) : (s.withStore t).store = t := rfl

@[simp] theorem pc_withStore (s : Machine σ) (t : Store σ) : (s.withStore t).pc = s.pc := rfl

@[simp] theorem previous_withStore (s : Machine σ) (t : Store σ) :
    (s.withStore t).previous = s.previous := rfl

@[simp] theorem blocks_withStore (s : Machine σ) (t : Store σ) :
    (s.withStore t).blocks = s.blocks := rfl

@[simp] theorem settled_withStore (s : Machine σ) (t : Store σ) :
    (s.withStore t).settled = s.settled := rfl

@[simp] theorem withStore_withStore (s : Machine σ) (t u : Store σ) :
    (s.withStore t).withStore u = s.withStore u := rfl

theorem askHost_run (use : σ → Except Fault Host.Reply × σ) (s : Machine σ) :
    (askHost use).run s = match use s.host with
      | (.ok reply, host) =>
        (.ok (Number.sanitize reply.value), note (reply.note.map Notice.host)
          { s with host := host })
      | (.error f, host) => (.error (.fault f), { s with host := host }) := by
  simp only [askHost, Exec.run_bind, Exec.run_get, Exec.run_set]
  rcases use s.host with ⟨f | reply, host⟩ <;> rfl

theorem assign_run (a : Assignment) (index : Int) (args : List Float) (s : Machine σ) :
    (assign a index args).run s = match a.eval (s.registers.get (some index)) (args ++ [0.0]) with
      | .ok x => (.ok (Number.sanitize x), { s with registers := s.registers.set (some index) x })
      | .error f => (.error (.fault f), s) := by
  simp only [assign, Exec.run_bind, Exec.run_get]
  rcases a.eval (s.registers.get (some index)) (args ++ [0.0]) with f | x <;> rfl

theorem operandValue_run (setup : Setup σ) (t : Term) (s : Machine σ) :
    (operandValue setup t).run s = match t.kind with
      | .number => (.ok (Number.sanitize t.literal), s)
      | .register => (.ok (s.registers.get t.index), s)
      | .negated => (.ok (Number.sanitize (-s.registers.get t.index)), s)
      | .inverted => (.ok (Number.ofBool (s.registers.get t.index == 0.0)), s)
      | .property => (askHost (setup.bridge.read t.nameText)).run s
      | _ => (.ok 0.0, s) := by
  simp only [operandValue, Exec.run_bind, Exec.run_get]
  cases t.kind <;> rfl

/-- Only reading a property can fail to give a value. -/
theorem operandValue_ok {t : Term} (kind : t.kind ≠ .property) (setup : Setup σ) (s : Machine σ) :
    ∃ x, (operandValue setup t).run s = (.ok x, s) := by
  rw [operandValue_run]
  split
  case h_5 property => exact absurd property kind
  all_goals exact ⟨_, rfl⟩

end Machine

/-- Runs a computation of a machine on the store alone. -/
def Store.lift (c : Exec σ α) : Calculation σ α := fun s =>
  ((c.run s.machine).1, (c.run s.machine).2.store)

theorem Store.run_lift (c : Exec σ α) (s : Store σ) :
    (lift c).run s = ((c.run s.machine).1, (c.run s.machine).2.store) := rfl

/-- What operands and calls do to a store. -/
def Store.meaning (bridge : Host.Bridge σ) : Meaning (Calculation σ) where
  operand t := lift (Machine.operandValue { lines := [], bridge := bridge } t)
  perform t args := lift (Machine.perform { lines := [], bridge := bridge } none false t args)

/-- On the machine `s`, `c` does to the store what `d` does to it, and neither touches the rest of
the machine nor jumps. -/
structure Framed (s : Machine σ) (c : Exec σ α) (d : Calculation σ α) : Prop where
  run : c.run s = ((d.run s.store).1, s.withStore (d.run s.store).2)
  stays : (d.run s.store).1 ≠ .error .jump

namespace Framed

theorem pure (a : α) (s : Machine σ) : Framed s (pure a) (Store.lift (pure a)) :=
  ⟨rfl, fun jumped => nomatch jumped⟩

theorem fault (f : Fault) (s : Machine σ) :
    Framed s (throw (.fault f) : Exec σ α) (Store.lift (throw (.fault f))) :=
  ⟨rfl, fun jumped => nomatch jumped⟩

theorem askHost (use : σ → Except Fault Host.Reply × σ) (s : Machine σ) :
    Framed s (Machine.askHost use) (Store.lift (Machine.askHost use)) := by
  have host : s.store.machine.host = s.host := rfl
  constructor
  · rw [Store.run_lift, Machine.askHost_run, Machine.askHost_run, host]
    rcases use s.host with ⟨f | reply, host⟩ <;> rfl
  · rw [Store.run_lift, Machine.askHost_run, host]
    rcases use s.host with ⟨f | reply, host⟩ <;> simp

theorem assign (a : Assignment) (index : Int) (args : List Float) (s : Machine σ) :
    Framed s (Machine.assign a index args) (Store.lift (Machine.assign a index args)) := by
  have registers : s.store.machine.registers = s.registers := rfl
  constructor
  · rw [Store.run_lift, Machine.assign_run, Machine.assign_run, registers]
    rcases a.eval (s.registers.get (some index)) (args ++ [0.0]) with f | x <;> rfl
  · rw [Store.run_lift, Machine.assign_run, registers]
    rcases a.eval (s.registers.get (some index)) (args ++ [0.0]) with f | x <;> simp

theorem callByName (setup : Setup σ) (name : String) (args : List Float) (s : Machine σ) :
    Framed s (Machine.callByName setup name args)
      (Store.lift (Machine.callByName { lines := [], bridge := setup.bridge } name args)) := by
  unfold Machine.callByName
  split
  · cases Operator.invoke name args with
    | ok x => exact pure _ s
    | error f => exact fault f s
  · exact askHost _ s

theorem operandValue (setup : Setup σ) (t : Term) (s : Machine σ) :
    Framed s (Machine.operandValue setup t) ((Store.meaning setup.bridge).operand t) := by
  simp only [Store.meaning]
  have asked := askHost (setup.bridge.read t.nameText) s
  constructor
  · rw [Store.run_lift, Machine.operandValue_run, Machine.operandValue_run]
    cases t.kind with
    | property => exact asked.run
    | _ => rfl
  · rw [Store.run_lift, Machine.operandValue_run]
    cases t.kind with
    | property => exact asked.stays
    | _ => exact fun jumped => nomatch jumped

/-- A call that is no flow keyword acts on the store alone. -/
theorem perform (setup : Setup σ) (indent : Option Nat) (settled : Bool) {t : Term}
    (kind : t.kind ≠ .flow) (args : List Float) (s : Machine σ) :
    Framed s (Machine.perform setup indent settled t args)
      ((Store.meaning setup.bridge).perform t args) := by
  simp only [Store.meaning, Machine.perform]
  split
  · contradiction
  · split
    · exact assign _ _ args s
    · exact callByName setup _ args s
  · exact callByName setup _ args s

theorem bind {c : Exec σ α} {d : Calculation σ α} {f : α → Exec σ β} {g : α → Calculation σ β}
    {s : Machine σ} (first : Framed s c d)
    (later : ∀ a, (d.run s.store).1 = .ok a → ∀ t, Framed t (f a) (g a)) :
    Framed s (c >>= f) (d >>= g) := by
  obtain ⟨run, stays⟩ := first
  rcases outcome : d.run s.store with ⟨e | a, store⟩
  · rw [outcome] at run stays
    exact ⟨by simp only [Exec.run_bind, run, outcome],
      by simpa [Exec.run_bind, outcome] using stays⟩
  · rw [outcome] at run
    have next := later a (by rw [outcome]) (s.withStore store)
    refine ⟨?_, ?_⟩
    · simpa only [Exec.run_bind, run, outcome, Machine.store_withStore, Machine.withStore_withStore]
        using next.run
    · simpa only [Exec.run_bind, outcome, Machine.store_withStore] using next.stays

def lockstep : Lockstep (Exec σ) (Calculation σ) where
  Related V c d := ∀ s : Machine σ, Framed s c d ∧ ∀ a, (d.run s.store).1 = .ok a → V a
  ofPure fits s := ⟨⟨rfl, fun jumped => nomatch jumped⟩, fun _ same => Except.ok.inj same ▸ fits⟩
  ofBind {_ _ _ _ c d f g} first later s := by
    refine ⟨(first s).1.bind fun a same t => (later a ((first s).2 a same) t).1, fun b ended => ?_⟩
    rcases outcome : d.run s.store with ⟨e | a, store⟩
    · simp [Exec.run_bind, outcome] at ended
    · have fits := (first s).2 a (by rw [outcome])
      simp only [Exec.run_bind, outcome] at ended
      exact (later a fits (s.withStore store)).2 b ended

theorem evalArgs (setup : Setup σ) (indent : Option Nat) (settled : Bool) {args : List Expr}
    (free : ∀ e ∈ args, e.FlowFree) (s : Machine σ) :
    Framed s (Expr.evalArgs (Machine.meaning setup indent settled) args)
      (Expr.evalArgs (Store.meaning setup.bridge) args) := by
  refine (lockstep.evalArgs_related (V := fun _ => True) args ?_ ?_ s).1
  · exact fun t _ s => ⟨operandValue setup t s, fun _ _ => trivial⟩
  · intro t member xs _ s
    obtain ⟨e, inside, called⟩ := Expr.mem_headsOf.mp member
    exact ⟨perform setup indent settled (free e inside t called) xs s, fun _ _ => trivial⟩

theorem evalAll (setup : Setup σ) (indent : Option Nat) (settled : Bool) {calls : List Expr}
    (free : ∀ e ∈ calls, e.FlowFree) (s : Machine σ) :
    Framed s (Expr.evalAll (Machine.meaning setup indent settled) calls)
      (Expr.evalAll (Store.meaning setup.bridge) calls) := by
  refine (lockstep.evalAll_related (V := fun _ => True) calls ?_ ?_ s).1
  · exact fun t _ s => ⟨operandValue setup t s, fun _ _ => trivial⟩
  · intro t member xs _ s
    obtain ⟨e, inside, called⟩ := Expr.mem_headsOf.mp member
    exact ⟨perform setup indent settled (free e inside t called) xs s, fun _ _ => trivial⟩

end Framed

/-- From `I` on, a computation gives a value in `V` and leads to `I` again, or it is interrupted as
`E` allows. -/
structure Keeps (I : Machine σ → Prop) (E : Interrupt → Machine σ → Prop) (V : α → Prop)
    (c : Exec σ α) (s : Machine σ) : Prop where
  value : ∀ a t, c.run s = (.ok a, t) → V a ∧ I t
  interrupt : ∀ e t, c.run s = (.error e, t) → E e t

namespace Keeps

variable {I : Machine σ → Prop} {E : Interrupt → Machine σ → Prop} {s : Machine σ}

theorem of_ok {V : α → Prop} {c : Exec σ α} {a : α} {t : Machine σ} (ran : c.run s = (.ok a, t))
    (fits : V a) (holds : I t) : Keeps I E V c s := by
  refine ⟨fun b u other => ?_, fun e u other => ?_⟩ <;> cases ran.symm.trans other
  exact ⟨fits, holds⟩

theorem of_error {V : α → Prop} {c : Exec σ α} {e : Interrupt} {t : Machine σ}
    (ran : c.run s = (.error e, t)) (allowed : E e t) : Keeps I E V c s := by
  refine ⟨fun b u other => ?_, fun e u other => ?_⟩ <;> cases ran.symm.trans other
  exact allowed

/-- An invariant of evaluation as a relation of computations, which looks at the first of the two
alone. -/
def lockstep (I : Machine σ → Prop) (E : Interrupt → Machine σ → Prop) :
    Lockstep (Exec σ) (Exec σ) where
  Related V c _ := ∀ s, I s → Keeps I E V c s
  ofPure fits s holds :=
    ⟨fun a t ran => by cases ran; exact ⟨fits, holds⟩, fun e t ran => nomatch ran⟩
  ofBind {_ _ _ _ c _ f _} first later s holds := by
    obtain ⟨value, interrupt⟩ := first s holds
    rcases outcome : c.run s with ⟨e | a, t⟩
    · refine ⟨fun b u ran => ?_, fun e' u ran => ?_⟩
      · simp only [Exec.run_bind, outcome] at ran
        cases ran
      · simp only [Exec.run_bind, outcome] at ran
        cases ran
        exact interrupt e t outcome
    · obtain ⟨fits, after⟩ := value a t outcome
      have next := later a fits t after
      refine ⟨fun b u ran => next.value b u ?_, fun e u ran => next.interrupt e u ?_⟩
      · simpa only [Exec.run_bind, outcome] using ran
      · simpa only [Exec.run_bind, outcome] using ran

/-- What does not look at the store is kept by computations on the store. -/
theorem of_framed {c : Exec σ α} {d : Calculation σ α} (framed : Framed s c d)
    (keeps : ∀ t, I (s.withStore t)) (fails : ∀ f t, E (.fault f) (s.withStore t)) :
    Keeps I E (fun _ => True) c s := by
  obtain ⟨run, stays⟩ := framed
  refine ⟨fun a t ran => ?_, fun e t ran => ?_⟩
  · obtain ⟨-, rfl⟩ := Prod.mk.inj (run.symm.trans ran)
    exact ⟨trivial, keeps _⟩
  · obtain ⟨same, rfl⟩ := Prod.mk.inj (run.symm.trans ran)
    cases e with
    | jump => exact absurd same stays
    | fault f => exact fails f _

end Keeps

end Termwise
