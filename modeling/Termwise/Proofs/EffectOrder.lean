import Termwise.Proofs.Faults
import Termwise.Proofs.Finiteness
import Termwise.Proofs.PrefixNotation
import Termwise.Proofs.RegisterUse

/-! The order of effects. A line without flow keywords performs each of its calls once: tree by tree
from left to right, and within a tree from right to left. Nothing else that its execution does is
seen outside, so the functions of the host are called and the registers are written in that
order. -/
namespace Termwise

variable {σ α β : Type}

namespace Expr

theorem headsOf_eq_flatMap (es : List Expr) : headsOf es = es.flatMap heads := by
  induction es with
  | nil => rfl
  | cons e rest ih => rw [headsOf, ih, List.flatMap_cons]

mutual

theorem Saturated.heads_eq {e : Expr} (saturated : e.Saturated) :
    e.heads = e.terms.filter fun t => t.kind.isCall := by
  cases e with
  | operand t =>
    have plain : t.kind.isCall = false := saturated.isCall_eq.symm
    simp [heads, terms, plain]
  | call t args =>
    cases saturated with
    | call kind count inside => simp [heads, terms, kind, headsOf_of_saturated inside]

theorem headsOf_of_saturated {es : List Expr} (saturated : ∀ e ∈ es, e.Saturated) :
    headsOf es = (termsOf es).filter fun t => t.kind.isCall := by
  cases es with
  | nil => rfl
  | cons e rest =>
    rw [List.forall_mem_cons] at saturated
    rw [headsOf, termsOf, List.filter_append, saturated.1.heads_eq,
      headsOf_of_saturated saturated.2]

end

theorem headsOf_filter_isCall (es : List Expr) : headsOf (es.filter isCall) = headsOf es := by
  induction es with
  | nil => rfl
  | cons e rest ih =>
    cases e with
    | operand t => exact ih
    | call t args => rw [List.filter_cons_of_pos rfl, headsOf, headsOf, ih]

end Expr

namespace Line

/-- The calls of the trees, in the order in which they stand in the row, are all calls of the
row. -/
theorem headsOf_calls (row : List Term) :
    Expr.headsOf (ofTerms row).calls = row.filter fun t => t.kind.isCall := by
  obtain ⟨count, padded⟩ := Expr.exists_padded row
  have zeros : (List.replicate count Term.zero).filter (fun t => t.kind.isCall) = [] :=
    List.filter_eq_nil_iff.mpr fun t member => by
      rw [List.eq_of_mem_replicate member]; exact Bool.false_ne_true
  show Expr.headsOf ((Expr.forest row).filter Expr.isCall) = _
  rw [Expr.headsOf_filter_isCall, Expr.headsOf_of_saturated (Expr.forest_saturated row),
    padded.listing, List.filter_append, zeros, List.append_nil, List.filter_filter]
  refine List.filter_congr fun t _ => ?_
  cases call : t.kind.isCall <;> simp [Term.isSolid, call]

theorem flowFree_ofTerms {row : List Term} (free : ∀ t ∈ row, t.kind ≠ .flow) :
    (ofTerms row).FlowFree := by
  intro e among t called
  have member : t ∈ Expr.headsOf (ofTerms row).calls := Expr.mem_headsOf.mpr ⟨e, among, called⟩
  rw [headsOf_calls] at member
  exact free t (List.mem_filter.mp member).1

/-- The calls of a line tree by tree, those of a tree from right to left. -/
def callOrder (line : Line) : List Term := line.calls.flatMap fun e => e.heads.reverse

end Line

/-- What a call does that is seen outside its line: it calls a function of the host, or it assigns
to a register. -/
inductive Effect where
  | call (made : Host.Call)
  | write (index : Int) (x : Float)

namespace Effect

def call? : Effect → Option Host.Call
  | .call made => some made
  | .write _ _ => none

/-- The registers after the effect. -/
def store (r : Registers) : Effect → Registers
  | .call _ => r
  | .write index x => r.set (some index) x

theorem foldl_store_calls (calls : List Host.Call) (r : Registers) :
    (calls.map Effect.call).foldl store r = r := by
  induction calls with
  | nil => rfl
  | cons made rest ih => exact ih

theorem filterMap_call?_calls (calls : List Host.Call) :
    (calls.map Effect.call).filterMap call? = calls := by
  rw [List.filterMap_map]
  exact List.filterMap_some

end Effect

/-- A call by name calls a function of the host, if it has such a function, unless it is an
operator. -/
def Host.Bridge.effects (b : Host.Bridge σ) (name : String) (args : List Float) (host : σ) :
    List Effect :=
  if (Operator.ofName? name).isSome then [] else (b.called name args host).map .call

/-- The effects of a call that gave `x`: an assignment writes the number that it gives. -/
def Term.effects (b : Host.Bridge σ) (t : Term) (args : List Float) (host : σ) (x : Float) :
    List Effect :=
  match t.kind with
  | .flow => []
  | .assignment =>
    match t.index, Assignment.ofName? t.nameText with
    | some index, some _ => [.write index x]
    | _, _ => b.effects t.nameText args host
  | _ => b.effects t.nameText args host

/-- The host keeps a log of the calls of its functions, oldest first. Reading a property is not
logged. -/
structure Host.Bridge.Logs (b : Host.Bridge σ) (log : σ → List Host.Call) : Prop where
  call : ∀ name args host, log (b.call name args host).2 = log host ++ b.called name args host
  read : ∀ name host, log (b.read name host).2 = log host

theorem Host.Bridge.recorded_logs (b : Host.Bridge σ) :
    b.recorded.Logs fun host => host.2.reverse := by
  constructor
  · rintro name args ⟨host, calls⟩
    have same : b.recorded.called name args (host, calls) = b.called name args host := by
      unfold called recorded
      rw [function?_logged]
      rcases (b.function? name host).1 with f | _ | run <;> rfl
    have short : (b.called name args host).reverse = b.called name args host := by
      unfold called
      split <;> rfl
    rw [call_recorded, same]
    simp [short]
  · rintro name ⟨host, calls⟩
    rw [read_recorded]

namespace Machine

variable {setup : Setup σ} {indent : Option Nat} {settled : Bool} {s t u : Machine σ}

/-- From `s` the machine comes to `t` by reading operands and performing calls. These calls are
listed in order, each with its effects. -/
inductive Course (setup : Setup σ) (indent : Option Nat) (settled : Bool) (s : Machine σ) :
    List (Term × List Effect) → Machine σ → Prop
  | start : Course setup indent settled s [] s
  | read {deeds : List (Term × List Effect)} {t u : Machine σ} {v : Term} {x : Float}
      (before : Course setup indent settled s deeds t)
      (ran : (operandValue setup v).run t = (.ok x, u)) :
      Course setup indent settled s deeds u
  | call {deeds : List (Term × List Effect)} {t u : Machine σ} {v : Term}
      {args : List Float} {x : Float} (before : Course setup indent settled s deeds t)
      (ran : (perform setup indent settled v args).run t = (.ok x, u)) :
      Course setup indent settled s (deeds ++ [(v, v.effects setup.bridge args t.host x)]) u

variable {deeds more : List (Term × List Effect)}

theorem Course.trans (first : Course setup indent settled s deeds t)
    (later : Course setup indent settled t more u) :
    Course setup indent settled s (deeds ++ more) u := by
  induction later with
  | start => rwa [List.append_nil]
  | read _ ran ih => exact .read ih ran
  | call _ ran ih =>
    rw [← List.append_assoc]
    exact .call ih ran

/-- Between the two machines just the effects are seen: on the registers, and on every log of calls
that the host keeps. -/
structure Shows (setup : Setup σ) (effects : List Effect) (s t : Machine σ) : Prop where
  registers : t.registers = effects.foldl Effect.store s.registers
  log : ∀ log, setup.bridge.Logs log → log t.host = log s.host ++ effects.filterMap Effect.call?

namespace Shows

variable {effects later : List Effect}

theorem refl (s : Machine σ) : Shows setup [] s s :=
  ⟨rfl, fun _ _ => (List.append_nil _).symm⟩

theorem trans (first : Shows setup effects s t) (second : Shows setup later t u) :
    Shows setup (effects ++ later) s u := by
  constructor
  · rw [second.registers, first.registers, List.foldl_append]
  · intro log keeps
    rw [second.log log keeps, first.log log keeps, List.filterMap_append, List.append_assoc]

end Shows

theorem host_askHost (use : σ → Except Fault Host.Reply × σ) (t : Machine σ) :
    ((askHost use).run t).2.host = (use t.host).2 := by
  rw [askHost_run]
  rcases use t.host with ⟨f | reply, host⟩ <;> rfl

theorem askHost_fault {use : σ → Except Fault Host.Reply × σ} {f : Fault}
    (ran : (askHost use).run t = (.error (.fault f), u)) : (use t.host).1 = .error f := by
  rw [askHost_run] at ran
  rcases used : use t.host with ⟨g | reply, host⟩ <;> rw [used] at ran <;> cases ran
  rfl

theorem operandValue_shows (setup : Setup σ) (v : Term) (t : Machine σ) :
    Shows setup [] t ((operandValue setup v).run t).2 := by
  refine ⟨registers_operandValue setup v t, fun log keeps => ?_⟩
  rw [operandValue_run, List.filterMap_nil, List.append_nil]
  cases v.kind with
  | property => exact (congrArg log (host_askHost _ t)).trans (keeps.read v.nameText t.host)
  | _ => rfl

/-- Reading an operand faults only where reading a property of the host does. -/
theorem operandValue_fault {v : Term} {f : Fault}
    (ran : (operandValue setup v).run t = (.error (.fault f), u)) :
    (setup.bridge.read v.nameText t.host).1 = .error f := by
  by_cases kind : v.kind = .property
  · rw [operandValue_run, kind] at ran
    exact askHost_fault ran
  · obtain ⟨x, read⟩ := operandValue_ok kind setup t
    cases read.symm.trans ran

theorem callByName_shows (setup : Setup σ) (name : String) (args : List Float) (t : Machine σ) :
    Shows setup (setup.bridge.effects name args t.host) t
      ((callByName setup name args).run t).2 := by
  unfold callByName Host.Bridge.effects
  split
  · cases Operator.invoke name args with
    | ok x => exact .refl t
    | error f => exact .refl t
  · constructor
    · rw [registers_askHost, Effect.foldl_store_calls]
    · intro log keeps
      rw [host_askHost, Effect.filterMap_call?_calls, keeps.call]

/-- A call by name faults only where a call of the host does. -/
theorem callByName_fault {name : String} {args : List Float} {f : Fault}
    (ran : (callByName setup name args).run t = (.error (.fault f), u)) :
    (setup.bridge.call name args t.host).1 = .error f := by
  unfold callByName at ran
  split at ran
  next builtin =>
    obtain ⟨op, known⟩ := Option.isSome_iff_exists.mp builtin
    obtain ⟨x, value⟩ := op.eval_ok args
    rw [Operator.invoke, known] at ran
    dsimp only at ran
    rw [value] at ran
    cases ran
  next => exact askHost_fault ran

theorem assign_shows {a : Assignment} {index : Int} {args : List Float} {x : Float}
    (ran : (assign a index args).run t = (.ok x, u)) : Shows setup [.write index x] t u := by
  rw [assign_run] at ran
  obtain ⟨y, value⟩ := a.eval_ok (t.registers.get (some index)) args
  rw [value] at ran
  obtain ⟨same, rfl⟩ := Prod.mk.inj ran
  rw [← Except.ok.inj same]
  constructor
  · show t.registers.set (some index) y = t.registers.set (some index) (Number.sanitize y)
    rw [Registers.set_sanitize]
  · exact fun _ _ => (List.append_nil _).symm

/-- What a call is, with its effects: a flow keyword, an assignment, or a call by name. -/
theorem perform_cases (setup : Setup σ) (indent : Option Nat) (settled : Bool) (v : Term)
    (args : List Float) :
    (v.kind = .flow ∧
      perform setup indent settled v args =
        performFlow setup indent settled (Flow.ofWord? v.nameText) args ∧
      ∀ host x, v.effects setup.bridge args host x = []) ∨
    (∃ a index, perform setup indent settled v args = assign a index args ∧
      ∀ host x, v.effects setup.bridge args host x = [.write index x]) ∨
    (perform setup indent settled v args = callByName setup v.nameText args ∧
      ∀ host x, v.effects setup.bridge args host x =
        setup.bridge.effects v.nameText args host) := by
  cases kind : v.kind with
  | flow =>
    exact .inl ⟨rfl, by simp only [perform, kind], fun _ _ => by simp only [Term.effects, kind]⟩
  | assignment =>
    cases place : v.index with
    | none =>
      exact .inr (.inr ⟨by simp only [perform, kind, place],
        fun _ _ => by simp only [Term.effects, kind, place]⟩)
    | some index =>
      cases known : Assignment.ofName? v.nameText with
      | none =>
        exact .inr (.inr ⟨by simp only [perform, kind, place, known],
          fun _ _ => by simp only [Term.effects, kind, place, known]⟩)
      | some a =>
        exact .inr (.inl ⟨a, index, by simp only [perform, kind, place, known],
          fun _ _ => by simp only [Term.effects, kind, place, known]⟩)
  | _ =>
    exact .inr (.inr ⟨by simp only [perform, kind], fun _ _ => by simp only [Term.effects, kind]⟩)

theorem perform_shows {v : Term} {args : List Float} {x : Float}
    (ran : (perform setup indent settled v args).run t = (.ok x, u)) :
    Shows setup (v.effects setup.bridge args t.host x) t u := by
  obtain ⟨-, performed, effects⟩ | ⟨a, index, performed, effects⟩ | ⟨performed, effects⟩ :=
    perform_cases setup indent settled v args
  · rw [performed] at ran
    rw [effects]
    have possible := performFlow_outcome setup indent settled (Flow.ofWord? v.nameText) args t
    rw [ran] at possible
    cases possible with
    | idle => exact .refl t
    | opened => exact ⟨rfl, fun _ _ => (List.append_nil _).symm⟩
  · rw [performed] at ran
    rw [effects]
    exact assign_shows ran
  · rw [performed] at ran
    rw [effects]
    have named := callByName_shows setup v.nameText args t
    rwa [ran] at named

/-- Where a call faults, it is the host that answers with the fault, and what is seen of the call is
that the function of the host was called. -/
theorem perform_fault {v : Term} {args : List Float} {f : Fault}
    (ran : (perform setup indent settled v args).run t = (.error (.fault f), u)) :
    (setup.bridge.call v.nameText args t.host).1 = .error f ∧
      Shows setup (setup.bridge.effects v.nameText args t.host) t u := by
  obtain ⟨-, performed, -⟩ | ⟨a, index, performed, -⟩ | ⟨performed, -⟩ :=
    perform_cases setup indent settled v args
  · rw [performed] at ran
    have possible := performFlow_outcome setup indent settled (Flow.ofWord? v.nameText) args t
    rw [ran] at possible
    cases possible
  · obtain ⟨y, value⟩ := a.eval_ok (t.registers.get (some index)) args
    rw [performed, assign_run, value] at ran
    cases ran
  · rw [performed] at ran
    have named := callByName_shows setup v.nameText args t
    rw [ran] at named
    exact ⟨callByName_fault ran, named⟩

theorem Course.shows (course : Course setup indent settled s deeds t) :
    Shows setup (deeds.flatMap Prod.snd) s t := by
  induction course with
  | start => exact .refl s
  | @read deeds t u v x _ ran ih =>
    have read := operandValue_shows setup v t
    rw [ran] at read
    simpa using ih.trans read
  | call _ ran ih => simpa using ih.trans (perform_shows ran)

/-- How a computation ends that performs the calls of `terms` in order and has performed those of
`deeds`: with a value when that is all of them, and otherwise with the next one, which faults, or
with an operand before it that does. -/
inductive Conclusion (setup : Setup σ) (indent : Option Nat) (settled : Bool) (terms : List Term)
    (deeds : List (Term × List Effect)) (t : Machine σ) : Except Interrupt α × Machine σ → Prop
  | whole {a : α} (all : deeds.map Prod.fst = terms) :
      Conclusion setup indent settled terms deeds t (.ok a, t)
  | call {f : Fault} {u : Machine σ} {v : Term} {args : List Float}
      (part : deeds.map Prod.fst ++ [v] <+: terms)
      (ran : (perform setup indent settled v args).run t = (.error (.fault f), u)) :
      Conclusion setup indent settled terms deeds t (.error (.fault f), u)
  | read {f : Fault} {u : Machine σ} {v : Term} (part : deeds.map Prod.fst <+: terms)
      (ran : (operandValue setup v).run t = (.error (.fault f), u)) :
      Conclusion setup indent settled terms deeds t (.error (.fault f), u)

/-- From every machine on, the computation performs just the calls of `terms`, in this order. -/
def Performs (setup : Setup σ) (indent : Option Nat) (settled : Bool) (terms : List Term)
    (c : Exec σ α) : Prop :=
  ∀ s : Machine σ, ∃ deeds t, Course setup indent settled s deeds t ∧
    Conclusion setup indent settled terms deeds t (c.run s)

namespace Performs

variable {terms later : List Term}

theorem pure (a : α) : Performs setup indent settled [] (pure a : Exec σ α) :=
  fun s => ⟨[], s, .start, .whole rfl⟩

theorem bind {c : Exec σ α} {f : α → Exec σ β} (first : Performs setup indent settled terms c)
    (second : ∀ a, Performs setup indent settled later (f a)) :
    Performs setup indent settled (terms ++ later) (c >>= f) := by
  intro s
  obtain ⟨deeds, t, course, ending⟩ := first s
  rw [Exec.run_bind]
  generalize c.run s = ran at ending
  cases ending with
  | whole all =>
    rename_i a
    obtain ⟨more, u, continued, ending⟩ := second a t
    refine ⟨deeds ++ more, u, course.trans continued, ?_⟩
    dsimp only
    generalize (f a).run t = ran at ending
    cases ending with
    | whole rest => exact .whole (by rw [List.map_append, all, rest])
    | call part ran =>
      refine .call ?_ ran
      rw [List.map_append, all, List.append_assoc]
      exact (List.prefix_append_right_inj terms).mpr part
    | read part ran =>
      refine .read ?_ ran
      rw [List.map_append, all]
      exact (List.prefix_append_right_inj terms).mpr part
  | call part ran => exact ⟨deeds, t, course, .call (part.trans (List.prefix_append _ _)) ran⟩
  | read part ran => exact ⟨deeds, t, course, .read (part.trans (List.prefix_append _ _)) ran⟩

theorem operand (v : Term) : Performs setup indent settled [] (operandValue setup v) := by
  intro s
  have framed := Framed.operandValue setup v s
  rcases ran : (operandValue setup v).run s with ⟨(_ | f) | x, u⟩
  · exact absurd (congrArg Prod.fst (framed.run.symm.trans ran)) framed.stays
  · exact ⟨[], s, .start, .read (List.prefix_refl _) ran⟩
  · exact ⟨[], u, .read .start ran, .whole rfl⟩

theorem perform {v : Term} (kind : v.kind ≠ .flow) (args : List Float) :
    Performs setup indent settled [v] (perform setup indent settled v args) := by
  intro s
  have framed := Framed.perform setup indent settled kind args s
  rcases ran : (Machine.perform setup indent settled v args).run s with ⟨(_ | f) | x, u⟩
  · exact absurd (congrArg Prod.fst (framed.run.symm.trans ran)) framed.stays
  · exact ⟨[], s, .start, .call (List.prefix_refl _) ran⟩
  · exact ⟨_, u, .call .start ran, .whole rfl⟩

theorem resolve (args : List Expr) (values : List (Option Float)) :
    Performs setup indent settled [] (Expr.resolve (meaning setup indent settled) args values) := by
  induction args generalizing values with
  | nil => exact pure []
  | cons e rest ih =>
    cases found : values.head?.join with
    | none =>
      simp only [Expr.resolve, found]
      exact (operand e.head).bind fun x => (ih values.tail).bind fun xs => pure (x :: xs)
    | some x =>
      simp only [Expr.resolve, found]
      exact (pure x).bind fun x => (ih values.tail).bind fun xs => pure (x :: xs)

mutual

/-- Within a tree the calls are performed from right to left. -/
theorem evalCall {e : Expr} (free : ∀ t ∈ e.heads, t.kind ≠ .flow) :
    Performs setup indent settled e.heads.reverse
      (Expr.evalCall (meaning setup indent settled) e) := by
  cases e with
  | operand t => exact pure none
  | call t args =>
    rw [Expr.heads, List.forall_mem_cons] at free
    rw [Expr.heads, List.reverse_cons]
    exact (evalNested free.2).bind fun values => (resolve args values).bind fun xs =>
      (perform free.1 xs).bind fun x => pure (some x)

theorem evalNested {args : List Expr} (free : ∀ t ∈ Expr.headsOf args, t.kind ≠ .flow) :
    Performs setup indent settled (Expr.headsOf args).reverse
      (Expr.evalNested (meaning setup indent settled) args) := by
  cases args with
  | nil => exact pure []
  | cons e rest =>
    rw [Expr.headsOf, List.forall_mem_append] at free
    rw [Expr.headsOf, List.reverse_append, ← List.append_nil e.heads.reverse]
    exact (evalNested free.2).bind fun values =>
      (evalCall free.1).bind fun value => pure (value :: values)

end

theorem evalAll {es : List Expr} (free : ∀ e ∈ es, e.FlowFree) :
    Performs setup indent settled (es.flatMap fun e => e.heads.reverse)
      (Expr.evalAll (meaning setup indent settled) es) := by
  induction es with
  | nil => exact pure ()
  | cons e rest ih =>
    rw [List.forall_mem_cons] at free
    exact (evalCall free.1).bind fun _ => ih free.2

end Performs

theorem execute_performs (setup : Setup σ) {line : Line} (settled : Bool) (free : line.FlowFree) :
    Performs setup line.indent settled line.callOrder (execute setup line settled) :=
  Performs.evalAll free

end Machine

/-- The calls of a row without flow keywords are performed once each: tree by tree from left to
right, and within a tree in the reverse of the order in which they stand in the row. What is seen of
the execution, on the registers and on any log of calls that the host keeps, are their effects in
this order. Only the host can end the execution before all are performed, with a fault where a
function is called or a property is read. Then it ends with the call that comes next, of which is
seen that the function was called if it was found, or with an operand before it. -/
theorem Line.execute_callOrder (row : List Term) (free : ∀ t ∈ row, t.kind ≠ .flow)
    (setup : Setup σ) (settled : Bool) (s : Machine σ) :
    let line := ofTerms row
    let ran := (Machine.execute setup line settled).run s
    row.filter (fun t => t.kind.isCall) = line.calls.flatMap Expr.heads ∧
    ∃ deeds t last, Machine.Course setup line.indent settled s deeds t ∧
      ran.2.registers = (deeds.flatMap Prod.snd ++ last).foldl Effect.store s.registers ∧
      (∀ log, setup.bridge.Logs log →
        log ran.2.host = log s.host ++ (deeds.flatMap Prod.snd ++ last).filterMap Effect.call?) ∧
      ((ran = (.ok (), t) ∧ last = [] ∧ deeds.map Prod.fst = line.callOrder) ∨
        ∃ f, ran.1 = .error (.fault f) ∧
          ((∃ u args, (setup.bridge.call u.nameText args t.host).1 = .error f ∧
              (Machine.perform setup line.indent settled u args).run t =
                (.error (.fault f), ran.2) ∧
              last = setup.bridge.effects u.nameText args t.host ∧
              deeds.map Prod.fst ++ [u] <+: line.callOrder) ∨
            ∃ v, (setup.bridge.read v.nameText t.host).1 = .error f ∧
              (Machine.operandValue setup v).run t = (.error (.fault f), ran.2) ∧
              last = [] ∧ deeds.map Prod.fst <+: line.callOrder)) := by
  intro line ran
  refine ⟨by rw [← Expr.headsOf_eq_flatMap, headsOf_calls], ?_⟩
  obtain ⟨deeds, t, course, ending⟩ := Machine.execute_performs setup settled
    (flowFree_ofTerms free) s
  have before := course.shows
  change Machine.Conclusion setup line.indent settled line.callOrder deeds t ran at ending
  clear_value ran
  cases ending with
  | whole all =>
    refine ⟨deeds, t, [], course, ?_, ?_, .inl ⟨rfl, rfl, all⟩⟩
    · rw [List.append_nil]
      exact before.registers
    · rw [List.append_nil]
      exact before.log
  | call part failed =>
    obtain ⟨reason, called⟩ := Machine.perform_fault failed
    have shown := before.trans called
    exact ⟨deeds, t, _, course, shown.registers, shown.log,
      .inr ⟨_, rfl, .inl ⟨_, _, reason, failed, rfl, part⟩⟩⟩
  | @read f u v part failed =>
    have read := Machine.operandValue_shows setup v t
    rw [failed] at read
    have shown := before.trans read
    exact ⟨deeds, t, [], course, shown.registers, shown.log,
      .inr ⟨f, rfl, .inr ⟨v, Machine.operandValue_fault failed, failed, rfl, part⟩⟩⟩

/-- Two trees, the first with functions of the host at several depths around an assignment. -/
theorem Line.execute_callOrder_nested :
    let answer (x : Float) : Host.Binding Unit := .routine fun _ host => (.ok (.float x), host)
    let bridge : Host.Bridge Unit :=
    { functions := [("f", answer 7.0), ("g", answer 5.0), ("h", answer 1.0)] }
    let setup : Setup (Unit × List Host.Call) := { lines := [], bridge := bridge.recorded }
    let call (name : String) (count : Int) : Term :=
    { kind := .function, name := some name, argCount := count }
    let row := [Term.ofOperator .add, call "f" 1, .ofAssignment .set 0, call "g" 0, call "h" 0,
      .ofAssignment .increment 0]
    let s : Machine (Unit × List Host.Call) := { registers := ⟨[0.0]⟩, host := ((), []) }
    let ran := (Machine.execute setup (ofTerms row) false).run s
    (∀ t ∈ row, t.kind ≠ .flow) ∧
      (∃ deeds : List (Term × List Effect),
        deeds.map (fun deed => deed.1.nameText) = ["h", "g", "assign", "f", "add", "assignInc"] ∧
        ran.2.host.2.reverse = (deeds.flatMap Prod.snd).filterMap Effect.call?) ∧
      ran.2.host.2.reverse.map Host.Call.name = ["h", "g", "f"] ∧
      ran.2.registers.values = [6.0] := by
  intro answer bridge setup call row s ran
  have free : ∀ t ∈ row, t.kind ≠ .flow := by decide
  obtain ⟨-, deeds, t, last, -, -, log, outcome⟩ := execute_callOrder row free setup false s
  have logged : ran.2.host.2.reverse = (deeds.flatMap Prod.snd ++ last).filterMap Effect.call? :=
    log (fun host => host.2.reverse) bridge.recorded_logs
  have ended : ran.1.toOption = some () := by decide +kernel
  rcases outcome with ⟨-, rfl, order⟩ | ⟨f, failed, -⟩
  · have names : (ofTerms row).callOrder.map Term.nameText =
        ["h", "g", "assign", "f", "add", "assignInc"] := by
      decide +kernel
    rw [List.append_nil] at logged
    refine ⟨free, ⟨deeds, ?_, logged⟩, by decide +kernel, by decide +kernel⟩
    rw [← names, ← order, List.map_map]
    rfl
  · rw [show ran.1 = _ from failed] at ended
    cases ended

end Termwise
