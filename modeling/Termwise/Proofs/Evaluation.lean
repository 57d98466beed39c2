import Termwise.Machine.Eval

/-! Facts about evaluation that hold whatever operands and calls mean. Two meanings are compared by
a relation on computations; when it holds of the operands and calls of a tree, it holds of the
evaluation of the tree. -/
namespace Termwise

namespace Expr

mutual

/-- The terms of a tree in the order in which they are written. -/
def terms : Expr → List Term
  | .operand t => [t]
  | .call t args => t :: termsOf args

def termsOf : List Expr → List Term
  | [] => []
  | e :: rest => e.terms ++ termsOf rest

end

mutual

/-- The terms of a tree that are called. -/
def heads : Expr → List Term
  | .operand _ => []
  | .call t args => t :: headsOf args

def headsOf : List Expr → List Term
  | [] => []
  | e :: rest => e.heads ++ headsOf rest

end

theorem head_mem_terms (e : Expr) : e.head ∈ e.terms := by
  cases e <;> simp [head, terms]

theorem mem_headsOf {t : Term} {es : List Expr} : t ∈ headsOf es ↔ ∃ e ∈ es, t ∈ e.heads := by
  induction es with
  | nil => simp [headsOf]
  | cons e rest ih => simp [headsOf, ih]

/-- No flow keyword is called anywhere in the tree. -/
def FlowFree (e : Expr) : Prop := ∀ t ∈ e.heads, t.kind ≠ .flow

instance (e : Expr) : Decidable e.FlowFree :=
  inferInstanceAs (Decidable (∀ t ∈ e.heads, t.kind ≠ .flow))

/-- A keyword is called somewhere in the tree. -/
def Calls (e : Expr) (keyword : Flow) : Prop :=
  ∃ t ∈ e.heads, t.kind = .flow ∧ Flow.ofWord? t.nameText = some keyword

instance (e : Expr) (keyword : Flow) : Decidable (e.Calls keyword) :=
  inferInstanceAs (Decidable (∃ t ∈ e.heads, t.kind = .flow ∧
    Flow.ofWord? t.nameText = some keyword))

def evalArgs {m : Type → Type} [Monad m] (meaning : Meaning m) (args : List Expr) :
    m (List Float) := do
  let nested ← evalNested meaning args
  resolve meaning args nested

theorem evalCall_call {m : Type → Type} [Monad m] [LawfulMonad m] (meaning : Meaning m) (t : Term)
    (args : List Expr) : evalCall meaning (.call t args) = (do
      let values ← evalArgs meaning args
      let x ← meaning.perform t values
      return some x) := by
  simp only [evalCall, evalArgs, bind_assoc]

end Expr

namespace Line

def FlowFree (line : Line) : Prop := ∀ e ∈ line.calls, e.FlowFree

instance (line : Line) : Decidable line.FlowFree :=
  inferInstanceAs (Decidable (∀ e ∈ line.calls, e.FlowFree))

def Calls (line : Line) (keyword : Flow) : Prop := ∃ e ∈ line.calls, e.Calls keyword

instance (line : Line) (keyword : Flow) : Decidable (line.Calls keyword) :=
  inferInstanceAs (Decidable (∃ e ∈ line.calls, e.Calls keyword))

end Line

/-- A relation between computations that respects values and sequencing. A predicate on the value
says what the computations give; both give the same value. -/
structure Lockstep (m n : Type → Type) [Monad m] [Monad n] where
  Related : {α : Type} → (α → Prop) → m α → n α → Prop
  ofPure : ∀ {α : Type} {V : α → Prop} {a : α}, V a → Related V (pure a) (pure a)
  ofBind : ∀ {α β : Type} {V : α → Prop} {W : β → Prop} {c : m α} {d : n α} {f : α → m β}
    {g : α → n β},
    Related V c d → (∀ a, V a → Related W (f a) (g a)) → Related W (c >>= f) (d >>= g)

namespace Lockstep

variable {m n : Type → Type} [Monad m] [Monad n] (L : Lockstep m n) {M : Meaning m} {N : Meaning n}
  {V : Float → Prop}

def Known (V : Float → Prop) (values : List (Option Float)) : Prop := ∀ x, some x ∈ values → V x

theorem resolve_related {args : List Expr} {values : List (Option Float)}
    (operand : ∀ t ∈ Expr.termsOf args, L.Related V (M.operand t) (N.operand t))
    (known : Known V values) :
    L.Related (fun xs => ∀ x ∈ xs, V x) (Expr.resolve M args values)
      (Expr.resolve N args values) := by
  induction args generalizing values with
  | nil => exact L.ofPure (by simp)
  | cons e rest ih =>
    have later : L.Related (fun xs => ∀ x ∈ xs, V x)
        (Expr.resolve M rest values.tail) (Expr.resolve N rest values.tail) := by
      refine ih ?_ ?_
      · exact fun t member => operand t (by simp [Expr.termsOf, member])
      · exact fun y member => known y (List.mem_of_mem_tail member)
    have extend (x : Float) (fits : V x) (xs : List Float) (all : ∀ x ∈ xs, V x) :
        L.Related (fun xs => ∀ x ∈ xs, V x) (pure (x :: xs)) (pure (x :: xs)) :=
      L.ofPure (by simpa [fits] using all)
    simp only [Expr.resolve]
    cases found : values.head?.join with
    | none =>
      have member : e.head ∈ Expr.termsOf (e :: rest) := by simp [Expr.termsOf, Expr.head_mem_terms]
      exact L.ofBind (operand _ member) fun x fits => L.ofBind later (extend x fits)
    | some x =>
      rw [Option.join_eq_some_iff] at found
      have fits : V x := known x (List.mem_of_mem_head? found)
      exact L.ofBind (L.ofPure fits) fun x fits => L.ofBind later (extend x fits)

mutual

theorem evalCall_related (e : Expr)
    (operand : ∀ t ∈ e.terms, L.Related V (M.operand t) (N.operand t))
    (perform : ∀ t ∈ e.heads, ∀ args, (∀ x ∈ args, V x) →
      L.Related V (M.perform t args) (N.perform t args)) :
    L.Related (fun value => ∀ x, value = some x → V x) (Expr.evalCall M e) (Expr.evalCall N e) := by
  cases e with
  | operand t => exact L.ofPure (by simp)
  | call t args =>
    simp only [Expr.evalCall]
    have inside : ∀ u ∈ Expr.termsOf args, L.Related V (M.operand u) (N.operand u) :=
      fun u member => operand u (by simp [Expr.terms, member])
    have nested := evalNested_related args inside fun u member => perform u
      (by simp [Expr.heads, member])
    refine L.ofBind nested fun values known =>
      L.ofBind (L.resolve_related inside known) fun xs all => ?_
    exact L.ofBind (perform t (by simp [Expr.heads]) xs all) fun x fits =>
      L.ofPure (by simpa using fits)

theorem evalNested_related (args : List Expr)
    (operand : ∀ t ∈ Expr.termsOf args, L.Related V (M.operand t) (N.operand t))
    (perform : ∀ t ∈ Expr.headsOf args, ∀ args, (∀ x ∈ args, V x) →
      L.Related V (M.perform t args) (N.perform t args)) :
    L.Related (Known V) (Expr.evalNested M args) (Expr.evalNested N args) := by
  cases args with
  | nil => exact L.ofPure (by simp [Known])
  | cons e rest =>
    simp only [Expr.evalNested]
    have later := evalNested_related rest
      (fun t member => operand t (by simp [Expr.termsOf, member]))
      fun t member => perform t (by simp [Expr.headsOf, member])
    have first := evalCall_related e (fun t member => operand t (by simp [Expr.termsOf, member]))
      fun t member => perform t (by simp [Expr.headsOf, member])
    refine L.ofBind later fun values known => L.ofBind first fun value fits => L.ofPure ?_
    intro x member
    rcases List.mem_cons.mp member with same | old
    · exact fits x same.symm
    · exact known x old

end

theorem evalArgs_related (args : List Expr)
    (operand : ∀ t ∈ Expr.termsOf args, L.Related V (M.operand t) (N.operand t))
    (perform : ∀ t ∈ Expr.headsOf args, ∀ args, (∀ x ∈ args, V x) →
      L.Related V (M.perform t args) (N.perform t args)) :
    L.Related (fun xs => ∀ x ∈ xs, V x) (Expr.evalArgs M args) (Expr.evalArgs N args) :=
  L.ofBind (L.evalNested_related args operand perform) fun _ known =>
    L.resolve_related operand known

theorem evalAll_related (es : List Expr)
    (operand : ∀ t ∈ Expr.termsOf es, L.Related V (M.operand t) (N.operand t))
    (perform : ∀ t ∈ Expr.headsOf es, ∀ args, (∀ x ∈ args, V x) →
      L.Related V (M.perform t args) (N.perform t args)) :
    L.Related (fun _ => True) (Expr.evalAll M es) (Expr.evalAll N es) := by
  induction es with
  | nil => exact L.ofPure trivial
  | cons e rest ih =>
    simp only [Expr.evalAll]
    have first := L.evalCall_related e (fun t member => operand t (by simp [Expr.termsOf, member]))
      fun t member => perform t (by simp [Expr.headsOf, member])
    refine L.ofBind first fun _ _ => ih ?_ ?_
    · exact fun t member => operand t (by simp [Expr.termsOf, member])
    · exact fun t member => perform t (by simp [Expr.headsOf, member])

end Lockstep

end Termwise
