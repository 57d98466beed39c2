import Termwise.Proofs.Hosts

/-! Which registers a run writes and which it reads. A register that no assignment of the program
names keeps its number, and numbers in registers that the program does not mention change nothing
that a run does. -/
namespace Termwise

variable {σ : Type}

namespace Expr

theorem mem_termsOf {t : Term} {es : List Expr} : t ∈ termsOf es ↔ ∃ e ∈ es, t ∈ e.terms := by
  induction es with
  | nil => simp [termsOf]
  | cons e rest ih => simp [termsOf, ih]

mutual

theorem mem_terms_of_heads {t : Term} {e : Expr} (called : t ∈ e.heads) : t ∈ e.terms := by
  cases e with
  | operand u => simp [heads] at called
  | call u args =>
    rcases List.mem_cons.mp called with rfl | inner
    · exact List.mem_cons_self
    · exact List.mem_cons_of_mem u (mem_termsOf_of_headsOf inner)

theorem mem_termsOf_of_headsOf {t : Term} {es : List Expr} (called : t ∈ headsOf es) :
    t ∈ termsOf es := by
  cases es with
  | nil => simp [headsOf] at called
  | cons e rest =>
    rcases List.mem_append.mp called with first | later
    · exact List.mem_append_left _ (mem_terms_of_heads first)
    · exact List.mem_append_right _ (mem_termsOf_of_headsOf later)

end

/-- A forest is made of the terms it was read from, and of the zeros that stand in for missing
arguments. -/
theorem mem_termsOf_forest {t : Term} {terms : List Term} (member : t ∈ termsOf (forest terms)) :
    t = .zero ∨ t ∈ terms := by
  induction terms with
  | nil => simp [forest, termsOf] at member
  | cons u rest ih =>
    have older (e : Expr) (inside : e ∈ forest rest) (part : t ∈ e.terms) :
        t = .zero ∨ t ∈ u :: rest :=
      (ih (mem_termsOf.mpr ⟨e, inside, part⟩)).imp_right (List.mem_cons_of_mem u)
    obtain ⟨e, inside, part⟩ := mem_termsOf.mp member
    change e ∈ push u (forest rest) at inside
    unfold push at inside
    split at inside
    · rcases List.mem_cons.mp inside with rfl | old
      · obtain rfl : t = u := by simpa [terms] using part
        exact .inr List.mem_cons_self
      · exact older e old part
    · split at inside
      · rcases List.mem_cons.mp inside with rfl | old
        · rcases List.mem_cons.mp part with rfl | argument
          · exact .inr List.mem_cons_self
          · obtain ⟨a, among, part⟩ := mem_termsOf.mp argument
            rcases List.mem_append.mp among with taken | filled
            · exact older a (List.mem_of_mem_take taken) part
            · rw [List.eq_of_mem_replicate filled] at part
              exact .inl (by simpa [Expr.terms] using part)
        · exact older e (List.mem_of_mem_drop old) part
      · exact older e inside part

end Expr

/-- The terms that a run can come to: those in the calls of the lines. -/
def Program.terms (lines : List Line) : List Term :=
  lines.flatMap fun line => Expr.termsOf line.calls

namespace Program

theorem mem_terms {lines : List Line} {line : Line} {t : Term} (member : line ∈ lines)
    (part : t ∈ Expr.termsOf line.calls) : t ∈ terms lines :=
  List.mem_flatMap.mpr ⟨line, member, part⟩

/-- A program that was read from rows is made of their terms, and of the zeros that stand in for
missing arguments. -/
theorem mem_terms_ofTerms {rows : List (List Term)} {t : Term} (member : t ∈ terms (ofTerms rows)) :
    t = .zero ∨ ∃ row ∈ rows, t ∈ row := by
  obtain ⟨line, among, part⟩ := List.mem_flatMap.mp member
  obtain ⟨row, inside, rfl⟩ := List.mem_map.mp among
  obtain ⟨e, called, part⟩ := Expr.mem_termsOf.mp part
  have whole : t ∈ Expr.termsOf (Expr.forest row) :=
    Expr.mem_termsOf.mpr ⟨e, (List.mem_filter.mp called).1, part⟩
  exact (Expr.mem_termsOf_forest whole).imp_right fun given => ⟨row, inside, given⟩

end Program

/-- The term is an assignment to the register `i`. With a name outside the language it is none: it
is called like a function. -/
def Term.Assigns (t : Term) (i : Int) : Prop :=
  t.kind = .assignment ∧ t.index = some i ∧ (Assignment.ofName? t.nameText).isSome = true

instance (t : Term) (i : Int) : Decidable (t.Assigns i) :=
  inferInstanceAs (Decidable (_ ∧ _ ∧ _))

/-- The term reads or assigns the register `i`. -/
def Term.Mentions (t : Term) (i : Int) : Prop :=
  t.kind ∈ [Kind.register, .negated, .inverted, .assignment] ∧ t.index = some i

namespace Registers

variable {r q : Registers} {n : Nat} {i j : Int}

@[simp] theorem length_set (r : Registers) (index : Option Int) (x : Float) :
    (r.set index x).values.length = r.values.length := by
  unfold set
  split <;> simp

theorem place?_eq_some {index : Option Int} {k : Nat} (placed : r.place? index = some k) :
    index = some (k : Int) := by
  unfold place? at placed
  split at placed
  next i =>
    split at placed
    next inside =>
      obtain rfl : i.toNat = k := by simpa using placed
      rw [Int.toNat_of_nonneg inside.1]
    next => cases placed
  next => cases placed

@[simp] theorem place?_set (r : Registers) (index other : Option Int) (x : Float) :
    (r.set index x).place? other = r.place? other := by
  simp only [place?, length_set]

theorem get_set_of_ne (different : i ≠ j) (x : Float) :
    (r.set (some j) x).get (some i) = r.get (some i) := by
  unfold get
  rw [place?_set]
  cases read : r.place? (some i) with
  | none => rfl
  | some k =>
    unfold set
    cases written : r.place? (some j) with
    | none => rfl
    | some l =>
      have apart : l ≠ k := by
        rintro rfl
        exact different ((Option.some.inj (place?_eq_some read)).trans
          (Option.some.inj (place?_eq_some written)).symm)
      simp [List.getD_eq_getElem?_getD, List.getElem?_set_ne apart]

/-- The files have the first `n` registers, and the same numbers in them. -/
structure Agree (n : Nat) (r q : Registers) : Prop where
  left : n ≤ r.values.length
  right : n ≤ q.values.length
  same : q.values.take n = r.values.take n

theorem place?_of_lt (wide : n ≤ r.values.length) (below : i < n) :
    r.place? (some i) = if 0 ≤ i then some i.toNat else none := by
  have inside : i < r.values.length := by omega
  simp [place?, inside]

theorem Agree.get (agree : Agree n r q) (below : i < n) : q.get (some i) = r.get (some i) := by
  unfold Registers.get
  rw [place?_of_lt agree.left below, place?_of_lt agree.right below]
  split
  next k placed =>
    have small : k < n := by
      split at placed
      · obtain rfl : i.toNat = k := by simpa using placed
        omega
      · cases placed
    rw [List.getD_eq_getElem?_getD, List.getD_eq_getElem?_getD, ← List.getElem?_take_of_lt small,
      agree.same, List.getElem?_take_of_lt small]
  next => rfl

theorem Agree.set (agree : Agree n r q) (below : i < n) (x : Float) :
    Agree n (r.set (some i) x) (q.set (some i) x) := by
  refine ⟨by simpa using agree.left, by simpa using agree.right, ?_⟩
  unfold Registers.set
  rw [place?_of_lt agree.left below, place?_of_lt agree.right below]
  split
  · simp only [List.take_set, agree.same]
  · exact agree.same

end Registers

namespace Machine

theorem registers_askHost (use : σ → Except Fault Host.Reply × σ) (s : Machine σ) :
    ((askHost use).run s).2.registers = s.registers := by
  rw [askHost_run]
  rcases use s.host with ⟨f | reply, host⟩ <;> rfl

theorem registers_operandValue (setup : Setup σ) (t : Term) (s : Machine σ) :
    ((operandValue setup t).run s).2.registers = s.registers := by
  rw [operandValue_run]
  cases t.kind with
  | property => exact registers_askHost _ s
  | _ => rfl

theorem registers_callByName (setup : Setup σ) (name : String) (args : List Float) (s : Machine σ) :
    ((callByName setup name args).run s).2.registers = s.registers := by
  unfold callByName
  split
  · cases Operator.invoke name args <;> rfl
  · exact registers_askHost _ s

theorem registers_performFlow (setup : Setup σ) (indent : Option Nat) (settled : Bool)
    (keyword : Option Flow) (args : List Float) (s : Machine σ) :
    ((performFlow setup indent settled keyword args).run s).2.registers = s.registers := by
  have possible := performFlow_outcome setup indent settled keyword args s
  generalize (performFlow setup indent settled keyword args).run s = outcome at possible ⊢
  cases possible <;> rfl

/-- A call writes the one register that it assigns to, or none. -/
theorem registers_perform (setup : Setup σ) (indent : Option Nat) (settled : Bool) (t : Term)
    (args : List Float) (s : Machine σ) :
    ((perform setup indent settled t args).run s).2.registers = s.registers ∨
    ∃ i x, t.Assigns i ∧
      ((perform setup indent settled t args).run s).2.registers = s.registers.set (some i) x := by
  unfold perform
  split
  · exact .inl (registers_performFlow setup indent settled _ args s)
  next kind =>
    split
    next i a index named =>
      rw [assign_run]
      cases a.eval (s.registers.get (some i)) (args ++ [0.0]) with
      | error f => exact .inl rfl
      | ok x => exact .inr ⟨i, x, ⟨kind, index, by rw [named]; rfl⟩, rfl⟩
    next => exact .inl (registers_callByName setup _ args s)
  · exact .inl (registers_callByName setup _ args s)

end Machine

/-- What the assignments of a program keep of the registers is kept by a run. -/
theorem Session.run_keeps_registers {setup : Setup σ} {P : Registers → Prop}
    (writes : ∀ t ∈ Program.terms setup.lines, ∀ i, t.Assigns i → ∀ r x, P r → P (r.set (some i) x))
    (maxSteps : Int) {s : Session σ} (holds : P s.registers) :
    P (s.run setup maxSteps).2.registers := by
  refine run_keeps (P := fun registers _ => P registers) ?_ maxSteps holds
  apply Machine.executionKeeps_of_terms
  · intro line _ t _ m holds
    rwa [Machine.registers_operandValue]
  · intro line member t part indent settled args m holds
    obtain same | ⟨i, x, assigns, written⟩ :=
      Machine.registers_perform setup indent settled t args m
    · rwa [same]
    · rw [written]
      exact writes t (Program.mem_terms member (Expr.mem_termsOf_of_headsOf part)) i
        assigns _ x holds

/-- A run keeps the number of registers, and it keeps what is in a register that no assignment of
the program names. A call that is no assignment leaves all registers as they are, whatever the host
answers. -/
theorem Session.run_unassigned (setup : Setup σ) (maxSteps : Int) (s : Session σ) :
    (s.run setup maxSteps).2.registers.values.length = s.registers.values.length ∧
    (∀ i, (∀ t ∈ Program.terms setup.lines, ¬ t.Assigns i) →
      (s.run setup maxSteps).2.registers.get (some i) = s.registers.get (some i)) ∧
    ∀ (m : Machine σ) (indent : Option Nat) (settled : Bool) (t : Term) (args : List Float),
      (∀ i, ¬ t.Assigns i) →
      ((Machine.perform setup indent settled t args).run m).2.registers = m.registers := by
  refine ⟨?_, ?_, ?_⟩
  · refine run_keeps_registers (P := fun r => r.values.length = s.registers.values.length) ?_
      maxSteps rfl
    intro t _ i _ r x same
    rwa [Registers.length_set]
  · intro i unassigned
    refine run_keeps_registers (P := fun r => r.get (some i) = s.registers.get (some i)) ?_
      maxSteps rfl
    intro t member j assigns r x same
    have different : i ≠ j := by
      rintro rfl
      exact unassigned t member assigns
    rwa [Registers.get_set_of_ne different]
  · intro m indent settled t args none_assigned
    obtain same | ⟨i, x, assigns, -⟩ := Machine.registers_perform setup indent settled t args m
    · exact same
    · exact absurd assigns (none_assigned i)

/-- The first register is assigned what a failing function gives. The second one is the target of an
assignment that the language does not know, which calls a function that does not exist. -/
theorem Session.run_unassigned_unknown :
    let rows : List (List Term) :=
      [[{ kind := .assignment, name := some "assign", argCount := 1, index := some 0 },
          { kind := .function, name := some "fail", argCount := 1 },
          { kind := .register, index := some 1 }],
        [{ kind := .assignment, name := some "swap", index := some 1 },
          { kind := .assignment, name := some "assignInc" }]]
    let functions : Table String (Host.Binding Unit) :=
    [("fail", .routine fun _ host => (.error (.ordinary "boom"), host))]
    let setup : Setup Unit := { lines := Program.ofTerms rows, bridge := { functions } }
    let s : Session Unit := { registers := ⟨[3.0, 7.0]⟩, host := () }
    let swap : Term := { kind := .assignment, name := some "swap", index := some 1 }
    (∀ t ∈ Program.terms setup.lines, ¬ t.Assigns 1) ∧
      (s.run setup 10).2.registers.get (some 1) = 7.0 ∧
      (s.run setup 10).2.registers.get (some 0) = 0.0 ∧
      (∀ i, ¬ swap.Assigns i) ∧
      ((Machine.perform setup (some 0) false swap []).run (s.start setup)).2.registers =
        s.registers := by
  intro rows functions setup s swap
  have unassigned : ∀ t ∈ Program.terms setup.lines, ¬ t.Assigns 1 := by
    have written : ∀ row ∈ rows, ∀ t ∈ row, ¬ t.Assigns 1 := by decide
    intro t member
    rcases Program.mem_terms_ofTerms member with rfl | ⟨row, inside, part⟩
    · decide
    · exact written row inside t part
  have unknown : ∀ i, ¬ swap.Assigns i := by
    rintro i ⟨-, -, known⟩
    exact absurd known (by decide)
  have holds := s.run_unassigned setup 10
  refine ⟨unassigned, holds.2.1 1 unassigned, ?_, unknown,
    holds.2.2 (s.start setup) (some 0) false swap [] unknown⟩
  decide +kernel

/-- Sessions on one host, with register files that agree below `n`. -/
structure Session.AgreeBelow (n : Nat) (a b : Session σ) : Prop where
  registers : Registers.Agree n a.registers b.registers
  host : b.host = a.host

namespace Machine

variable {n : Nat} {setup : Setup σ} {u : Term} {s t : Machine σ}

/-- Machines at the same place of a run whose register files agree below `n`. -/
abbrev AgreeBelow (n : Nat) : Machine σ → Machine σ → Prop := Matched id (Session.AgreeBelow n)

theorem askHost_agree (use : σ → Except Fault Host.Reply × σ) (agree : AgreeBelow n s t) :
    Alike (AgreeBelow n) (fun _ => True) ((askHost use).run s) ((askHost use).run t) := by
  rw [askHost_run, askHost_run, agree.session.host]
  rcases use s.host with ⟨f | reply, host⟩
  · exact ⟨rfl, { agree with session := ⟨agree.session.registers, rfl⟩ }, fun _ _ => trivial⟩
  · exact ⟨rfl, { agree with session := ⟨agree.session.registers, rfl⟩ }, fun _ _ => trivial⟩

theorem get_agree (below : ∀ i, u.Mentions i → i < n)
    (kind : u.kind ∈ [Kind.register, .negated, .inverted, .assignment]) (agree : AgreeBelow n s t) :
    t.registers.get u.index = s.registers.get u.index := by
  cases index : u.index with
  | none => rfl
  | some i => exact agree.session.registers.get (below i ⟨kind, index⟩)

theorem operandValue_agree (below : ∀ i, u.Mentions i → i < n) (agree : AgreeBelow n s t) :
    Alike (AgreeBelow n) (fun _ => True) ((operandValue setup u).run s)
      ((operandValue setup u).run t) := by
  rw [operandValue_run, operandValue_run]
  cases kind : u.kind with
  | register | negated | inverted =>
    rw [get_agree below (by simp [kind]) agree]
    exact ⟨rfl, agree, fun _ _ => trivial⟩
  | property => exact askHost_agree _ agree
  | _ => exact ⟨rfl, agree, fun _ _ => trivial⟩

theorem assign_agree (a : Assignment) {index : Int} (below : index < n) (args : List Float)
    (agree : AgreeBelow n s t) :
    Alike (AgreeBelow n) (fun _ => True) ((assign a index args).run s)
      ((assign a index args).run t) := by
  rw [assign_run, assign_run, agree.session.registers.get below]
  cases a.eval (s.registers.get (some index)) (args ++ [0.0]) with
  | error f => exact ⟨rfl, agree, fun _ _ => trivial⟩
  | ok x =>
    have written := agree.session.registers.set below x
    exact ⟨rfl, { agree with session := ⟨written, agree.session.host⟩ }, fun _ _ => trivial⟩

theorem callByName_agree (name : String) (args : List Float) (agree : AgreeBelow n s t) :
    Alike (AgreeBelow n) (fun _ => True) ((callByName setup name args).run s)
      ((callByName setup name args).run t) := by
  unfold callByName
  split
  · cases Operator.invoke name args with
    | ok x => exact ⟨rfl, agree, fun _ _ => trivial⟩
    | error f => exact ⟨rfl, agree, fun _ _ => trivial⟩
  · exact askHost_agree _ agree

theorem perform_agree (indent : Option Nat) (settled : Bool) (below : ∀ i, u.Mentions i → i < n)
    (args : List Float) (agree : AgreeBelow n s t) :
    Alike (AgreeBelow n) (fun _ => True) ((perform setup indent settled u args).run s)
      ((perform setup indent settled u args).run t) := by
  unfold perform
  split
  · exact performFlow_paired Renumbering.identity rfl indent settled _ args agree
  next kind =>
    split
    next i a index _ => exact assign_agree a (below i ⟨by simp [kind], index⟩) args agree
    next => exact callByName_agree _ args agree
  · exact callByName_agree _ args agree

theorem execute_agree {line : Line} (settled : Bool)
    (below : ∀ u ∈ Expr.termsOf line.calls, ∀ i, u.Mentions i → i < n) (agree : AgreeBelow n s t) :
    Alike (AgreeBelow n) (fun _ => True) ((execute setup line settled).run s)
      ((execute setup line settled).run t) := by
  apply (pairing (AgreeBelow n)).evalAll_related (V := fun _ => True)
  · intro u part s t agree
    exact operandValue_agree (below u part) agree
  · intro u part args _ s t agree
    exact perform_agree line.indent settled (below u (Expr.mem_termsOf_of_headsOf part)) args agree
  · exact agree

/-- A program can be run side by side with itself on register files that agree where it mentions
registers. -/
theorem paired_agree (below : ∀ t ∈ Program.terms setup.lines, ∀ i, t.Mentions i → i < n) :
    Paired id (Session.AgreeBelow n) setup setup := by
  have logged (i : Option Nat) (rule : Rule) (s : Machine σ) :
      (log setup i rule s).registers = s.registers ∧ (log setup i rule s).host = s.host :=
    log_keeps (P := fun registers host => registers = s.registers ∧ host = s.host) ⟨rfl, rfl⟩
  constructor
  · exact List.map_congr_left fun _ _ => rfl
  · intro pc first second here there settled s t agree
    obtain rfl : first = second := Option.some.inj (here.symm.trans there)
    exact execute_agree settled
      (fun u part => below u (Program.mem_terms (List.mem_of_getElem? here) part)) agree
  · intro s t agree i j rule _
    obtain ⟨left, hostLeft⟩ := logged i rule s
    obtain ⟨right, hostRight⟩ := logged j rule t
    refine ⟨?_, ?_⟩
    · rw [left, right]
      exact agree.session.registers
    · rw [hostLeft, hostRight]
      exact agree.session.host
  · intro s t agree notice
    exact ⟨agree.session.registers, agree.session.host⟩

end Machine

theorem Session.run_agree (setup : Setup σ) {n : Nat}
    (below : ∀ t ∈ Program.terms setup.lines, ∀ i, t.Mentions i → i < n) (maxSteps : Int)
    {a b : Session σ} (agree : Session.AgreeBelow n a b) :
    Alike (Session.AgreeBelow n) (fun _ => True) (a.run setup maxSteps) (b.run setup maxSteps) := by
  refine Session.run_paired Renumbering.identity (Machine.paired_agree below) maxSteps agree ?_
  unfold Session.start
  split <;> exact ⟨agree.registers, agree.host⟩

/-- A program that mentions only the first `n` registers does the same on all register files that
agree there: it gives the same result, it calls the same functions of the host with the same
arguments and leaves the host in the same state, and the files agree there again. -/
theorem Session.run_below (setup : Setup σ) (n : Nat)
    (below : ∀ t ∈ Program.terms setup.lines, ∀ i, t.Mentions i → i < n) (maxSteps : Int)
    (a b : Session σ) (agree : Registers.Agree n a.registers b.registers) (host : b.host = a.host) :
    (b.run setup maxSteps).1 = (a.run setup maxSteps).1 ∧
    b.hostCalls setup maxSteps = a.hostCalls setup maxSteps ∧
    (b.run setup maxSteps).2.host = (a.run setup maxSteps).2.host ∧
    Registers.Agree n (a.run setup maxSteps).2.registers (b.run setup maxSteps).2.registers := by
  obtain ⟨outcome, ⟨registers, same⟩, -⟩ := run_agree setup below maxSteps ⟨agree, host⟩
  have shared : Session.AgreeBelow n a.recorded b.recorded := ⟨agree, congrArg (·, []) host⟩
  have recorded := run_agree setup.recorded below maxSteps shared
  exact ⟨outcome, congrArg (fun kept => kept.2.reverse) recorded.states.host, same, registers⟩

/-- A loop over the first register, on a file of one register and on a file of three. -/
theorem Session.run_below_wider :
    let rows : List (List Term) :=
      [[{ kind := .flow, name := some "while", argCount := 1 },
        { kind := .register, index := some 0 }],
        [{ kind := .indent }, { kind := .assignment, name := some "assignDec", index := some 0 },
          { kind := .function, name := some "f", argCount := 1 },
          { kind := .inverted, index := some 0 }]]
    let functions : Table String (Host.Binding Nat) :=
      [("f", .routine fun args count => (.ok (.float (args.headD 0.0)), count + 1))]
    let setup : Setup Nat := { lines := Program.ofTerms rows, bridge := { functions } }
    let a : Session Nat := { registers := ⟨[2.0]⟩, host := 0 }
    let b : Session Nat := { registers := ⟨[2.0, 5.0, 6.0]⟩, host := 0 }
    (∀ t ∈ Program.terms setup.lines, ∀ i, t.Mentions i → i < (1 : Nat)) ∧
      Registers.Agree 1 a.registers b.registers ∧ b.hostCalls setup 20 = a.hostCalls setup 20 ∧
      Registers.Agree 1 (a.run setup 20).2.registers (b.run setup 20).2.registers ∧
      (a.run setup 20).1.toOption = some ⟨5, false⟩ ∧ (b.run setup 20).2.host = 2 := by
  intro rows functions setup a b
  have below : ∀ t ∈ Program.terms setup.lines, ∀ i, t.Mentions i → i < (1 : Nat) := by
    have written : ∀ row ∈ rows, ∀ t ∈ row, t.index = none ∨ t.index = some 0 := by decide
    rintro t member i ⟨-, index⟩
    rcases Program.mem_terms_ofTerms member with rfl | ⟨row, inside, part⟩
    · cases index
    · rcases written row inside t part with unnamed | first
      · cases unnamed.symm.trans index
      · cases first.symm.trans index
        decide
  have agree : Registers.Agree 1 a.registers b.registers := ⟨by decide, by decide, rfl⟩
  obtain ⟨-, calls, host, after⟩ := run_below setup 1 below 20 a b agree rfl
  refine ⟨below, agree, calls, after, ?_, host.trans ?_⟩
  · decide +kernel
  · decide +kernel

end Termwise
