import Termwise.Proofs.Evaluation
import Termwise.Proofs.RoundTrip

/-! The trees of a line. Listed term by term they give the operands and calls of the line in order,
and behind them the zeros that stand in for missing arguments, no more than are needed. Only one
forest is listed so, since the terms say how many arguments every call has. -/
namespace Termwise

namespace Expr

/-- Operands are leaves, and every call has the arguments that its term asks for, none if it asks
for less. -/
inductive Saturated : Expr → Prop where
  | operand {t : Term} (kind : t.kind.isOperand = true) : Saturated (.operand t)
  | call {t : Term} {args : List Expr} (kind : t.kind.isCall = true)
      (count : args.length = t.argCount.toNat)
      (inside : ∀ e ∈ args, Saturated e) : Saturated (.call t args)

/-- The trees are a reading of the terms: every call in them has its arguments, and the terms are
their listing, each call in front of its arguments. -/
structure Reading (trees : List Expr) (terms : List Term) : Prop where
  saturated : ∀ e ∈ trees, e.Saturated
  listing : termsOf trees = terms

variable {trees : List Expr} {terms : List Term}

@[simp] theorem termsOf_append (first second : List Expr) :
    termsOf (first ++ second) = termsOf first ++ termsOf second := by
  induction first with
  | nil => rfl
  | cons e rest ih => simp [termsOf, ih]

@[simp] theorem termsOf_zeros (count : Nat) :
    termsOf (List.replicate count (.operand Term.zero)) = List.replicate count Term.zero := by
  induction count with
  | zero => rfl
  | succ count ih => simp [List.replicate_succ, termsOf, Expr.terms, ih]

theorem push_operand {t : Term} (kind : t.kind.isOperand = true) (trees : List Expr) :
    push t trees = .operand t :: trees := if_pos kind

theorem isOperand_eq_false {kind : Kind} (call : kind.isCall = true) : kind.isOperand = false := by
  cases kind with
  | function | assignment | flow => rfl
  | _ => cases call

theorem push_call {t : Term} (kind : t.kind.isCall = true) (trees : List Expr) :
    push t trees = .call t (takeArgs t.argCount.toNat trees) :: trees.drop t.argCount.toNat := by
  rw [push, isOperand_eq_false kind, if_neg Bool.false_ne_true, if_pos kind]

section Uniqueness

-- The reader takes a listing apart again, whatever follows it: each call finds its own arguments
-- next to it.
mutual

theorem forest_terms_append {e : Expr} (saturated : e.Saturated) (rest : List Term) :
    forest (e.terms ++ rest) = e :: forest rest := by
  cases e with
  | operand t =>
    cases saturated with
    | operand kind => exact push_operand kind _
  | call t args =>
    cases saturated with
    | call kind count inside =>
      have below := forest_termsOf_append inside rest
      show push t (forest (termsOf args ++ rest)) = _
      rw [below, push_call kind, ← count, List.drop_left]
      simp [takeArgs]

theorem forest_termsOf_append {es : List Expr} (saturated : ∀ e ∈ es, e.Saturated)
    (rest : List Term) : forest (termsOf es ++ rest) = es ++ forest rest := by
  cases es with
  | nil => rfl
  | cons e es =>
    rw [List.forall_mem_cons] at saturated
    rw [termsOf, List.append_assoc, forest_terms_append saturated.1,
      forest_termsOf_append saturated.2]
    rfl

end

theorem Reading.eq_forest (reading : Reading trees terms) : trees = forest terms := by
  have read := forest_termsOf_append reading.saturated []
  rw [List.append_nil, reading.listing] at read
  rw [read]
  exact (List.append_nil _).symm

end Uniqueness

section Existence

theorem saturated_zero : (operand Term.zero).Saturated := .operand rfl

theorem takeArgs_saturated (saturated : ∀ e ∈ trees, e.Saturated) (count : Nat) :
    ∀ e ∈ takeArgs count trees, e.Saturated := by
  intro e member
  rcases List.mem_append.mp member with taken | filled
  · exact saturated e (List.mem_of_mem_take taken)
  · rw [List.eq_of_mem_replicate filled]
    exact saturated_zero

theorem length_takeArgs (count : Nat) (trees : List Expr) :
    (takeArgs count trees).length = count := by
  simp only [takeArgs, List.length_append, List.length_take, List.length_replicate]
  omega

theorem push_saturated (saturated : ∀ e ∈ trees, e.Saturated) (t : Term) :
    ∀ e ∈ push t trees, e.Saturated := by
  unfold push
  split
  next kind => exact List.forall_mem_cons.mpr ⟨.operand kind, saturated⟩
  next =>
    split
    next kind =>
      have filled := Saturated.call kind (length_takeArgs _ trees) (takeArgs_saturated saturated _)
      exact List.forall_mem_cons.mpr
        ⟨filled, fun e member => saturated e (List.mem_of_mem_drop member)⟩
    next => exact saturated

theorem forest_saturated (terms : List Term) : ∀ e ∈ forest terms, e.Saturated := by
  induction terms with
  | nil => exact nofun
  | cons t rest ih => exact push_saturated ih t

/-- A call that takes its arguments leaves the listing as it is, up to zeros at the very end. -/
theorem termsOf_takeArgs (count : Nat) (trees : List Expr) :
    termsOf (takeArgs count trees) ++ termsOf (trees.drop count) =
      termsOf trees ++ List.replicate (count - trees.length) Term.zero := by
  rcases Nat.le_total count trees.length with enough | short
  · rw [takeArgs, Nat.sub_eq_zero_of_le enough]
    simp only [List.replicate_zero, List.append_nil]
    rw [← termsOf_append, List.take_append_drop]
  · rw [takeArgs, List.take_of_length_le short, List.drop_eq_nil_of_le short]
    simp [termsOf]

/-- The listing of a line is its operands and calls with `count` zeros behind them, and the last
tree is a call when there are such zeros. -/
structure Padded (terms : List Term) (count : Nat) : Prop where
  listing : termsOf (forest terms) = terms.filter Term.isSolid ++ List.replicate count Term.zero
  last : 0 < count → ∃ e, (forest terms).getLast? = some e ∧ e.isCall = true

theorem Padded.skip {t : Term} {count : Nat} (padded : Padded terms count)
    (empty : t.isSolid = false) : Padded (t :: terms) count := by
  have same : forest (t :: terms) = forest terms := push_of_not_isSolid empty _
  have kept : (t :: terms).filter Term.isSolid = terms.filter Term.isSolid :=
    List.filter_cons_of_neg (by simp [empty])
  exact ⟨by rw [same, kept, padded.listing], by rw [same]; exact padded.last⟩

theorem Padded.operand {t : Term} {count : Nat} (padded : Padded terms count)
    (kind : t.kind.isOperand = true) : Padded (t :: terms) count := by
  have front : forest (t :: terms) = .operand t :: forest terms := push_operand kind _
  have solid : t.isSolid = true := by rw [Term.isSolid, kind, Bool.true_or]
  constructor
  · rw [front, List.filter_cons_of_pos solid, termsOf, padded.listing]
    rfl
  · intro short
    obtain ⟨e, last, call⟩ := padded.last short
    exact ⟨e, by rw [front, List.getLast?_cons, last, Option.getD_some], call⟩

theorem Padded.call {t : Term} {count : Nat} (padded : Padded terms count)
    (kind : t.kind.isCall = true) :
    Padded (t :: terms) (count + (t.argCount.toNat - (forest terms).length)) := by
  have front : forest (t :: terms) = _ := push_call kind (forest terms)
  have solid : t.isSolid = true := by rw [Term.isSolid, kind, Bool.or_true]
  constructor
  · rw [front, List.filter_cons_of_pos solid, List.replicate_add, List.cons_append,
      ← List.append_assoc, ← padded.listing, ← termsOf_takeArgs]
    rfl
  · intro short
    rw [front, List.getLast?_cons, List.getLast?_drop]
    -- A call that takes all trees is the last one itself; any other lacks no argument.
    split
    next all => exact ⟨_, rfl, rfl⟩
    next some =>
      obtain ⟨e, last, call⟩ := padded.last (by omega)
      exact ⟨e, by rw [last, Option.getD_some], call⟩

theorem exists_padded (terms : List Term) : ∃ count, Padded terms count := by
  induction terms with
  | nil => exact ⟨0, rfl, nofun⟩
  | cons t rest ih =>
    obtain ⟨count, padded⟩ := ih
    by_cases operand : t.kind.isOperand = true
    · exact ⟨_, padded.operand operand⟩
    · by_cases call : t.kind.isCall = true
      · exact ⟨_, padded.call call⟩
      · exact ⟨_, padded.skip (by simp [Term.isSolid, operand, call])⟩

end Existence

section Padding

variable {count other : Nat}

theorem Padded.reading (padded : Padded terms count) :
    Reading (forest terms) (terms.filter Term.isSolid ++ List.replicate count Term.zero) :=
  ⟨forest_saturated terms, padded.listing⟩

theorem Padded.reading_iff (padded : Padded terms count) :
    Reading trees (terms.filter Term.isSolid ++ List.replicate count Term.zero) ↔
      trees = forest terms := by
  constructor
  · intro reading
    rw [reading.eq_forest, padded.reading.eq_forest]
  · rintro rfl
    exact padded.reading

/-- A reading with fewer zeros would leave a zero as the last tree when the others are added. -/
theorem Padded.le_of_reading (padded : Padded terms count)
    (reading : Reading trees (terms.filter Term.isSolid ++ List.replicate other Term.zero)) :
    count ≤ other := by
  by_contra fewer
  have longer : Reading (trees ++ List.replicate (count - other) (.operand Term.zero))
      (terms.filter Term.isSolid ++ List.replicate count Term.zero) := by
    constructor
    · intro e member
      rcases List.mem_append.mp member with old | new
      · exact reading.saturated e old
      · rw [List.eq_of_mem_replicate new]
        exact saturated_zero
    · rw [termsOf_append, termsOf_zeros, reading.listing, List.append_assoc, ← List.replicate_add,
        Nat.add_sub_cancel' (by omega)]
  obtain ⟨e, last, call⟩ := padded.last (by omega)
  rw [← padded.reading_iff.mp longer, List.getLast?_append, List.getLast?_replicate,
    if_neg (by omega)] at last
  obtain rfl := Option.some.inj last
  cases call

theorem head?_terms (e : Expr) : e.terms.head? = some e.head := by
  cases e <;> rfl

/-- The zeros are all in the last tree, behind terms of the line. -/
theorem Padded.exists_last (padded : Padded terms count) (short : 0 < count) :
    ∃ before last own, forest terms = before ++ [last] ∧ own ≠ [] ∧
      terms.filter Term.isSolid = termsOf before ++ own ∧
        last.terms = own ++ List.replicate count Term.zero := by
  obtain ⟨last, ends, call⟩ := padded.last short
  obtain ⟨before, trees⟩ := List.getLast?_eq_some_iff.mp ends
  have kind : last.head.kind.isCall = true := by
    have saturated := forest_saturated terms last (List.mem_of_getLast? ends)
    cases saturated with
    | operand _ => cases call
    | call kind _ _ => exact kind
  have first := head?_terms last
  have listing := padded.listing
  rw [trees, termsOf_append] at listing
  simp only [termsOf, List.append_nil] at listing
  -- The last tree starts with a call, so it does not start among the zeros.
  rcases List.append_eq_append_iff.mp listing with ⟨own, kept, zeros⟩ | ⟨own, kept, zeros⟩
  · refine ⟨before, last, own, trees, ?_, kept, zeros⟩
    rintro rfl
    rw [zeros, List.nil_append, List.head?_replicate, if_neg (by omega)] at first
    rw [← Option.some.inj first] at kind
    cases kind
  · have member : last.head ∈ List.replicate count Term.zero := by
      rw [zeros]
      exact List.mem_append_right _ (List.mem_of_mem_head? first)
    rw [List.eq_of_mem_replicate member] at kind
    cases kind

theorem Saturated.isCall_eq {e : Expr} (saturated : e.Saturated) :
    e.isCall = e.head.kind.isCall := by
  cases saturated with
  | @operand t kind =>
    show false = t.kind.isCall
    cases call : t.kind.isCall with
    | false => rfl
    | true => exact absurd (isOperand_eq_false call) (by simp [kind])
  | call kind _ _ => exact kind.symm

end Padding

end Expr

/-- A line is read in one way only. There is a least number of zeros with which its operands and
calls have a reading; with that many zeros the trees of the line are the one reading, and a run
executes the calls among them in order. The zeros are at the very end of the last tree, behind terms
of the line. -/
theorem Line.unique_reading (terms : List Term) :
    let kept := terms.filter fun t => t.kind.isOperand || t.kind.isCall
    ∃ count,
      (∀ trees, Expr.Reading trees (kept ++ List.replicate count Term.zero) ↔
        trees = (ofTerms terms).roots) ∧
      (∀ other trees, Expr.Reading trees (kept ++ List.replicate other Term.zero) → count ≤ other) ∧
      (ofTerms terms).calls = (ofTerms terms).roots.filter (fun e => e.head.kind.isCall) ∧
      (0 < count → ∃ before last own, (ofTerms terms).roots = before ++ [last] ∧ own ≠ [] ∧
        kept = Expr.termsOf before ++ own ∧
        last.terms = own ++ List.replicate count Term.zero) := by
  intro kept
  obtain ⟨count, padded⟩ := Expr.exists_padded terms
  refine ⟨count, fun trees => padded.reading_iff, fun other trees => padded.le_of_reading, ?_,
    padded.exists_last⟩
  exact List.filter_congr fun e member => (Expr.forest_saturated terms e member).isCall_eq

end Termwise
