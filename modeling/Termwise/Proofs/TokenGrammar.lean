import Termwise.Proofs.Classification
import Termwise.Proofs.Spelling
import Termwise.Proofs.Wildcards

/-! The grammar of tokens. The rules are tried in order and share their first characters, but no
token has two forms, so each form is read as its term whatever rules stand before its own. Together
with what the rules can give, that settles for every kind just which tokens are of that kind, and
that a lead without an index has no effect. -/
namespace Termwise

theorem Operator.mem_all (op : Operator) : op ∈ Operator.all := by cases op <;> decide

theorem Assignment.mem_all (a : Assignment) : a ∈ Assignment.all := by cases a <;> decide

theorem Flow.mem_all (f : Flow) : f ∈ Flow.all := by cases f <;> decide

namespace Term

variable {token lead : String} {t : Term} {n : Nat}

/-- Each form is taken for its term. -/
theorem Form.classify_eq (form : Form token t) : classify token = some t := by
  cases form with
  | indent word =>
    subst word
    rfl
  | lineEnd word =>
    subst word
    rfl
  | register among indexed => exact classify_register among indexed
  | property among => exact classify_property among
  | operator word =>
    subst word
    exact classify_operator _
  | assignment indexed => exact classify_assignment indexed
  | flow word =>
    subst word
    exact classify_flow _
  | call called => exact classify_call called

theorem Form.parse_fst (form : Form token t) (chance : Chance) : (parse token chance).1 = t := by
  rw [parse, form.classify_eq]
  rfl

theorem mem_leads_register {kind : Kind} (among : (lead, kind) ∈ registerLeads) : lead ∈ leads :=
  List.mem_append_left _ (List.mem_map.mpr ⟨_, among, rfl⟩)

theorem mem_leads_assignment (a : Assignment) : a.lead ∈ leads :=
  List.mem_append_right _ (List.mem_map_of_mem a.mem_all)

/-- No lead is the start of another one, so a token starts with one at most. -/
theorem Indexed.eq_lead {other : String} (indexed : Indexed other n token) (known : other ∈ leads)
    (member : lead ∈ leads) (start : lead.toList <+: token.toList) : other = lead := by
  have apart : ∀ a ∈ leads, ∀ b ∈ leads, a.toList <+: b.toList → a = b := by decide
  obtain ⟨digits, chars, -⟩ := indexed
  rcases List.prefix_or_prefix_of_prefix start ⟨digits, chars.symm⟩ with inside | inside
  · exact (apart _ member _ known inside).symm
  · exact apart _ known _ member inside

/-- A form that starts with a lead is that lead with an index. -/
theorem Form.indexed_of_lead (form : Form token t) (member : lead ∈ leads)
    (start : lead.toList <+: token.toList) : ∃ n, Indexed lead n token := by
  have words : ∀ word ∈ fixedWords, ∀ lead ∈ leads, ¬lead.toList <+: word.toList := by decide
  have other : token ∉ fixedWords := fun fixed => words token fixed lead member start
  cases form with
  | indent word => exact absurd (by simp [fixedWords, word]) other
  | lineEnd word => exact absurd (by simp [fixedWords, word]) other
  | property among => exact absurd (by simp [fixedWords, among]) other
  | @operator op word =>
    exact absurd (by simp [fixedWords, word, List.mem_map_of_mem op.mem_all]) other
  | @flow f word => exact absurd (by simp [fixedWords, word, List.mem_map_of_mem f.mem_all]) other
  | register among indexed =>
    obtain rfl := indexed.eq_lead (mem_leads_register among) member start
    exact ⟨_, indexed⟩
  | @assignment a _ indexed =>
    obtain rfl := indexed.eq_lead (mem_leads_assignment a) member start
    exact ⟨_, indexed⟩
  | call called =>
    obtain ⟨callable, digits, chars, -⟩ := called
    rw [chars] at start
    exact absurd start (callable.leadless_append digits lead member)

/-- A lead without an index has no effect. No rule after those of the leads gets to see such a
token. -/
theorem parse_of_lead (member : lead ∈ leads) (start : lead.toList <+: token.toList)
    (bare : ∀ n, ¬Indexed lead n token) (chance : Chance) : (parse token chance).1 = nop := by
  cases classified : classify token with
  | none => exact absurd start ((classify_eq_none_iff.mp classified).leadless lead member)
  | some t =>
    rcases classify_form classified with rfl | form
    · rw [parse, classified]
      rfl
    · obtain ⟨n, indexed⟩ := form.indexed_of_lead member start
      exact absurd indexed (bare n)

theorem Form.indexed_of_register (form : Form token t) (among : (lead, t.kind) ∈ registerLeads) :
    ∃ n, Indexed lead n token := by
  have kinds : ∀ entry ∈ registerLeads, entry.2.isOperand = true ∧ entry.2 ≠ .property := by decide
  have apart : ∀ a ∈ registerLeads, ∀ b ∈ registerLeads, a.2 = b.2 → a.1 = b.1 := by decide
  obtain ⟨operand, ordinary⟩ := kinds _ among
  cases form with
  | register same indexed =>
    obtain rfl := apart _ same _ among rfl
    exact ⟨_, indexed⟩
  | property _ => exact absurd rfl ordinary
  | _ => cases operand

/-- The forms of the terms that call something, kind by kind. -/
theorem Form.call_cases (form : Form token t) (call : t.kind.isCall = true) :
    (t.kind = .assignment ∧ ∃ a n, Indexed (Assignment.lead a) n token) ∨
      (t.kind = .flow ∧ ∃ f, token = Flow.word f) ∨
      t.kind = .function ∧ ((∃ op, token = Operator.symbol op) ∨
        ∃ name n, Called name n token) := by
  cases form with
  | assignment indexed => exact .inl ⟨rfl, _, _, indexed⟩
  | flow word => exact .inr (.inl ⟨rfl, _, word⟩)
  | operator word => exact .inr (.inr ⟨rfl, .inl ⟨_, word⟩⟩)
  | call called => exact .inr (.inr ⟨rfl, .inr ⟨_, _, called⟩⟩)
  | register among _ =>
    have kinds : ∀ entry ∈ registerLeads, entry.2.isCall = false := by decide
    exact absurd call (Bool.eq_false_iff.mp (kinds _ among))
  | _ => cases call

theorem parse_form {chance : Chance} (effect : (parse token chance).1.kind ≠ .nop)
    (other : (parse token chance).1.kind ≠ .number) : Form token (parse token chance).1 := by
  rcases parse_cases token chance with nothing | form | ⟨x, -, number⟩
  · exact absurd (congrArg kind nothing) effect
  · exact form
  · exact absurd (congrArg kind number) other

/-- What kind of term a token is read as, and what the term then carries: nothing but the fields of
its kind. -/
structure WellFormed (token : String) (t : Term) : Prop where
  register_iff : ∀ lead kind, (lead, kind) ∈ registerLeads →
    (t.kind = kind ↔ ∃ n, Indexed lead n token)
  register : ∀ lead kind n, (lead, kind) ∈ registerLeads → Indexed lead n token →
    t = ofRegister kind n
  assignment_iff : t.kind = .assignment ↔ ∃ a n, Indexed (Assignment.lead a) n token
  assignment : ∀ a n, Indexed (Assignment.lead a) n token → t = ofAssignment a n
  flow_iff : t.kind = .flow ↔ ∃ f, token = Flow.word f
  flow : ∀ f, token = Flow.word f → t = ofFlow f
  function_iff : t.kind = .function ↔ (∃ op, token = Operator.symbol op) ∨
    ∃ name n, Called name n token
  operator : ∀ op, token = Operator.symbol op → t = ofOperator op
  call : ∀ name n, Called name n token → t = ofCall name n
  number : t.kind = .number → ∃ x, x.isFinite = true ∧ t = ofNumber x
  /-- A lead alone, or before anything else than an index. -/
  bare : ∀ lead ∈ leads, lead.toList <+: token.toList → (∀ n, ¬Indexed lead n token) → t = Term.nop

/-- Whatever the token and the digits drawn for its wildcards, reading it gives a well-formed
term. -/
theorem parse_wellFormed (token : String) (chance : Chance) :
    WellFormed token (parse token chance).1 where
  register_iff := by
    intro lead kind among
    constructor
    · rintro rfl
      have kinds : ∀ entry ∈ registerLeads, entry.2 ≠ .nop ∧ entry.2 ≠ .number := by decide
      obtain ⟨effect, other⟩ := kinds _ among
      exact (parse_form effect other).indexed_of_register among
    · rintro ⟨n, indexed⟩
      rw [(Form.register among indexed).parse_fst chance]
  register := by
    intro lead kind n among indexed
    exact (Form.register among indexed).parse_fst chance
  assignment_iff := by
    constructor
    · intro kind
      have form : Form token (parse token chance).1 := parse_form (by simp [kind]) (by simp [kind])
      simpa [kind] using form.call_cases (by simp [kind, Kind.isCall])
    · rintro ⟨a, n, indexed⟩
      rw [(Form.assignment indexed).parse_fst chance]
  assignment := by
    intro a n indexed
    exact (Form.assignment indexed).parse_fst chance
  flow_iff := by
    constructor
    · intro kind
      have form : Form token (parse token chance).1 := parse_form (by simp [kind]) (by simp [kind])
      simpa [kind] using form.call_cases (by simp [kind, Kind.isCall])
    · rintro ⟨f, word⟩
      rw [(Form.flow word).parse_fst chance]
  flow := by
    intro f word
    exact (Form.flow word).parse_fst chance
  function_iff := by
    constructor
    · intro kind
      have form : Form token (parse token chance).1 := parse_form (by simp [kind]) (by simp [kind])
      simpa [kind] using form.call_cases (by simp [kind, Kind.isCall])
    · rintro (⟨op, word⟩ | ⟨name, n, called⟩)
      · rw [(Form.operator word).parse_fst chance]
      · rw [(Form.call called).parse_fst chance]
  operator := by
    intro op word
    exact (Form.operator word).parse_fst chance
  call := by
    intro name n called
    exact (Form.call called).parse_fst chance
  number := by
    intro kind
    exact (parse_shape token chance).number_cases kind
  bare := by
    intro lead member start bare
    exact parse_of_lead member start bare chance

-- A digit of another script makes no index.
example : (parse "V٣" default).1.kind = .nop := by decide

end Term

end Termwise
