import Termwise.Proofs.Classification
import Termwise.Proofs.Numerals
import Termwise.Proofs.Tokenization

/-! The spelling of terms. The text of a term that was read is a token again, and it reads as the
same term, up to the sign of a zero, without drawing a digit. -/
namespace Termwise

namespace Term

variable {token : List Char} {t : Term}

/-- The tokens that some rule knows as a whole. -/
def fixedWords : List String :=
  ["", indentToken, returnToken] ++ propertyNames ++ Operator.all.map Operator.symbol ++
    Flow.all.map Flow.word

theorem classify_of_not_fixed {token : String} (other : token ∉ fixedWords) :
    classify token = (registerRule token.toList).or
      ((assignmentRule token.toList).or (callRule token.toList)) := by
  simp only [fixedWords, List.mem_append, List.mem_cons, List.not_mem_nil, or_false, not_or,
    List.mem_map, not_exists, not_and] at other
  obtain ⟨⟨⟨⟨empty, indent, lineEnd⟩, property⟩, operator⟩, flow⟩ := other
  have noOperator : operatorRule token = none := by
    rw [operatorRule, Option.map_eq_none_iff, Operator.ofSymbol?, List.find?_eq_none]
    intro op among
    simpa using operator op among
  have noFlow : flowRule token = none := by
    rw [flowRule, Option.map_eq_none_iff, Flow.ofWord?, List.find?_eq_none]
    intro f among
    simpa using flow f among
  rw [classify, if_neg empty, if_neg indent, if_neg lineEnd, propertyRule, if_neg property,
    noOperator, noFlow]
  simp [Option.orElse_eq_or]

theorem not_fixed_of_endsInDigit {token : String} (ends : Text.EndsInDigit token.toList) :
    token ∉ fixedWords := by
  have words : ∀ word ∈ fixedWords, word.toList.getLast?.any Text.isDigit = false := by decide
  intro member
  obtain ⟨init, d, chars, digit⟩ := ends
  have last := words token member
  simp [chars, digit] at last

theorem registerRule_lead {lead : String} {kind : Kind} (among : (lead, kind) ∈ registerLeads)
    {cs : List Char} {n : Nat} (index : Text.Numeral cs n) :
    registerRule (lead.toList ++ cs) = some (ofRegister kind n) := by
  have digits := Text.natural?_eq_some_iff.mpr index
  simp only [registerLeads, List.mem_cons, Prod.mk.injEq, List.not_mem_nil, or_false] at among
  rcases among with ⟨rfl, rfl⟩ | ⟨rfl, rfl⟩ | ⟨rfl, rfl⟩
  all_goals simp [registerRule, registerLeads, indexed?, Text.after?, digits]

theorem rules_assignment (a : Assignment) {cs : List Char} {n : Nat} (index : Text.Numeral cs n) :
    registerRule (a.lead.toList ++ cs) = none ∧
      assignmentRule (a.lead.toList ++ cs) = some (ofAssignment a n) := by
  have digits := Text.natural?_eq_some_iff.mpr index
  cases a <;>
    simp [registerRule, registerLeads, assignmentRule, Assignment.all, Assignment.lead, indexed?,
      Text.after?, digits]

theorem rules_of_leadless (leadless : ∀ lead ∈ leads, ¬lead.toList <+: token) :
    registerRule token = none ∧ assignmentRule token = none := by
  constructor
  · refine List.findSome?_eq_none_iff.mpr fun entry among => indexed?_eq_none_iff.mpr ?_
    exact leadless entry.1 (List.mem_append_left _ (List.mem_map_of_mem among))
  · refine List.findSome?_eq_none_iff.mpr fun a among => indexed?_eq_none_iff.mpr ?_
    exact leadless a.lead (List.mem_append_right _ (List.mem_map_of_mem among))

theorem Callable.leadless_append {name : List Char} (callable : Callable name) (rest : List Char) :
    ∀ lead ∈ leads, ¬lead.toList <+: name ++ '/' :: rest := by
  have unslashed : ∀ lead ∈ leads, '/' ∉ lead.toList.drop 1 := by decide
  intro lead member start
  rcases List.prefix_or_prefix_of_prefix start (List.prefix_append name _)
    with inside | ⟨more, longer⟩
  · exact callable.leadless lead member inside
  · rw [← longer, List.prefix_append_right_inj] at start
    cases more with
    | nil =>
      rw [List.append_nil] at longer
      exact callable.leadless lead member (longer ▸ List.prefix_refl _)
    | cons c more =>
      obtain ⟨rfl, -⟩ := List.cons_prefix_cons.mp start
      apply unslashed lead member
      rw [← longer]
      cases name with
      | nil => exact absurd rfl callable.content
      | cons first name => simp

theorem callRule_append {name cs : List Char} (callable : Callable name) {n : Nat}
    (count : Text.Numeral cs n) : callRule (name ++ '/' :: cs) = some (ofCall name n) := by
  have unslashed : '/' ∉ cs := by
    intro member
    exact absurd (count.digits '/' member) (by decide)
  rw [callRule, Text.splitAt_append callable.unslashed, Text.splitAt_of_not_mem unslashed]
  simp only [Text.natural?_eq_some_iff.mpr count]
  cases name with
  | nil => exact absurd rfl callable.content
  | cons c cs => rfl

theorem classify_property {name : String} (among : name ∈ propertyNames) :
    classify name = some (ofProperty name) := by
  have plain : ∀ name ∈ propertyNames, name ≠ "" ∧ name ≠ indentToken ∧ name ≠ returnToken ∧
      (registerRule name.toList).isNone = true := by decide
  obtain ⟨empty, indent, lineEnd, unregistered⟩ := plain name among
  have noRegister : registerRule name.toList = none := Option.isNone_iff_eq_none.mp unregistered
  rw [classify, if_neg empty, if_neg indent, if_neg lineEnd, noRegister, propertyRule, if_pos among]
  rfl

theorem classify_operator (op : Operator) : classify op.symbol = some (ofOperator op) := by
  cases op <;> rfl

theorem classify_flow (f : Flow) : classify f.word = some (ofFlow f) := by
  cases f <;> rfl

theorem classify_numeric {token : String} (numeric : Number.Numeric token.toList) :
    classify token = none := by
  have leadless : ∀ lead ∈ leads, ¬lead.toList <+: token.toList := by
    have marked : ∀ lead ∈ leads, 'V' ∈ lead.toList := by decide
    intro lead member start
    exact absurd (numeric.chars 'V' (start.subset (marked lead member))) (by decide)
  have unslashed : '/' ∉ token.toList := fun member => absurd (numeric.chars '/' member) (by decide)
  obtain ⟨noRegister, noAssignment⟩ := rules_of_leadless leadless
  have noCall : callRule token.toList = none := by
    rw [callRule, Text.splitAt_of_not_mem unslashed]
  rw [classify_of_not_fixed (not_fixed_of_endsInDigit numeric.ends), noRegister,
    noAssignment, noCall]
  rfl

theorem fill_of_not_mem {cs : List Char} (absent : wildcard ∉ cs) (digits : List Nat) :
    fill cs digits = cs := by
  induction cs with
  | nil => rfl
  | cons c cs ih =>
    rw [List.mem_cons, not_or] at absent
    rw [fill.eq_def]
    simp only [if_neg (Ne.symm absent.1), ih absent.2]

/-- The text of a number reads as that number and draws no digit. -/
theorem parse_numeral {x : Float} (finite : x.isFinite = true)
    (unsigned : x = 0.0 ∨ (x == 0.0) = false) (chance : Chance) :
    parse (Number.text x) chance = (ofNumber x, chance) := by
  obtain ⟨numeric, read⟩ := Number.ofString?_text finite unsigned
  have plain : wildcard ∉ (Number.text x).toList :=
    fun member => absurd (numeric.chars wildcard member) (by decide)
  have value : numeral (Number.text x) = ofNumber x := by
    unfold numeral
    split
    next word =>
      rw [word] at numeric
      exact absurd (numeric.chars 't' (by decide)) (by decide)
    next word =>
      rw [word] at numeric
      exact absurd (numeric.chars 'f' (by decide)) (by decide)
    next => simp [read, finite]
  have nothing : Chance.takeDigits (wildcards (Number.text x)) chance = ([], chance) := by
    rw [wildcards, List.count_eq_zero_of_not_mem plain]
    rfl
  rw [parse, classify_numeric numeric]
  show (numeral (String.ofList (fill (Number.text x).toList (Chance.takeDigits _ chance).1)),
    (Chance.takeDigits _ chance).2) = _
  rw [nothing, fill_of_not_mem plain, String.ofList_toList, value]

/-- The term that the text of a term stands for: a zero loses its sign. -/
def spelled (t : Term) : Term := if t.kind = .number then ofNumber t.literal else t

/-- A call under the name of an operator has as many arguments as the operator. -/
def ProperArity (t : Term) : Prop :=
  ∀ op ∈ Operator.all, t.kind = .function → t.name = some op.name → t.argCount = op.arity

instance (t : Term) : Decidable t.ProperArity :=
  inferInstanceAs (Decidable (∀ op ∈ Operator.all, _))

theorem spelled_kind (t : Term) : t.spelled.kind = t.kind := by
  unfold spelled
  split
  next number => exact number.symm
  next => rfl

/-- The literal of a number is finite, has no sign when it is zero, and equals the number. -/
theorem literal_ofNumber {x : Float} (finite : x.isFinite = true) :
    (ofNumber x).literal.isFinite = true ∧
      ((ofNumber x).literal = 0.0 ∨ ((ofNumber x).literal == 0.0) = false) ∧
      (x == (ofNumber x).literal) = true := by
  show (if x == 0.0 then (0.0 : Float) else x).isFinite = true ∧ _
  by_cases zero : (x == 0.0) = true
  · rw [show (ofNumber x).literal = 0.0 from if_pos zero, if_pos zero]
    exact ⟨by decide, .inl rfl, zero⟩
  · rw [show (ofNumber x).literal = x from if_neg zero, if_neg zero]
    exact ⟨finite, .inr (by simpa using zero), Number.beq_self finite⟩

theorem indexText_natCast {t : Term} {n : Nat} (index : t.index = some (n : Int)) :
    t.indexText.toList = Nat.toDigits 10 n := by
  simp [indexText, index, Int.repr_eq_if, Nat.repr]

theorem name_of_ofName? {name : String} {op : Operator} (found : Operator.ofName? name = some op) :
    name = op.name := by
  have named := List.find?_some found
  simp only [decide_eq_true_eq] at named
  exact named.symm

theorem text_register {lead : String} {kind : Kind} (among : (lead, kind) ∈ registerLeads)
    (n : Nat) : (ofRegister kind n).text.toList = lead.toList ++ Nat.toDigits 10 n := by
  have digits := indexText_natCast (t := ofRegister kind n) rfl
  simp only [registerLeads, List.mem_cons, Prod.mk.injEq, List.not_mem_nil, or_false] at among
  rcases among with ⟨rfl, rfl⟩ | ⟨rfl, rfl⟩ | ⟨rfl, rfl⟩
  all_goals simp [text, digits]

theorem text_assignment (a : Assignment) (n : Nat) :
    (ofAssignment a n).text.toList = a.lead.toList ++ Nat.toDigits 10 n := by
  have lead : (ofAssignment a n).assignmentLead = a.lead := by
    cases a <;> rfl
  rw [text, lead, String.toList_append, indexText_natCast rfl]

theorem text_operator (op : Operator) : (ofOperator op).text = op.symbol := by
  cases op <;> rfl

theorem text_call {name : List Char} (n : Nat)
    (other : Operator.ofName? (String.ofList name) = none) :
    (ofCall name n).text.toList = name ++ '/' :: Nat.toDigits 10 n := by
  simp [text, nameText, other, Int.repr_eq_if, Nat.repr]

theorem classify_register {lead : String} {kind : Kind} (among : (lead, kind) ∈ registerLeads)
    {token : String} {n : Nat} (indexed : Indexed lead n token) :
    classify token = some (ofRegister kind n) := by
  obtain ⟨digits, chars, index⟩ := indexed
  have ends := index.endsInDigit.append lead.toList
  rw [← chars] at ends
  rw [classify_of_not_fixed (not_fixed_of_endsInDigit ends), chars, registerRule_lead among index]
  rfl

theorem classify_assignment {a : Assignment} {token : String} {n : Nat}
    (indexed : Indexed a.lead n token) : classify token = some (ofAssignment a n) := by
  obtain ⟨digits, chars, index⟩ := indexed
  have ends := index.endsInDigit.append a.lead.toList
  obtain ⟨noRegister, assignment⟩ := rules_assignment a index
  rw [← chars] at ends
  rw [classify_of_not_fixed (not_fixed_of_endsInDigit ends), chars, noRegister, assignment]
  rfl

theorem classify_call {name : List Char} {token : String} {n : Nat} (called : Called name n token) :
    classify token = some (ofCall name n) := by
  obtain ⟨callable, digits, chars, count⟩ := called
  have ends := count.endsInDigit.append (name ++ ['/'])
  rw [← List.append_cons, ← chars] at ends
  obtain ⟨noRegister, noAssignment⟩ := rules_of_leadless (callable.leadless_append digits)
  rw [classify_of_not_fixed (not_fixed_of_endsInDigit ends), chars, noRegister, noAssignment,
    callRule_append callable count]
  rfl

/-- Operands and calls: the terms that take part in a line. -/
def isSolid (t : Term) : Bool := t.kind.isOperand || t.kind.isCall

/-- The text of a term that was read, if it takes part in its line, is classified as that term. -/
theorem Shape.classify_text (shape : Shape token t) (proper : t.ProperArity)
    (solid : t.isSolid = true) (other : t.kind ≠ .number) : classify t.text = some t := by
  cases shape with
  | nop => cases solid
  | indent => cases solid
  | lineEnd => cases solid
  | register among n =>
    exact classify_register among ⟨_, text_register among n, Text.numeral_toDigits n⟩
  | property among => exact classify_property among
  | operator op => rw [text_operator, classify_operator]
  | assignment a n => exact classify_assignment ⟨_, text_assignment a n, Text.numeral_toDigits n⟩
  | flow f => exact classify_flow f
  | @call name callable part n =>
    cases found : Operator.ofName? (String.ofList name) with
    | none => exact classify_call ⟨callable, _, text_call n found, Text.numeral_toDigits n⟩
    | some op =>
      -- A call under an operator's name is written as the operator.
      have named := name_of_ofName? found
      have arity : (n : Int) = op.arity :=
        proper op (List.mem_of_find?_eq_some found) rfl (congrArg some named)
      have same : ofCall name n = ofOperator op := by rw [ofCall, named, arity]
      rw [same, text_operator, classify_operator]
  | number finite => exact absurd rfl other

theorem Shape.number_cases (shape : Shape token t) (number : t.kind = .number) :
    ∃ x, x.isFinite = true ∧ t = ofNumber x := by
  cases shape with
  | number finite => exact ⟨_, finite, rfl⟩
  | register among n =>
    cases number
    exact absurd among (by simp [registerLeads])
  | _ => cases number

theorem Shape.parse_text (shape : Shape token t) (proper : t.ProperArity) (solid : t.isSolid = true)
    (chance : Chance) : parse t.text chance = (t.spelled, chance) := by
  by_cases number : t.kind = .number
  · obtain ⟨x, finite, rfl⟩ := shape.number_cases number
    obtain ⟨literal, unsigned, -⟩ := literal_ofNumber finite
    exact parse_numeral literal unsigned chance
  · rw [parse, shape.classify_text proper solid number, spelled, if_neg number]
    rfl

/-- Just the operands and the calls have a token of their own. -/
theorem Shape.isSolid_iff (shape : Shape token t) (proper : t.ProperArity) :
    t.isSolid = true ↔ t.kind ≠ .indent ∧ t.text ≠ "" := by
  constructor
  · intro solid
    refine ⟨?_, ?_⟩
    · intro indent
      rw [isSolid, indent] at solid
      cases solid
    · intro empty
      have read := shape.parse_text proper solid default
      rw [empty] at read
      have nothing : t.spelled.kind = .nop := congrArg (fun r => r.1.kind) read.symm
      rw [isSolid, ← spelled_kind, nothing] at solid
      cases solid
  · rintro ⟨indent, written⟩
    cases shape with
    | nop => exact absurd rfl written
    | indent => exact absurd rfl indent
    | lineEnd => exact absurd rfl written
    | register among n =>
      have operands : ∀ entry ∈ registerLeads, entry.2.isOperand = true := by decide
      simp [isSolid, operands _ among]
    | property _ => rfl
    | number _ => rfl
    | operator _ => rfl
    | assignment _ _ => rfl
    | flow _ => rfl
    | call _ _ _ => rfl

/-- The text of a term is made of characters of the token that was read and of the language's
own. -/
theorem Shape.chars_text (shape : Shape token t) (valid : token.all Source.isTokenChar = true)
    (solid : t.isSolid = true) : t.text.toList.all Source.isTokenChar = true := by
  have plain : Number.alphabet.all Source.isTokenChar = true := by decide
  have digits : ∀ n : Nat, (Nat.toDigits 10 n).all Source.isTokenChar = true := by
    intro n
    rw [List.all_eq_true] at plain ⊢
    exact fun c member => plain c
      (Number.mem_alphabet_of_isDigit ((Text.digits_toDigits n).digits c member))
  cases shape with
  | nop => cases solid
  | indent => cases solid
  | lineEnd => cases solid
  | register among n =>
    have leads : ∀ entry ∈ registerLeads, entry.1.toList.all Source.isTokenChar = true := by decide
    rw [text_register among, List.all_append, leads _ among, digits]
    rfl
  | property among =>
    have names : ∀ name ∈ propertyNames, name.toList.all Source.isTokenChar = true := by decide
    exact names _ among
  | operator op =>
    rw [text_operator]
    cases op <;> decide
  | assignment a n =>
    have lead : a.lead.toList.all Source.isTokenChar = true := by cases a <;> decide
    rw [text_assignment, List.all_append, lead, digits]
    rfl
  | flow f => cases f <;> decide
  | @call name callable part n =>
    cases found : Operator.ofName? (String.ofList name) with
    | none =>
      have start : name.all Source.isTokenChar = true := by
        rw [List.all_eq_true] at valid ⊢
        exact fun c member => valid c (part.subset member)
      rw [text_call n found, List.all_append, List.all_cons, start, digits]
      rfl
    | some op =>
      have symbol : (ofCall name n).text = op.symbol := by simp [text, nameText, found]
      rw [symbol]
      cases op <;> decide
  | number finite =>
    obtain ⟨literal, unsigned, -⟩ := literal_ofNumber finite
    have numeric := (Number.ofString?_text literal unsigned).1
    rw [List.all_eq_true] at plain ⊢
    exact fun c member => plain c (numeric.chars c member)

end Term

end Termwise
