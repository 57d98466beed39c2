import Termwise.Proofs.Numerals
import Termwise.Term.Parse

/-! What a token can be. A rule that accepts it takes it for nothing or for one of the forms of the
language, whatever the rules before it; with the numbers, whatever digits are drawn, that makes ten
shapes of terms. The name of a call is the start of its token, and no rule takes that start for
anything else. -/
namespace Termwise

namespace Text

variable {start cs rest : List Char}

theorem after?_append (start rest : List Char) : after? start (start ++ rest) = some rest := by
  induction start with
  | nil => rfl
  | cons s start ih => rw [List.cons_append, after?, if_pos rfl, ih]

theorem eq_append_of_after? (found : after? start cs = some rest) : cs = start ++ rest := by
  induction start generalizing cs with
  | nil =>
    cases found
    rfl
  | cons s start ih =>
    cases cs with
    | nil => cases found
    | cons c cs =>
      rw [after?] at found
      split at found
      next same => rw [same, List.cons_append, ← ih found]
      next => cases found

theorem after?_eq_none_iff : after? start cs = none ↔ ¬start <+: cs := by
  constructor
  · rintro missing ⟨rest, rfl⟩
    rw [after?_append] at missing
    cases missing
  · intro absent
    cases found : after? start cs with
    | none => rfl
    | some rest => exact absurd ⟨rest, (eq_append_of_after? found).symm⟩ absent

theorem splitAt_ne_nil (mark : Char) (cs : List Char) : splitAt mark cs ≠ [] := by
  cases cs with
  | nil => simp [splitAt]
  | cons c rest =>
    rw [splitAt]
    split
    · simp
    · split <;> simp

theorem splitAt_eq_singleton {mark : Char} {piece : List Char} (split : splitAt mark cs = [piece]) :
    cs = piece := by
  induction cs generalizing piece with
  | nil =>
    cases split
    rfl
  | cons c rest ih =>
    rw [splitAt] at split
    split at split
    · exact absurd (List.cons.inj split).2 (splitAt_ne_nil mark rest)
    · split at split
      next none => exact absurd none (splitAt_ne_nil mark rest)
      next first more pieces =>
        obtain ⟨rfl, rfl⟩ := List.cons.inj split
        rw [ih pieces]

theorem splitAt_eq_pair {mark : Char} {first second : List Char}
    (split : splitAt mark cs = [first, second]) : cs = first ++ mark :: second ∧ mark ∉ first := by
  induction cs generalizing first with
  | nil => cases split
  | cons c rest ih =>
    rw [splitAt] at split
    split at split
    next same =>
      obtain ⟨rfl, last⟩ := List.cons.inj split
      exact ⟨by rw [same, List.nil_append, splitAt_eq_singleton last], by simp⟩
    next other =>
      split at split
      next none => exact absurd none (splitAt_ne_nil mark rest)
      next piece more pieces =>
        obtain ⟨rfl, rfl⟩ := List.cons.inj split
        obtain ⟨rfl, absent⟩ := ih pieces
        refine ⟨rfl, ?_⟩
        rw [List.mem_cons, not_or]
        exact ⟨Ne.symm other, absent⟩

end Text

namespace Term

abbrev ofRegister (kind : Kind) (n : Nat) : Term := { kind := kind, index := some n }

abbrev ofProperty (name : String) : Term := { kind := .property, name := some name }

abbrev ofOperator (op : Operator) : Term :=
  { kind := .function, name := some op.name, argCount := op.arity }

abbrev ofAssignment (a : Assignment) (n : Nat) : Term :=
  { kind := .assignment, name := some a.name, argCount := a.arity, index := some n }

abbrev ofFlow (f : Flow) : Term := { kind := .flow, name := some f.word, argCount := f.arity }

abbrev ofCall (name : List Char) (n : Nat) : Term :=
  { kind := .function, name := some (String.ofList name), argCount := n }

/-- What stands before the index of a register or an assignment. -/
def leads : List String := registerLeads.map Prod.fst ++ Assignment.all.map Assignment.lead

/-- A name that can be called: no rule takes a token that starts with it for anything else. -/
structure Callable (name : List Char) : Prop where
  content : name ≠ []
  unslashed : '/' ∉ name
  leadless : ∀ lead ∈ leads, ¬lead.toList <+: name

/-- A lead with the decimal index of a register behind it. -/
def Indexed (lead : String) (n : Nat) (token : String) : Prop :=
  ∃ digits, token.toList = lead.toList ++ digits ∧ Text.Numeral digits n

/-- A name that can be called with the decimal count of its arguments behind a slash. -/
def Called (name : List Char) (n : Nat) (token : String) : Prop :=
  Callable name ∧ ∃ digits, token.toList = name ++ '/' :: digits ∧ Text.Numeral digits n

/-- The tokens of the language that are no numbers, with the terms that they stand for. -/
inductive Form (token : String) : Term → Prop where
  | indent (word : token = indentToken) : Form token { kind := .indent }
  | lineEnd (word : token = returnToken) : Form token { kind := .lineEnd }
  | register {lead : String} {kind : Kind} {n : Nat} (among : (lead, kind) ∈ registerLeads)
    (indexed : Indexed lead n token) : Form token (ofRegister kind n)
  | property (among : token ∈ propertyNames) : Form token (ofProperty token)
  | operator {op : Operator} (word : token = op.symbol) : Form token (ofOperator op)
  | assignment {a : Assignment} {n : Nat} (indexed : Indexed a.lead n token) :
      Form token (ofAssignment a n)
  | flow {f : Flow} (word : token = f.word) : Form token (ofFlow f)
  | call {name : List Char} {n : Nat} (called : Called name n token) : Form token (ofCall name n)

/-- The terms that reading a token can give. -/
inductive Shape (token : List Char) : Term → Prop where
  | nop : Shape token nop
  | indent : Shape token { kind := .indent }
  | lineEnd : Shape token { kind := .lineEnd }
  | register {lead : String} {kind : Kind} (among : (lead, kind) ∈ registerLeads) (n : Nat) :
    Shape token (ofRegister kind n)
  | property {name : String} (among : name ∈ propertyNames) : Shape token (ofProperty name)
  | operator (op : Operator) : Shape token (ofOperator op)
  | assignment (a : Assignment) (n : Nat) : Shape token (ofAssignment a n)
  | flow (f : Flow) : Shape token (ofFlow f)
  | call {name : List Char} (callable : Callable name) (part : name <+: token) (n : Nat) :
    Shape token (ofCall name n)
  | number {x : Float} (finite : x.isFinite = true) : Shape token (ofNumber x)

variable {token : String} {t : Term}

theorem Form.shape (form : Form token t) : Shape token.toList t := by
  cases form with
  | indent _ => exact .indent
  | lineEnd _ => exact .lineEnd
  | register among _ => exact .register among _
  | property among => exact .property among
  | operator _ => exact .operator _
  | assignment _ => exact .assignment _ _
  | flow _ => exact .flow _
  | call called =>
    obtain ⟨callable, digits, chars, -⟩ := called
    exact .call callable ⟨_, chars.symm⟩ _

theorem indexed?_cases {lead : String} {make : Nat → Term}
    (found : indexed? token.toList lead make = some t) :
    t = nop ∨ ∃ n, Indexed lead n token ∧ t = make n := by
  obtain ⟨rest, start, rfl⟩ := Option.map_eq_some_iff.mp found
  split
  next n natural =>
    exact .inr ⟨n, ⟨rest, Text.eq_append_of_after? start, Text.natural?_eq_some_iff.mp natural⟩,
      rfl⟩
  next => exact .inl rfl

theorem indexed?_eq_none_iff {token : List Char} {lead : String} {make : Nat → Term} :
    indexed? token lead make = none ↔ ¬lead.toList <+: token := by
  rw [indexed?, Option.map_eq_none_iff, Text.after?_eq_none_iff]

theorem registerRule_form (found : registerRule token.toList = some t) :
    t = nop ∨ Form token t := by
  obtain ⟨⟨lead, kind⟩, among, found⟩ := List.exists_of_findSome?_eq_some found
  rcases indexed?_cases found with nothing | ⟨n, indexed, rfl⟩
  · exact .inl nothing
  · exact .inr (.register among indexed)

theorem propertyRule_form (found : propertyRule token = some t) : Form token t := by
  obtain ⟨among, term⟩ := Option.ite_none_right_eq_some.mp found
  cases term
  exact .property among

theorem operatorRule_form (found : operatorRule token = some t) : Form token t := by
  obtain ⟨op, symbol, rfl⟩ := Option.map_eq_some_iff.mp found
  have word := List.find?_some symbol
  exact .operator (of_decide_eq_true word).symm

theorem assignmentRule_form (found : assignmentRule token.toList = some t) :
    t = nop ∨ Form token t := by
  obtain ⟨a, -, found⟩ := List.exists_of_findSome?_eq_some found
  rcases indexed?_cases found with nothing | ⟨n, indexed, rfl⟩
  · exact .inl nothing
  · exact .inr (.assignment indexed)

theorem flowRule_form (found : flowRule token = some t) : Form token t := by
  obtain ⟨f, keyword, rfl⟩ := Option.map_eq_some_iff.mp found
  have word := List.find?_some keyword
  exact .flow (of_decide_eq_true word).symm

/-- No lead is the start of a token that neither the registers nor the assignments take. -/
theorem leadless_of_rules {token : List Char} (noRegister : registerRule token = none)
    (noAssignment : assignmentRule token = none) : ∀ lead ∈ leads, ¬lead.toList <+: token := by
  intro lead member
  rcases List.mem_append.mp member with register | assignment
  · obtain ⟨entry, among, rfl⟩ := List.mem_map.mp register
    exact indexed?_eq_none_iff.mp (List.findSome?_eq_none_iff.mp noRegister entry among)
  · obtain ⟨a, among, rfl⟩ := List.mem_map.mp assignment
    exact indexed?_eq_none_iff.mp (List.findSome?_eq_none_iff.mp noAssignment a among)

theorem callRule_form (leadless : ∀ lead ∈ leads, ¬lead.toList <+: token.toList)
    (found : callRule token.toList = some t) : t = nop ∨ Form token t := by
  unfold callRule at found
  split at found
  next name count pieces =>
    obtain ⟨chars, unslashed⟩ := Text.splitAt_eq_pair pieces
    split at found
    next c cs n natural =>
      cases found
      refine .inr (.call ⟨⟨by simp, unslashed, ?_⟩, _, chars, Text.natural?_eq_some_iff.mp natural⟩)
      intro lead member start
      exact leadless lead member (start.trans ⟨_, chars.symm⟩)
    next =>
      cases found
      exact .inl rfl
  next => cases found

/-- What the rules take a token for. -/
theorem classify_form (found : classify token = some t) : t = nop ∨ Form token t := by
  unfold classify at found
  split at found
  · cases found
    exact .inl rfl
  split at found
  next word =>
    cases found
    exact .inr (.indent word)
  split at found
  next word =>
    cases found
    exact .inr (.lineEnd word)
  simp only [Option.orElse_eq_orElse, Option.orElse_eq_or, Option.or_eq_some_iff] at found
  rcases found with register |
    ⟨noRegister, property | ⟨-, operator | ⟨-, assignment | ⟨noAssignment, flow | ⟨-, call⟩⟩⟩⟩⟩
  · exact registerRule_form register
  · exact .inr (propertyRule_form property)
  · exact .inr (operatorRule_form operator)
  · exact assignmentRule_form assignment
  · exact .inr (flowRule_form flow)
  · exact callRule_form (leadless_of_rules noRegister noAssignment) call

theorem numeral_cases (digits : String) :
    numeral digits = nop ∨ ∃ x, x.isFinite = true ∧ numeral digits = ofNumber x := by
  unfold numeral
  split
  · exact .inr ⟨_, by decide, rfl⟩
  · exact .inr ⟨_, by decide, rfl⟩
  · split
    · split
      next finite => exact .inr ⟨_, finite, rfl⟩
      next => exact .inl rfl
    · exact .inl rfl

/-- Whatever the digits drawn for its wildcards, a token has no effect, or it has one of the forms,
or it is a number. -/
theorem parse_cases (token : String) (chance : Chance) :
    (parse token chance).1 = nop ∨ Form token (parse token chance).1 ∨
      ∃ x, x.isFinite = true ∧ (parse token chance).1 = ofNumber x := by
  rw [parse]
  cases classified : classify token with
  | some t => exact (classify_form classified).imp_right .inl
  | none => exact (numeral_cases _).imp_right .inr

/-- Whatever the digits drawn for its wildcards, a token reads as a term of one of the shapes. -/
theorem parse_shape (token : String) (chance : Chance) :
    Shape token.toList (parse token chance).1 := by
  rcases parse_cases token chance with nothing | form | ⟨x, finite, number⟩
  · rw [nothing]
    exact .nop
  · exact form.shape
  · rw [number]
    exact .number finite

/-- The kinds that a single token stands for: indentation and the carriage return. -/
def isMark (kind : Kind) : Bool := kind = .indent || kind = .lineEnd

theorem Form.isMark_kind (form : Form token t) (indent : token ≠ indentToken)
    (lineEnd : token ≠ returnToken) : isMark t.kind = false := by
  cases form with
  | indent word => exact absurd word indent
  | lineEnd word => exact absurd word lineEnd
  | register among _ =>
    have kinds : ∀ entry ∈ registerLeads, isMark entry.2 = false := by decide
    exact kinds _ among
  | _ => rfl

theorem parse_kind (indent : token ≠ indentToken) (lineEnd : token ≠ returnToken)
    (chance : Chance) : isMark (parse token chance).1.kind = false := by
  rcases parse_cases token chance with nothing | form | ⟨x, -, number⟩
  · rw [nothing]
    rfl
  · exact form.isMark_kind indent lineEnd
  · rw [number]
    rfl

/-- One token alone reads as a carriage return. -/
theorem parse_lineEnd_iff (token : String) (chance : Chance) :
    (parse token chance).1.kind = .lineEnd ↔ token = returnToken := by
  by_cases lineEnd : token = returnToken
  · subst lineEnd
    exact iff_of_true rfl rfl
  · refine iff_of_false ?_ lineEnd
    by_cases indent : token = indentToken
    · subst indent
      exact nofun
    · intro kind
      have unmarked := parse_kind indent lineEnd chance
      rw [kind] at unmarked
      cases unmarked

end Term

end Termwise
