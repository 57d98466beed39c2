import Mathlib.Data.List.Forall2
import Termwise.Document.Basic
import Termwise.Expr.Compile
import Termwise.Proofs.Spelling

/-! A program written as tokens and read again. The second reading has the same lines as the first
one: the same indentation and the same trees, numbers compared by value. -/
namespace Termwise

/-- Items that are read without touching the state are read as a whole without touching it. -/
theorem mapM_steady {α β γ σ : Type} {read : β → StateM σ γ} {items : List α} {put : α → β}
    {get : α → γ} (steady : ∀ a ∈ items, ∀ s, read (put a) s = (get a, s)) (s : σ) :
    (items.map put).mapM read s = (items.map get, s) := by
  induction items with
  | nil => rfl
  | cons a items ih =>
    rw [List.forall_mem_cons] at steady
    rw [List.map_cons, List.mapM_cons, List.map_cons]
    show ((read (put a) s).1 :: ((items.map put).mapM read (read (put a) s).2).1,
      ((items.map put).mapM read (read (put a) s).2).2) = _
    rw [steady.1, ih steady.2]

/-- Whatever comes out of a reading was read from one of its items. -/
theorem mem_mapM {α β σ : Type} {read : α → StateM σ β} {items : List α} {s : σ} {b : β}
    (member : b ∈ (items.mapM read s).1) : ∃ a ∈ items, ∃ s, (read a s).1 = b := by
  induction items generalizing s with
  | nil => cases member
  | cons a items ih =>
    rw [List.mapM_cons] at member
    rcases List.mem_cons.mp (show b ∈ (read a s).1 :: (items.mapM read (read a s).2).1 from member)
      with rfl | later
    · exact ⟨a, List.mem_cons_self, s, rfl⟩
    · obtain ⟨c, among, found⟩ := ih later
      exact ⟨c, List.mem_cons_of_mem a among, found⟩

/-- Readings that give the same up to a map go on the same way. -/
theorem mapM_image {α β γ σ : Type} {read : α → StateM σ β} {again : α → StateM σ γ} {f : β → γ}
    (same : ∀ a s, again a s = (f (read a s).1, (read a s).2)) (items : List α) (s : σ) :
    items.mapM again s = ((items.mapM read s).1.map f, (items.mapM read s).2) := by
  induction items generalizing s with
  | nil => rfl
  | cons a items ih =>
    rw [List.mapM_cons, List.mapM_cons]
    show ((again a s).1 :: (items.mapM again (again a s).2).1, (items.mapM again (again a s).2).2) =
      _
    rw [same, ih]
    rfl

/-- Terms with equal fields; numbers are compared by value, so a zero has no sign. -/
instance : BEq Term where
  beq s t := s.kind == t.kind && s.name == t.name && s.argCount == t.argCount && s.index ==
    t.index && s.value == t.value

theorem Term.beq_iff {s t : Term} : (s == t) = true ↔
    s.kind = t.kind ∧ s.name = t.name ∧ s.argCount = t.argCount ∧ s.index = t.index ∧
      (s.value == t.value) = true := by
  show (s.kind == t.kind && s.name == t.name && s.argCount == t.argCount &&
    s.index == t.index && s.value == t.value) = true ↔ _
  simp only [Bool.and_eq_true, beq_iff_eq, and_assoc]

namespace Expr

mutual

/-- Trees of the same form with equal terms. -/
def beq : Expr → Expr → Bool
  | .operand s, .operand t => s == t
  | .call s xs, .call t ys => s == t && beqAll xs ys
  | _, _ => false

def beqAll : List Expr → List Expr → Bool
  | [], [] => true
  | x :: xs, y :: ys => beq x y && beqAll xs ys
  | _, _ => false

end

instance : BEq Expr := ⟨beq⟩

theorem beqAll_eq (xs ys : List Expr) : beqAll xs ys = (xs == ys) := by
  induction xs generalizing ys with
  | nil => cases ys <;> rfl
  | cons x xs ih =>
    cases ys with
    | nil => rfl
    | cons y ys =>
      rw [beqAll, ih, List.cons_beq_cons]
      rfl

/-- The trees of two lists are equal one by one. -/
abbrev Alike (xs ys : List Expr) : Prop := List.Forall₂ (fun x y => (x == y) = true) xs ys

theorem beq_iff_alike {xs ys : List Expr} : (xs == ys) = true ↔ Alike xs ys := by
  induction xs generalizing ys with
  | nil => cases ys <;> simp
  | cons x xs ih =>
    cases ys with
    | nil => simp
    | cons y ys => rw [List.cons_beq_cons, Bool.and_eq_true, ih, Alike, Alike, List.forall₂_cons]

theorem isCall_of_beq {x y : Expr} (same : (x == y) = true) : x.isCall = y.isCall := by
  cases x with
  | operand s =>
    cases y with
    | operand t => rfl
    | call t ys => cases same
  | call s xs =>
    cases y with
    | operand t => cases same
    | call t ys => rfl

variable {s t : Term} {xs ys : List Expr}

theorem takeArgs_alike (alike : Alike xs ys) (count : Nat) :
    Alike (takeArgs count xs) (takeArgs count ys) := by
  unfold takeArgs
  rw [alike.length_eq]
  refine List.rel_append (List.forall₂_take count alike) (List.forall₂_same.mpr fun x member => ?_)
  rw [List.eq_of_mem_replicate member]
  decide

theorem push_alike (same : (s == t) = true) (alike : Alike xs ys) :
    Alike (push s xs) (push t ys) := by
  obtain ⟨kind, -, count, -, -⟩ := Term.beq_iff.mp same
  unfold push
  rw [kind, count]
  split
  · exact .cons same alike
  · split
    · refine .cons ?_ (List.forall₂_drop _ alike)
      have args := beq_iff_alike.mpr (takeArgs_alike alike t.argCount.toNat)
      rw [← beqAll_eq] at args
      exact Bool.and_eq_true_iff.mpr ⟨same, args⟩
    · exact alike

theorem push_of_not_isSolid (empty : t.isSolid = false) (xs : List Expr) : push t xs = xs := by
  obtain ⟨noOperand, noCall⟩ := Bool.or_eq_false_iff.mp empty
  simp [push, noOperand, noCall]

theorem forest_append_of_not_isSolid {before : List Term} (empty : ∀ t ∈ before, t.isSolid = false)
    (terms : List Term) : forest (before ++ terms) = forest terms := by
  induction before with
  | nil => rfl
  | cons t before ih =>
    rw [List.forall_mem_cons] at empty
    rw [List.cons_append, forest, List.foldr_cons]
    exact (push_of_not_isSolid empty.1 _).trans (ih empty.2)

/-- The solid terms alone make the trees of a line. -/
theorem forest_alike {f : Term → Term} {terms : List Term}
    (same : ∀ t ∈ terms, t.isSolid = true → (t == f t) = true) :
    Alike (forest terms) (forest ((terms.filter Term.isSolid).map f)) := by
  induction terms with
  | nil => exact .nil
  | cons t terms ih =>
    rw [List.forall_mem_cons] at same
    have later := ih same.2
    cases solid : t.isSolid with
    | true =>
      rw [List.filter_cons_of_pos solid]
      exact push_alike (same.1 solid) later
    | false =>
      rw [List.filter_cons_of_neg (by simp [solid])]
      show Alike (push t (forest terms)) _
      rw [push_of_not_isSolid solid]
      exact later

end Expr

namespace Term

/-- A term that was read from a token, with the arguments of the operator whose name it carries. -/
structure Legible (t : Term) : Prop where
  proper : t.ProperArity
  read : ∃ token, Source.IsToken token ∧ Shape token.toList t

variable {t : Term} {terms : List Term}

theorem Shape.beq_spelled {token : List Char} (shape : Shape token t) :
    (t == t.spelled) = true := by
  rw [beq_iff]
  cases shape with
  | number finite => exact ⟨rfl, rfl, rfl, rfl, (literal_ofNumber finite).2.2⟩
  | @register lead kind among n =>
    have other : kind ≠ .number := by
      rintro rfl
      exact absurd among (by simp [registerLeads])
    simp [spelled, other]
  | nop => exact ⟨rfl, rfl, rfl, rfl, rfl⟩
  | _ => simp [spelled]

theorem Legible.isToken_text (legible : t.Legible) (solid : t.isSolid = true) :
    Source.IsToken t.text := by
  obtain ⟨token, valid, shape⟩ := legible.read
  rw [Source.isToken_iff] at valid ⊢
  exact ⟨((shape.isSolid_iff legible.proper).mp solid).2, shape.chars_text valid.2 solid⟩

/-- A call under the name of an operator is written as the operator and reads back with its
arguments. -/
theorem parse_text_of_operator {op : Operator} (kind : t.kind = .function)
    (name : t.name = some op.name) (chance : Chance) :
    parse t.text chance = (ofOperator op, chance) := by
  have known : Operator.ofName? op.name = some op := by cases op <;> rfl
  have text : t.text = op.symbol := by
    simp only [Term.text, kind, nameText, name, Option.getD_some, known]
  rw [text, parse, classify_operator]
  rfl

theorem Shape.eq_nop {token : List Char} (shape : Shape token t) (unmarked : isMark t.kind = false)
    (empty : t.isSolid = false) : t = Term.nop := by
  cases shape with
  | nop => rfl
  | indent => cases unmarked
  | lineEnd => cases unmarked
  | register among n =>
    have operands : ∀ entry ∈ registerLeads, entry.2.isOperand = true := by decide
    rw [isSolid, operands _ among, Bool.true_or] at empty
    cases empty
  | _ => cases empty

/-- What a token is read as, written and read again, is the same term, unless it is a call under the
name of an operator with another number of arguments. -/
theorem reread_iff (token : String) (indent : token ≠ indentToken) (lineEnd : token ≠ returnToken)
    (chance other : Chance) :
    ((parse token chance).1 == (parse (parse token chance).1.text other).1) = true ↔
      (parse token chance).1.ProperArity := by
  have shape := parse_shape token chance
  have unmarked := parse_kind indent lineEnd chance
  generalize (parse token chance).1 = t at shape unmarked
  constructor
  · intro same op _ kind name
    rw [parse_text_of_operator kind name] at same
    exact (beq_iff.mp same).2.2.1
  · intro proper
    cases solid : t.isSolid with
    | true =>
      rw [shape.parse_text proper solid]
      exact shape.beq_spelled
    | false =>
      rw [shape.eq_nop unmarked solid]
      rfl

/-- A wildcard whose digit makes a negative zero. -/
theorem reread_iff_wildcard :
    "-D.0" ≠ indentToken ∧ "-D.0" ≠ returnToken ∧ (parse "-D.0" default).1.text = "0" ∧
      ((parse "-D.0" default).1 == (parse (parse "-D.0" default).1.text default).1) = true :=
  ⟨by decide, by decide, by decide +kernel,
    (reread_iff "-D.0" (by decide) (by decide) default default).mpr (by decide +kernel)⟩

/-- A call of the sum with three arguments is written as the operator, which has two. -/
theorem reread_operatorName :
    (parse "add/3" default).1.text = "+" ∧ (parse "add/3" default).1.argCount = 3 ∧
      ((parse "add/3" default).1 == (parse (parse "add/3" default).1.text default).1) = false := by
  decide +kernel

theorem parse_indentToken (chance : Chance) :
    parse indentToken chance = ({ kind := .indent }, chance) := rfl

end Term

namespace Line

variable {terms : List Term}

/-- A line whose terms were read and of which some part is written. -/
structure Legible (terms : List Term) : Prop where
  each : ∀ t ∈ terms, t.Legible
  content : ∃ t ∈ terms, t.isSolid = true

/-- What the line is written from: the levels of its margin and the texts of its solid terms. -/
def tokens (terms : List Term) : Nat × List String :=
  ((indentLevel? terms).getD 0, (terms.filter Term.isSolid).map Term.text)

/-- What is read from the written line. -/
def reread (terms : List Term) : List Term :=
  List.replicate ((indentLevel? terms).getD 0) { kind := .indent } ++
    (terms.filter Term.isSolid).map Term.spelled

theorem renderTerms_eq (legible : Legible terms) :
    (ofTerms terms).renderTerms.toList = Source.layout (tokens terms) := by
  have texts : ((terms.filter fun t => t.kind ≠ .indent).map Term.text).filter (fun s => s ≠ "") =
      (terms.filter Term.isSolid).map Term.text := by
    rw [List.filter_map, List.filter_filter]
    congr 1
    refine List.filter_congr fun t member => ?_
    obtain ⟨proper, token, -, shape⟩ := legible.each t member
    have solid := shape.isSolid_iff proper
    rw [Bool.eq_iff_iff, solid]
    simp [and_comm]
  rw [renderTerms]
  simp only [ofTerms, texts]
  simp [String.toList_append, String.toList_intercalate, Source.layout, margin, tokens,
    Function.comp_def]

theorem parseRow_tokens (legible : Legible terms) (chance : Chance) :
    Term.parseRow (List.replicate (tokens terms).1 indentToken ++ (tokens terms).2) chance =
      (reread terms, chance) := by
  -- The tokens in line with the terms they are read as.
  let pairs : List (String × Term) := List.replicate (tokens terms).1
    (indentToken, { kind := .indent }) ++
    (terms.filter Term.isSolid).map fun t => (t.text, t.spelled)
  have steady : ∀ pair ∈ pairs, ∀ chance, Term.parse pair.1 chance = (pair.2, chance) := by
    intro pair member chance
    rcases List.mem_append.mp member with margin | body
    · rw [List.eq_of_mem_replicate margin]
      exact Term.parse_indentToken chance
    · obtain ⟨t, kept, rfl⟩ := List.mem_map.mp body
      obtain ⟨among, solid⟩ := List.mem_filter.mp kept
      obtain ⟨proper, token, -, shape⟩ := legible.each t among
      exact shape.parse_text proper solid chance
  have read := mapM_steady steady chance
  simpa [pairs, tokens, reread, Term.parseRow, Function.comp_def] using read

theorem indentLevel?_reread (legible : Legible terms) :
    indentLevel? (reread terms) = indentLevel? terms := by
  obtain ⟨t, member, solid⟩ := legible.content
  have notIndent : ∀ u : Term, u.isSolid = true → u.kind ≠ .indent := by
    intro u solid indent
    rw [Term.isSolid, indent] at solid
    cases solid
  obtain ⟨level, found⟩ : ∃ level, indentLevel? terms = some level := by
    rw [← Option.isSome_iff_exists, indentLevel?, List.findIdx?_isSome, List.any_eq_true]
    exact ⟨t, member, by simpa using notIndent t solid⟩
  have first : ∀ u ∈ (terms.filter Term.isSolid).map Term.spelled, u.kind ≠ .indent := by
    intro u among
    obtain ⟨v, kept, rfl⟩ := List.mem_map.mp among
    rw [Term.spelled_kind]
    exact notIndent v (List.mem_filter.mp kept).2
  have content : t.spelled ∈ (terms.filter Term.isSolid).map Term.spelled :=
    List.mem_map_of_mem (List.mem_filter.mpr ⟨member, solid⟩)
  rw [reread, found, Option.getD_some]
  generalize (terms.filter Term.isSolid).map Term.spelled = body at first content
  obtain ⟨u, rest, rfl⟩ := List.exists_cons_of_ne_nil (List.ne_nil_of_mem content)
  rw [indentLevel?, List.findIdx?_append, List.findIdx?_cons]
  simp [first u List.mem_cons_self]

/-- Two readings of a line agree on its indentation, its trees and its calls. -/
structure Agrees (line read : Line) : Prop where
  indent : read.indent = line.indent
  roots : (line.roots == read.roots) = true
  calls : (line.calls == read.calls) = true

theorem agrees_reread (legible : Legible terms) :
    (ofTerms terms).Agrees (ofTerms (reread terms)) := by
  have margin : ∀ t ∈ List.replicate ((indentLevel? terms).getD 0) ({ kind := .indent } : Term),
      t.isSolid = false := by
    intro t member
    rw [List.eq_of_mem_replicate member]
    rfl
  have roots : Expr.Alike (ofTerms terms).roots (ofTerms (reread terms)).roots := by
    show Expr.Alike (Expr.forest terms) (Expr.forest (reread terms))
    rw [reread, Expr.forest_append_of_not_isSolid margin]
    refine Expr.forest_alike fun t member _ => ?_
    obtain ⟨-, token, -, shape⟩ := legible.each t member
    exact shape.beq_spelled
  refine ⟨indentLevel?_reread legible, Expr.beq_iff_alike.mpr roots, Expr.beq_iff_alike.mpr ?_⟩
  refine List.rel_filter (fun x y same => ?_) roots
  show x.isCall = true ↔ y.isCall = true
  rw [Expr.isCall_of_beq same]

end Line

namespace Program

variable {rows : List (List Term)}

theorem compile_renderTerms (legible : ∀ terms ∈ rows, Line.Legible terms) (chance : Chance) :
    compile (renderTerms (ofTerms rows)) chance = (ofTerms (rows.map Line.reread), chance) := by
  have valid : ∀ row ∈ rows.map Line.tokens,
      row.2 ≠ [] ∧ ∀ token ∈ row.2, Source.IsToken token := by
    intro row member
    obtain ⟨terms, among, rfl⟩ := List.mem_map.mp member
    obtain ⟨each, t, here, solid⟩ := legible terms among
    constructor
    · exact List.ne_nil_of_mem (List.mem_map_of_mem (List.mem_filter.mpr ⟨here, solid⟩))
    · intro token written
      obtain ⟨u, kept, rfl⟩ := List.mem_map.mp written
      obtain ⟨inside, solid⟩ := List.mem_filter.mp kept
      exact (each u inside).isToken_text solid
  have laidOut : (renderTerms (ofTerms rows)).toList =
      ['\n'].intercalate ((rows.map Line.tokens).map Source.layout) := by
    have lines : ((ofTerms rows).map Line.renderTerms).map String.toList =
        (rows.map Line.tokens).map Source.layout := by
      simp only [ofTerms, List.map_map]
      exact List.map_congr_left fun terms among => Line.renderTerms_eq (legible terms among)
    rw [renderTerms, String.toList_intercalate, lines]
    rfl
  have tokens := Source.tokenize_layout valid laidOut
  rw [List.map_map] at tokens
  have read := mapM_steady (fun terms among => Line.parseRow_tokens (legible terms among)) chance
  rw [compile, tokens]
  exact congrArg (fun r => (ofTerms r.1, r.2)) read

end Program

theorem Document.lines_ofTokens (rows : List (List String)) (chance : Chance) :
    (ofTokens rows chance).1.lines = Program.ofTerms (Term.parseRows rows chance).1 := by
  have row : ∀ tokens chance,
      Term.parseRow tokens chance = ((readRow tokens chance).1.map Cell.term,
        (readRow tokens chance).2) :=
    mapM_image fun token chance => rfl
  have all := mapM_image row rows chance
  show (rows.mapM readRow chance).1.map (fun row => Line.ofTerms (row.map Cell.term)) = _
  rw [Program.ofTerms, Term.parseRows, all, List.map_map]
  rfl

namespace Program

theorem legible_parseRows {rows : List (List String)} {chance : Chance}
    (tokens : ∀ row ∈ rows, ∀ token ∈ row, Source.IsToken token)
    (content : ∀ terms ∈ (Term.parseRows rows chance).1, ∃ t ∈ terms, t.kind ≠ .indent ∧
      t.text ≠ "") (proper : ∀ terms ∈ (Term.parseRows rows chance).1, ∀ t ∈ terms, t.ProperArity) :
    ∀ terms ∈ (Term.parseRows rows chance).1, Line.Legible terms := by
  intro terms among
  have each : ∀ t ∈ terms, t.Legible := by
    intro t member
    obtain ⟨row, inside, start, rfl⟩ := mem_mapM among
    obtain ⟨token, here, before, rfl⟩ := mem_mapM member
    exact ⟨proper _ among _ member, token, tokens row inside token here,
      Term.parse_shape token before⟩
  obtain ⟨t, member, written⟩ := content terms among
  obtain ⟨arity, token, -, shape⟩ := each t member
  exact ⟨each, t, member, (shape.isSolid_iff arity).mpr written⟩

/-- A program that was read from tokens, written as text and read again has the same lines. -/
theorem text_roundTrip (rows : List (List String)) (chance : Chance)
    (tokens : ∀ row ∈ rows, ∀ token ∈ row, Source.IsToken token)
    (content : ∀ terms ∈ (Term.parseRows rows chance).1, ∃ t ∈ terms, t.kind ≠ .indent ∧
      t.text ≠ "") (proper : ∀ terms ∈ (Term.parseRows rows chance).1, ∀ t ∈ terms, t.ProperArity) :
    (Document.ofTokens rows chance).1.text = renderTerms (ofTerms (Term.parseRows rows chance).1) ∧
    ∀ other, List.Forall₂ Line.Agrees (ofTerms (Term.parseRows rows chance).1)
      (compile (renderTerms (ofTerms (Term.parseRows rows chance).1)) other).1 := by
  have legible := legible_parseRows tokens content proper
  constructor
  · rw [Document.text, Document.lines_ofTokens]
  · intro other
    rw [compile_renderTerms legible, ofTerms, ofTerms, List.map_map, List.forall₂_map_left_iff,
      List.forall₂_map_right_iff, List.forall₂_same]
    exact fun terms among => Line.agrees_reread (legible terms among)

/-- A loop with indentation inside a line, tokens without effect, a wildcard, a negative zero and
calls by name. -/
def loopRows : List (List String) :=
  [["while", "<IDT>", "lessThan/02", "V0", "1D.5", "?"],
    ["<IDT>", "<IDT>", "=V0", "+", "V0", "-0.0", "<CR>"],
    ["<IDT>", "circle/03", "PI", "!V007", "1e-7"]]

theorem text_roundTrip_loop :
    renderTerms (ofTerms (Term.parseRows loopRows default).1) =
      "while < V0 10.5\n    =V0 + V0 0\n  circle/3 PI !V7 1e-07" ∧
    ∀ other, List.Forall₂ Line.Agrees (ofTerms (Term.parseRows loopRows default).1)
      (compile (renderTerms (ofTerms (Term.parseRows loopRows default).1)) other).1 :=
  ⟨by decide +kernel, (text_roundTrip loopRows default (by decide +kernel) (by decide +kernel)
    (by decide +kernel)).2⟩

end Program

end Termwise
