import Termwise.Proofs.Editing

/-! Conversations with a document: operations and generated text are requests, each with its answer.
What every response keeps, a whole conversation keeps, and a view that commutes with every response
commutes with a whole conversation. No request fails to be answered: the one that can be refused
leaves the document as it is, and so editing is safe. -/
namespace Termwise

namespace Document

/-- What a document can be asked for: an operation, or to insert what a model chooses. -/
inductive Request where
  | operation (operation : Operation)
  | generate (choose : Chooser) (m : Model Float) (maxTerms : Int)

/-- What a request is answered with. -/
inductive Answer where
  | done
  | refused (e : EditError)
  | moved (moved : Bool)
  | generated (count : Except GenerateError Nat)

/-- The answer where an edit is refused or leads to another document. -/
def answered (d : Document) : Except EditError Document → Answer × Document
  | .ok after => (.done, after)
  | .error e => (.refused e, d)

def respond (d : Document) : Request → Editing (Answer × Document)
  | .operation .undo => .mk (pure (d.undo.map fun (moved, d) => (.moved moved, d)))
  | .operation .redo => .mk (pure (d.redo.map fun (moved, d) => (.moved moved, d)))
  | .operation (.addRow y) => return d.answered (d.addRow y [])
  | .operation operation => do return (.done, ← d.perform operation)
  | .generate choose m maxTerms => do
    let (count, d) ← (d.generate choose m maxTerms : StateM Chance _)
    return (.generated count, d)

/-- Makes requests one after another. -/
def converse {δ : Type} (respond : δ → Request → Editing (Answer × δ)) :
    δ → List Request → Editing (List Answer × δ)
  | d, [] => return ([], d)
  | d, request :: rest => do
    let (answer, d) ← respond d request
    let (answers, d) ← converse respond d rest
    return (answer :: answers, d)

/-- Makes requests of a document of rows of tokens. -/
def conversation (rows : List (List String)) (requests : List Request) :
    Editing (List Answer × Document) := do
  let d ← ofTokens rows
  converse respond d requests

section Converse

variable {δ γ : Type} {respond : δ → Request → Editing (Answer × δ)} {d after : δ}
  {chance later : Chance} {answers : List Answer}

theorem converse_cons_iff {request : Request} {rest : List Request} :
    (converse respond d (request :: rest)).run chance = (.ok (answers, after), later) ↔
      ∃ answer next middle more, (respond d request).run chance = (.ok (answer, next), middle) ∧
        (converse respond next rest).run middle = (.ok (more, after), later) ∧
          answers = answer :: more := by
  rw [converse, Exec.run_bind_ok_iff]
  constructor
  · rintro ⟨⟨answer, next⟩, middle, responded, rested⟩
    obtain ⟨⟨more, _⟩, _, rested, same⟩ := Exec.run_bind_ok_iff.mp rested
    cases same
    exact ⟨answer, next, middle, more, responded, rested, rfl⟩
  · rintro ⟨answer, next, middle, more, responded, rested, rfl⟩
    exact ⟨_, middle, responded, Exec.run_bind_ok_iff.mpr ⟨_, later, rested, rfl⟩⟩

theorem converse_append_iff {first second : List Request} :
    (converse respond d (first ++ second)).run chance = (.ok (answers, after), later) ↔
      ∃ front next middle back, (converse respond d first).run chance =
        (.ok (front, next), middle) ∧
        (converse respond next second).run middle = (.ok (back, after), later) ∧
          answers = front ++ back := by
  induction first generalizing d chance answers with
  | nil =>
    constructor
    · intro conversed
      exact ⟨[], d, chance, answers, rfl, conversed, rfl⟩
    · rintro ⟨_, _, _, back, ⟨⟩, conversed, rfl⟩
      exact conversed
  | cons request rest ih =>
    rw [List.cons_append, converse_cons_iff]
    constructor
    · rintro ⟨answer, next, middle, more, responded, rested, rfl⟩
      obtain ⟨front, last, latest, back, begun, ended, rfl⟩ := ih.mp rested
      exact ⟨answer :: front, last, latest, back,
        converse_cons_iff.mpr ⟨answer, next, middle, front, responded, begun, rfl⟩, ended, rfl⟩
    · rintro ⟨_, last, latest, back, conversed, ended, rfl⟩
      obtain ⟨answer, next, middle, front, responded, rested, rfl⟩ := converse_cons_iff.mp conversed
      exact ⟨answer, next, middle, front ++ back, responded,
        ih.mpr ⟨front, last, latest, back, rested, ended, rfl⟩, rfl⟩

/-- What every response keeps, a conversation keeps. -/
theorem converse_keeps {P : δ → Prop}
    (step : ∀ {d request chance answer after later}, P d →
      (respond d request).run chance = (.ok (answer, after), later) → P after)
    {requests : List Request} (holds : P d)
    (conversed : (converse respond d requests).run chance = (.ok (answers, after), later)) :
    P after := by
  induction requests generalizing d chance answers with
  | nil =>
    cases conversed
    exact holds
  | cons request rest ih =>
    obtain ⟨answer, next, middle, more, responded, rested, -⟩ := converse_cons_iff.mp conversed
    exact ih (step holds responded) rested

/-- A view that every response commutes with, a conversation commutes with. -/
theorem converse_map {seen : γ → Request → Editing (Answer × γ)} {view : δ → γ}
    (step : ∀ d request, seen (view d) request = Prod.map id view <$> respond d request) (d : δ)
    (requests : List Request) :
    converse seen (view d) requests = Prod.map id view <$> converse respond d requests := by
  induction requests generalizing d with
  | nil => simp [converse]
  | cons request rest ih => simp [converse, step, ih]

end Converse

variable {d : Document}

theorem insertTokens_cons {next : Document} {token : String} {chance later : Chance} {term : Term}
    (inserted : (d.insertToken token).run chance = ((term, .ok next), later)) (rest : List String) :
    (d.insertTokens (token :: rest)).run chance =
      match (next.insertTokens rest).run later with
      | ((.ok last, after), latest) => ((.ok (some (last.getD term)), after), latest)
      | ((.error e, after), latest) => ((.error e, after), latest) := by
  rw [insertTokens, StateT.run_bind, inserted]
  change ((next.insertTokens rest >>= _).run later) = _
  rw [StateT.run_bind]
  rcases (next.insertTokens rest).run later with ⟨⟨e | last, after⟩, latest⟩ <;> rfl

theorem insertTokens_steady (steady : d.Steady) (tokens : List String) (chance : Chance) :
    ∃ last after later, (d.insertTokens tokens).run chance = ((.ok last, after), later) ∧
      after.Steady := by
  induction tokens generalizing d chance with
  | nil => exact ⟨none, d, chance, rfl, steady⟩
  | cons token rest ih =>
    obtain ⟨ensured, content⟩ := steady.ensureRow
    obtain ⟨next, inserted, steady⟩ :=
      ensured.insertCell content ⟨token, (Term.parse token chance).1⟩
    have inserted : (d.insertToken token).run chance =
        (((Term.parse token chance).1, .ok next), (Term.parse token chance).2) := by
      rw [← inserted]
      rfl
    obtain ⟨last, after, later, rested, steady⟩ := ih steady (Term.parse token chance).2
    rw [insertTokens_cons inserted, rested]
    exact ⟨_, after, later, rfl, steady⟩

section Generate

variable {choose : Chooser} {m : Model Float} {maxTerms : Int} {chance later : Chance}

theorem generate_error {e : ModelError}
    (predicted : (m.predict choose maxTerms).run chance = (.error e, later)) :
    (d.generate choose m maxTerms).run chance = ((.error (.model e), d), later) := by
  change (m.predict choose maxTerms).run.run chance = _ at predicted
  rw [generate, StateT.run_bind, predicted]
  rfl

theorem generate_ok {indices : List Int}
    (predicted : (m.predict choose maxTerms).run chance = (.ok indices, later)) :
    (d.generate choose m maxTerms).run chance =
      match (d.insertTokens (indices.map m.word)).run later with
      | ((.ok _, after), latest) => ((.ok indices.length, after), latest)
      | ((.error e, after), latest) => ((.error (.edit e), after), latest) := by
  change (m.predict choose maxTerms).run.run chance = _ at predicted
  rw [generate, StateT.run_bind, predicted]
  change ((d.insertTokens (indices.map m.word) >>= _).run later) = _
  rw [StateT.run_bind]
  rcases (d.insertTokens (indices.map m.word)).run later with ⟨⟨e | last, after⟩, latest⟩ <;> rfl

end Generate

/-- Whether or not the model can choose a sequence, generating leaves what inserting tokens
leaves. -/
theorem generate_inserts (d : Document) (choose : Chooser) (m : Model Float) (maxTerms : Int)
    (chance : Chance) :
    ∃ tokens earlier, ((d.generate choose m maxTerms).run chance).1.2 =
      ((d.insertTokens tokens).run earlier).1.2 := by
  rcases predicted : (m.predict choose maxTerms).run chance with ⟨e | indices, later⟩
  · rw [generate_error predicted]
    exact ⟨[], chance, rfl⟩
  · rw [generate_ok predicted]
    refine ⟨indices.map m.word, later, ?_⟩
    rcases (d.insertTokens (indices.map m.word)).run later with ⟨⟨e | last, after⟩, latest⟩ <;> rfl

theorem respond_generate (d : Document) (choose : Chooser) (m : Model Float) (maxTerms : Int)
    (chance : Chance) :
    (d.respond (.generate choose m maxTerms)).run chance =
      (.ok (.generated ((d.generate choose m maxTerms).run chance).1.1,
          ((d.generate choose m maxTerms).run chance).1.2),
        ((d.generate choose m maxTerms).run chance).2) := rfl

theorem respond_addRow (d : Document) (y : Int) (chance : Chance) :
    (d.respond (.operation (.addRow y))).run chance = (.ok (d.answered (d.addRow y [])), chance) :=
  rfl

theorem respond_operation {operation : Operation}
    (plain : operation ≠ .undo ∧ operation ≠ .redo ∧ ∀ y, operation ≠ .addRow y) (chance : Chance) :
    (d.respond (.operation operation)).run chance =
      match (d.perform operation).run chance with
      | (.ok after, later) => (.ok (.done, after), later)
      | (.error e, later) => (.error e, later) := by
  have performs : d.respond (.operation operation) = do return (.done, ← d.perform operation) := by
    cases operation <;> simp_all [respond]
  rw [performs, Exec.run_bind]
  rcases (d.perform operation).run chance with ⟨e | after, later⟩ <;> rfl

/-- Why an answer refuses what was asked for, if it does. -/
def Answer.refusal? : Answer → Option EditError
  | .refused e => some e
  | _ => none

/-- Why an operation is refused, if it is. -/
def Operation.refusal? (operation : Operation) : Option EditError :=
  if operation.isInRange then none else some .outOfRange

theorem Operation.addRow_of_not_isInRange {operation : Operation}
    (far : operation.isInRange = false) : ∃ y, operation = .addRow y ∧ isPlace y = false := by
  cases operation with
  | addRow y => exact ⟨y, rfl, far⟩
  | _ => cases far

/-- An operation in range is performed, and the answer refuses nothing. -/
theorem respond_of_isInRange (steady : d.Steady) {operation : Operation}
    (inRange : operation.isInRange = true) (chance : Chance) :
    ∃ answer after later, (d.respond (.operation operation)).run chance =
      (.ok (answer, after), later) ∧
      (d.perform operation).run chance = (.ok after, later) ∧ answer.refusal? = none ∧
        after.Steady := by
  cases operation with
  | undo =>
    obtain ⟨moved, after, undone, steady⟩ := steady.undo
    exact ⟨.moved moved, after, chance, by rw [respond, undone]; rfl, by rw [perform, undone]; rfl,
      rfl, steady⟩
  | redo =>
    obtain ⟨moved, after, redone, steady⟩ := steady.redo
    exact ⟨.moved moved, after, chance, by rw [respond, redone]; rfl, by rw [perform, redone]; rfl,
      rfl, steady⟩
  | addRow y =>
    have added : d.addRow y [] = .ok (d.insertRow y []) := addRow_of_isPlace inRange []
    obtain ⟨after, later, performed, steady⟩ := perform_steady steady inRange chance
    rw [perform, added] at performed
    cases performed
    exact ⟨.done, _, chance, by rw [respond_addRow, added]; rfl, by rw [perform, added]; rfl,
      rfl, steady⟩
  | insert | erase | setCursor | commit | resetHistory =>
    obtain ⟨after, later, performed, steady⟩ := perform_steady steady inRange chance
    refine ⟨.done, after, later, ?_, performed, rfl, steady⟩
    rw [respond_operation (by simp), performed]

/-- An operation out of range is refused. -/
theorem respond_of_not_isInRange {operation : Operation} (far : operation.isInRange = false)
    (chance : Chance) :
    (d.respond (.operation operation)).run chance = (.ok (.refused .outOfRange, d), chance) := by
  obtain ⟨y, rfl, far⟩ := Operation.addRow_of_not_isInRange far
  rw [respond_addRow, addRow_of_not_isPlace far]
  rfl

/-- Every request is answered by a steady document and leaves it steady. -/
theorem respond_steady (steady : d.Steady) (request : Request) (chance : Chance) :
    ∃ answer after later, (d.respond request).run chance = (.ok (answer, after), later) ∧
      after.Steady := by
  cases request with
  | generate choose m maxTerms =>
    obtain ⟨tokens, earlier, same⟩ := d.generate_inserts choose m maxTerms chance
    obtain ⟨last, after, later, inserted, steady⟩ := insertTokens_steady steady tokens earlier
    refine ⟨_, _, _, respond_generate d choose m maxTerms chance, ?_⟩
    rw [same, inserted]
    exact steady
  | operation operation =>
    cases inRange : operation.isInRange with
    | true =>
      obtain ⟨answer, after, later, responded, -, -, steady⟩ :=
        respond_of_isInRange steady inRange chance
      exact ⟨answer, after, later, responded, steady⟩
    | false => exact ⟨_, d, chance, respond_of_not_isInRange inRange chance, steady⟩

theorem converse_steady (steady : d.Steady) (requests : List Request) (chance : Chance) :
    ∃ answers after later, (converse respond d requests).run chance =
      (.ok (answers, after), later) ∧
      after.Steady := by
  induction requests generalizing d chance with
  | nil => exact ⟨[], d, chance, rfl, steady⟩
  | cons request rest ih =>
    obtain ⟨answer, next, middle, responded, steady⟩ := respond_steady steady request chance
    obtain ⟨answers, after, later, rested, steady⟩ := ih steady middle
    exact ⟨answer :: answers, after, later,
      converse_cons_iff.mpr ⟨answer, next, middle, answers, responded, rested, rfl⟩, steady⟩

/-- The operations in range are performed one after another, and the others are refused and leave no
trace. -/
theorem converse_operations (steady : d.Steady) (operations : List Operation) (chance : Chance) :
    ∃ answers after later,
      (converse respond d (operations.map .operation)).run chance = (.ok (answers, after), later) ∧
      ((operations.filter Operation.isInRange).foldlM perform d).run chance = (.ok after, later) ∧
      answers.map Answer.refusal? = operations.map Operation.refusal? ∧ after.Steady := by
  induction operations generalizing d chance with
  | nil => exact ⟨[], d, chance, rfl, rfl, rfl, steady⟩
  | cons operation rest ih =>
    rw [List.map_cons]
    cases inRange : operation.isInRange with
    | true =>
      obtain ⟨answer, next, middle, responded, performed, accepted, steady⟩ :=
        respond_of_isInRange steady inRange chance
      obtain ⟨answers, after, later, conversed, ended, same, steady⟩ := ih steady middle
      refine ⟨answer :: answers, after, later, ?_, ?_, ?_, steady⟩
      · exact converse_cons_iff.mpr ⟨answer, next, middle, answers, responded, conversed, rfl⟩
      · rw [List.filter_cons_of_pos inRange, List.foldlM_cons, Exec.run_bind, performed]
        exact ended
      · simp [same, accepted, Operation.refusal?, inRange]
    | false =>
      obtain ⟨answers, after, later, conversed, ended, same, steady⟩ := ih steady chance
      refine ⟨.refused .outOfRange :: answers, after, later, ?_, ?_, ?_, steady⟩
      · exact converse_cons_iff.mpr
          ⟨_, d, chance, answers, respond_of_not_isInRange inRange chance, conversed, rfl⟩
      · rwa [List.filter_cons_of_neg (by simp [inRange])]
      · simp [same, Answer.refusal?, Operation.refusal?, inRange]

/-- Whatever rows a document starts with and whatever is done to it: an operation fails only where a
row is added at a place that no signed word of 64 bits holds, which is refused and leaves the
document as it is; and after each operation the cursor is neither above nor left of the text, and on
a row if there is one. -/
theorem editing_safe (rows : List (List String)) (operations : List Operation) (chance : Chance) :
    ∃ answers d later,
      (conversation rows (operations.map .operation)).run chance = (.ok (answers, d), later) ∧
      (edited rows (operations.filter Operation.isInRange)).run chance = (.ok d, later) ∧
      answers.map Answer.refusal? = operations.map Operation.refusal? ∧
      0 ≤ d.cursor.x ∧ 0 ≤ d.cursor.y ∧ (d.rows ≠ [] → d.cursor.y < d.rows.length) := by
  have steady := ofTokens_steady rows chance
  obtain ⟨answers, d, later, conversed, performed, refusals, steady⟩ :=
    converse_operations steady operations ((ofTokens rows).run chance).2
  refine ⟨answers, d, later, conversed, performed, refusals, steady.cursor.x_nonneg,
    steady.cursor.y_nonneg, ?_⟩
  intro content
  have := List.length_pos_iff.mpr content
  have := steady.cursor.y_lt
  omega

/-- A row cannot be added at a place that no word holds, be the document empty or not. -/
theorem addRow_outOfRange :
    (edited [] [.addRow 0x8000000000000000]).run default = (.error .outOfRange, default) ∧
      (edited [["V0"]] [.addRow (-0x8000000000000001)]).run default =
        (.error .outOfRange, default) :=
  ⟨rfl, rfl⟩

end Document

end Termwise
