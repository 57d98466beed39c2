import Termwise.Proofs.Conversation
import Termwise.Proofs.Focus
import Termwise.Proofs.Links

/-! A document is a flat buffer of cells. Rows divide the cells and the cursor has a place among all
of them; inserting puts a cell at that place, erasing takes the cell there, and neither loses,
doubles or reorders another one, however the rows are split and joined on the way. -/
namespace Termwise

theorem insertIdx_length_append {α : Type} (front back : List α) (item : α) :
    (front ++ back).insertIdx front.length item = front ++ item :: back := by
  induction front with
  | nil => rfl
  | cons first rest ih =>
    rw [List.cons_append, List.length_cons, List.insertIdx_succ_cons, ih, List.cons_append]

namespace Document

/-- All cells, row after row. -/
def flat (d : Document) : List Cell := d.rows.flatten

/-- How many cells the rows above the cursor have. -/
def cellsAbove (d : Document) : Nat := (d.rows.take d.cursor.y.toNat).flatten.length

/-- The place of the cursor among all cells. -/
def position (d : Document) : Nat := d.cellsAbove + min d.cursor.x.toNat d.currentRow.length

/-- The place of the cell that erasing takes, if the row of the cursor has cells. -/
def erased (d : Document) : Nat := d.cellsAbove + min d.cursor.x.toNat (d.currentRow.length - 1)

/-- How many rows there are after typing tokens, before the row limit. -/
def rowsWith (d : Document) (tokens : List String) : Nat :=
  max d.rows.length 1 + tokens.count returnToken

namespace Focus

/-- The cells before the cursor. -/
def before (f : Focus) : List Cell := f.above.flatten ++ f.row.take f.column

/-- The cells behind the cursor. -/
def behind (f : Focus) : List Cell := f.row.drop f.column ++ f.below.flatten

theorem cellsAbove_document (f : Focus) : f.document.cellsAbove = f.above.flatten.length := by
  simp [cellsAbove, document]

theorem flat_eq (f : Focus) : f.document.flat = f.above.flatten ++ (f.row ++ f.below.flatten) := by
  simp [flat, document]

theorem flat_document (f : Focus) : f.document.flat = f.before ++ f.behind := by
  rw [flat_eq, before, behind, List.append_assoc, ← List.append_assoc (f.row.take _),
    List.take_append_drop]

theorem position_document (f : Focus) : f.document.position = f.before.length := by
  have column : f.document.cursor.x.toNat = f.column := rfl
  rw [position, cellsAbove_document, currentRow_document, column, before, List.length_append,
    List.length_take]

theorem erased_document (f : Focus) : f.document.erased = f.above.flatten.length + f.target := by
  have column : f.document.cursor.x.toNat = f.column := rfl
  rw [erased, cellsAbove_document, currentRow_document, column, target]

theorem before_put (f : Focus) (cell : Cell) : (f.put cell).before = f.before ++ [cell] := by
  unfold put
  split
  case isTrue => simp [before]
  case isFalse =>
    have front : (f.row.take f.column ++ cell :: f.row.drop f.column).take (f.column + 1) =
        f.row.take f.column ++ [cell] := by
      rw [← insertAt_natCast, take_insertAt]
    simp [before, front]

theorem behind_put (f : Focus) (cell : Cell) : (f.put cell).behind = f.behind := by
  unfold put
  split
  case isTrue => simp [behind]
  case isFalse =>
    have back : (f.row.take f.column ++ cell :: f.row.drop f.column).drop (f.column + 1) =
        f.row.drop f.column := by
      rw [← insertAt_natCast, drop_insertAt]
    simp [behind, back]

theorem length_put (f : Focus) (cell : Cell) :
    (f.put cell).document.rows.length =
      f.document.rows.length + if cell.term.kind = .lineEnd then 1 else 0 := by
  unfold put
  split <;> simp [document]
  omega

theorem flat_take (f : Focus) (cells : f.row ≠ []) :
    f.take.document.flat = f.document.flat.eraseIdx f.document.erased := by
  have inRow := f.target_lt cells
  -- A row that is joined follows the rest of the cursor's row, so what is below is the same run of
  -- cells.
  have joined : f.below.head?.getD [] ++ f.below.tail.flatten = f.below.flatten := by
    cases f.below <;> simp
  have taken : f.take.document.flat =
      f.above.flatten ++ (f.row.eraseIdx f.target ++ f.below.flatten) := by
    unfold take
    split
    · simp [flat, document, joined]
    · simp [flat, document]
  rw [taken, flat_eq, erased_document, List.eraseIdx_append_of_length_le (Nat.le_add_right _ _),
    Nat.add_sub_cancel_left, List.eraseIdx_append_of_lt_length inRow]

theorem erased_lt (f : Focus) (cells : f.row ≠ []) :
    f.document.erased < f.document.flat.length := by
  have inRow := f.target_lt cells
  rw [erased_document, flat_eq, List.length_append, List.length_append]
  omega

end Focus

/-- The cursor is between these cells, which are all there are. -/
structure Between (d : Document) (front back : List Cell) : Prop where
  flat : d.flat = front ++ back
  position : d.position = front.length

theorem Focus.between_document (f : Focus) : f.document.Between f.before f.behind :=
  ⟨f.flat_document, f.position_document⟩

variable {d : Document}

theorem flat_of_no_rows (empty : d.rows = []) : d.flat = [] := by simp [flat, empty]

theorem position_of_no_rows (empty : d.rows = []) : d.position = 0 := by
  simp [position, cellsAbove, currentRow, empty]

theorem length_ensureRow (d : Document) : d.ensureRow.rows.length = max d.rows.length 1 := by
  unfold ensureRow
  split
  case isTrue empty => simp [List.isEmpty_iff.mp empty]
  case isFalse content =>
    have := List.length_pos_iff.mpr (mt List.isEmpty_iff.mpr content)
    omega

theorem Steady.exists_between (steady : d.Steady) : ∃ front back, d.Between front back := by
  by_cases empty : d.rows = []
  · exact ⟨[], [], flat_of_no_rows empty, position_of_no_rows empty⟩
  · obtain ⟨f, rfl⟩ := steady.exists_focus empty
    exact ⟨_, _, f.between_document⟩

namespace Between

variable {front back : List Cell}

theorem unique {other others : List Cell} (between : d.Between front back)
    (also : d.Between other others) : other = front ∧ others = back := by
  have length : other.length = front.length := also.position.symm.trans between.position
  exact List.append_inj (also.flat.symm.trans between.flat) length

/-- Typing starts with a row, which has no cells of its own. -/
theorem ensureRow (between : d.Between front back) : d.ensureRow.Between front back := by
  by_cases empty : d.rows = []
  · have none : front ++ back = [] := between.flat.symm.trans (flat_of_no_rows empty)
    obtain ⟨rfl, rfl⟩ := List.append_eq_nil_iff.mp none
    rw [Focus.ensureRow_of_no_rows empty]
    exact Focus.between_document _
  · rw [ensureRow_of_rows empty]
    exact between

theorem position_le (between : d.Between front back) : d.position ≤ d.flat.length := by
  rw [between.position, between.flat, List.length_append]
  omega

theorem insertIdx_position (between : d.Between front back) (cell : Cell) :
    d.flat.insertIdx d.position cell = front ++ cell :: back := by
  rw [between.flat, between.position, insertIdx_length_append]

theorem take_position (between : d.Between front back) : d.flat.take d.position = front := by
  rw [between.flat, between.position, List.take_left]

theorem drop_position (between : d.Between front back) : d.flat.drop d.position = back := by
  rw [between.flat, between.position, List.drop_left]

end Between

theorem length_dropExcess (d : Document) :
    d.dropExcess.rows.length = min d.rows.length maxRows := by
  unfold dropExcess
  split
  case isTrue => rw [List.length_take, Nat.min_comm]
  case isFalse few => exact (Nat.min_eq_left (Nat.le_of_not_lt few)).symm

theorem dropExcess_of_le (room : d.rows.length ≤ maxRows) : d.dropExcess = d :=
  if_neg (Nat.not_lt.mpr room)

/-- One token: its cell goes between the cells before the cursor and those behind it, unless a row
is dropped. -/
theorem insertToken_between (steady : d.Steady) {front back : List Cell}
    (between : d.Between front back) (token : String) (chance : Chance) :
    ∃ after, (d.insertToken token).run chance =
        (((Term.parse token chance).1, .ok after), (Term.parse token chance).2) ∧
      after.Steady ∧ after.rows.length = min (d.rowsWith [token]) maxRows ∧
      (d.rowsWith [token] ≤ maxRows →
        after.Between (front ++ [⟨token, (Term.parse token chance).1⟩]) back) := by
  let cell : Cell := ⟨token, (Term.parse token chance).1⟩
  obtain ⟨ensured, content⟩ := steady.ensureRow
  obtain ⟨f, focus⟩ := ensured.exists_focus (List.length_pos_iff.mp content)
  obtain ⟨rfl, rfl⟩ := between.ensureRow.unique (focus ▸ f.between_document)
  obtain ⟨after, inserted, steady⟩ := ensured.insertCell content cell
  have run : (d.insertToken token).run chance =
      ((cell.term, .ok after), (Term.parse token chance).2) := by
    rw [← inserted]
    rfl
  rw [← focus, f.insertCell_document] at inserted
  have rows : (f.put cell).document.rows.length = d.rowsWith [token] := by
    rw [f.length_put, focus, length_ensureRow, rowsWith, List.count_singleton]
    simp only [cell, Term.parse_lineEnd_iff, beq_iff_eq]
  refine ⟨after, run, steady, ?_, ?_⟩
  · rw [← Except.ok.inj inserted, length_dropExcess, rows]
  · intro room
    rw [← Except.ok.inj inserted, dropExcess_of_le (rows ▸ room), ← f.before_put, ← f.behind_put]
    exact Focus.between_document _

theorem readRow_cons (token : String) (rest : List String) (chance : Chance) :
    readRow (token :: rest) chance =
      (⟨token, (Term.parse token chance).1⟩ :: (readRow rest (Term.parse token chance).2).1,
        (readRow rest (Term.parse token chance).2).2) := by
  rw [readRow, List.mapM_cons]
  rfl

/-- Tokens one after another: each goes behind the ones before it. -/
theorem insertTokens_between (steady : d.Steady) {front back : List Cell}
    (between : d.Between front back) {tokens : List String}
    (room : tokens ≠ [] → d.rowsWith tokens ≤ maxRows) (chance : Chance) :
    ∃ last after, (d.insertTokens tokens).run chance =
      ((.ok last, after), (readRow tokens chance).2) ∧
      after.Between (front ++ (readRow tokens chance).1) back := by
  induction tokens generalizing d front chance with
  | nil =>
    have nothing : readRow [] chance = ([], chance) := rfl
    refine ⟨none, d, rfl, ?_⟩
    rw [nothing, List.append_nil]
    exact between
  | cons token rest ih =>
    obtain ⟨next, inserted, steady, rows, between⟩ :=
      insertToken_between steady between token chance
    have room := room (List.cons_ne_nil _ _)
    have apart : d.rowsWith (token :: rest) = d.rowsWith [token] + rest.count returnToken := by
      simp only [rowsWith, List.count_cons, List.count_nil]
      omega
    have onward : next.rowsWith rest = d.rowsWith (token :: rest) := by
      rw [apart, rowsWith, rows, Nat.min_eq_left (by omega), Nat.max_eq_left]
      exact Nat.le_add_right_of_le (Nat.le_max_right _ _)
    obtain ⟨last, after, rested, between⟩ := ih steady (between (by omega)) (fun _ => onward ▸ room)
      (Term.parse token chance).2
    rw [insertTokens_cons inserted, rested, readRow_cons]
    exact ⟨_, after, rfl, by simpa using between⟩

theorem erase_flat (steady : d.Steady) :
    ∃ after, d.erase = .ok after ∧
      (d.currentRow ≠ [] → d.erased < d.flat.length ∧ after.flat = d.flat.eraseIdx d.erased) ∧
      (d.currentRow = [] → after.flat = d.flat) := by
  rcases steady.erase_cases with ⟨empty, erased⟩ | ⟨f, rfl, ⟨cells, erased⟩ | ⟨cells, erased⟩⟩
  · refine ⟨d, erased, ?_, fun _ => rfl⟩
    intro cells
    exact absurd (by simp [currentRow, empty]) cells
  · refine ⟨_, erased, fun some => absurd (f.currentRow_document.trans cells) some, ?_⟩
    intro _
    rw [flat, f.rows_eraseRow_document, f.flat_eq, cells, List.flatten_append, List.nil_append]
  · refine ⟨_, erased, fun _ => ⟨f.erased_lt cells, f.flat_take cells⟩, ?_⟩
    intro none
    exact absurd (f.currentRow_document.symm.trans none) cells

/-- What requests can make of rows of tokens. -/
def Reachable (d : Document) : Prop :=
  ∃ rows requests chance answers later, (conversation rows requests).run chance =
    (.ok (answers, d), later)

theorem Reachable.steady (reachable : d.Reachable) : d.Steady := by
  obtain ⟨rows, requests, chance, answers, later, conversed⟩ := reachable
  obtain ⟨_, _, _, same, steady⟩ :=
    converse_steady (ofTokens_steady rows chance) requests ((ofTokens rows).run chance).2
  cases conversed.symm.trans same
  exact steady

/-- A document is a flat buffer of cells: inserting a token puts its cell at the place of the cursor
and moves the cursor behind it, a carriage return included, erasing takes the one cell at the cursor
or none where the row is empty, and generating puts the cells of the chosen tokens there in their
order. Only the row limit can lose cells. -/
theorem flat_buffer (reachable : d.Reachable) :
    d.position ≤ d.flat.length ∧
    (∀ token chance, ∃ term after later, (d.insertToken token).run chance =
      ((term, .ok after), later) ∧
      after.rows.length = min (d.rowsWith [token]) maxRows ∧
      (d.rowsWith [token] ≤ maxRows →
        after.flat = d.flat.insertIdx d.position ⟨token, term⟩ ∧ after.position = d.position + 1)) ∧
    (∃ after, d.erase = .ok after ∧
      (d.currentRow ≠ [] → d.erased < d.flat.length ∧ after.flat = d.flat.eraseIdx d.erased) ∧
      (d.currentRow = [] → after.flat = d.flat)) ∧
    ∀ choose m maxTerms chance indices later,
      (Model.predict choose m maxTerms).run chance = (.ok indices, later) →
        ∃ after latest, (d.generate choose m maxTerms).run chance =
          ((.ok indices.length, after), latest) ∧
          ((indices ≠ [] → d.rowsWith (indices.map m.word) ≤ maxRows) →
            ∃ cells, (readRow (indices.map m.word)).run later = (cells, latest) ∧
              cells.map Cell.token = indices.map m.word ∧
              after.flat = d.flat.take d.position ++ cells ++ d.flat.drop d.position ∧
              after.position = d.position + indices.length) := by
  have steady := reachable.steady
  obtain ⟨front, back, between⟩ := steady.exists_between
  refine ⟨between.position_le, ?_, erase_flat steady, ?_⟩
  · intro token chance
    obtain ⟨after, inserted, -, rows, typed⟩ := insertToken_between steady between token chance
    refine ⟨_, after, _, inserted, rows, ?_⟩
    intro room
    rw [between.insertIdx_position, (typed room).flat, (typed room).position, between.position,
      List.length_append]
    exact ⟨List.append_assoc .., rfl⟩
  · intro choose m maxTerms chance indices later predicted
    obtain ⟨last, after, latest, inserted, -⟩ :=
      insertTokens_steady steady (indices.map m.word) later
    refine ⟨after, latest, by rw [generate_ok predicted, inserted], ?_⟩
    intro room
    have room : indices.map m.word ≠ [] → d.rowsWith (indices.map m.word) ≤ maxRows := by
      simpa using room
    obtain ⟨_, _, same, typed⟩ := insertTokens_between steady between room later
    cases inserted.symm.trans same
    have tokens := readRow_tokens (indices.map m.word) later
    have count := congrArg List.length tokens
    rw [List.length_map, List.length_map] at count
    refine ⟨(readRow (indices.map m.word) later).1, rfl, tokens, ?_, ?_⟩
    · rw [typed.flat, between.take_position, between.drop_position]
    · rw [typed.position, between.position, List.length_append, count]

/-- Two rows, the first with a carriage return in its middle and the cursor right before it. -/
def returnInside : Document :=
  ((ofTokens [["V0", "<CR>", "V1"], ["V2"]]).run default).1.setCursor 1 0 false

/-- A model of two words. -/
def twoWords : Model Float where
  smoothing := Model.defaultSmoothing
  temperature := Model.defaultTemperature
  words := [(0, "<CR>"), (1, "V7")]
  indices := [("<CR>", 0), ("V7", 1)]
  counts := [[0, 1], [0, 1]]

/-- A second carriage return goes before the first and splits the row, erasing takes the first and
joins the rows, and a word that is chosen twice goes before it twice. -/
theorem flat_buffer_returnInside :
    returnInside.Reachable ∧ returnInside.rowsWith ["<CR>"] ≤ maxRows ∧
      (∃ term after later, (returnInside.insertToken "<CR>").run default =
        ((term, .ok after), later) ∧
        after.rows.length = 3 ∧ after.flat.map Cell.token = ["V0", "<CR>", "<CR>", "V1", "V2"] ∧
          after.position = 2) ∧
      (returnInside.currentRow ≠ [] ∧
        ∃ after, returnInside.erase = .ok after ∧ after.flat.map Cell.token = ["V0", "V1", "V2"]) ∧
      (twoWords.predict (fun _ => pure 1) 2).run (default : Chance) = (.ok [1, 1], default) ∧
      ∃ after latest, (returnInside.generate (fun _ => pure 1) twoWords 2).run default =
        ((.ok 2, after), latest) ∧
        after.flat.map Cell.token = ["V0", "V7", "V7", "<CR>", "V1", "V2"] ∧
          after.position = 3 := by
  have reachable : returnInside.Reachable :=
    ⟨[["V0", "<CR>", "V1"], ["V2"]], [.operation (.setCursor 1 0 false)], default, [.done], _, rfl⟩
  have room : returnInside.rowsWith ["<CR>"] ≤ maxRows := by decide +kernel
  have predicted : (twoWords.predict (fun _ => pure 1) 2).run (default : Chance) =
      (.ok [1, 1], default) := rfl
  obtain ⟨-, insert, ⟨rest, erased, taken, -⟩, generate⟩ := flat_buffer reachable
  obtain ⟨term, after, later, inserted, rows, typed⟩ := insert "<CR>" default
  obtain ⟨longer, latest, generated, chosen⟩ := generate _ _ _ _ _ _ predicted
  obtain ⟨cells, -, tokens, all, place⟩ := chosen fun _ => by decide +kernel
  refine ⟨reachable, room, ⟨term, after, later, inserted, rows, ?_, (typed room).2⟩,
    ⟨nofun, rest, erased, ?_⟩, predicted, longer, latest, generated, ?_, place⟩
  · rw [(typed room).1]
    rfl
  · rw [(taken nofun).2]
    rfl
  · rw [all, List.map_append, List.map_append, tokens]
    rfl

end Document

end Termwise
