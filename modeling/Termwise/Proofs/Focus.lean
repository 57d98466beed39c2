import Termwise.Proofs.Editing
import Termwise.Proofs.Classification

/-! A document seen from its cursor: the rows above it, its row, and the rows below it. Inserting
and erasing change the document there and nowhere else, so what they do is said on this view; the
row limit is applied afterwards. -/
namespace Termwise

section Places

variable {α : Type}

theorem Model.place?_length_append (front back : List α) (item : α) :
    place? (front ++ item :: back).length front.length = some front.length := by
  rw [place?_eq_some (Int.natCast_nonneg _), Int.toNat_natCast]
  rw [List.length_append, List.length_cons]
  omega

theorem cutAt_natCast (place : Nat) (items : List α) :
    cutAt (place : Int) items = (items.take place, items.drop place) := by
  simp [cutAt, Int.not_lt.mpr (Int.natCast_nonneg place)]

theorem insertAt_natCast (place : Nat) (item : α) (items : List α) :
    insertAt (place : Int) item items = items.take place ++ item :: items.drop place := by
  rw [insertAt, cutAt_natCast]

/-- Right behind an inserted item; also where the place was past the end, and the item is the last
one. -/
theorem take_insertAt (place : Nat) (item : α) (items : List α) :
    (insertAt (place : Int) item items).take (place + 1) = items.take place ++ [item] := by
  have before : (items.take place).length ≤ place + 1 :=
    Nat.le_add_right_of_le (List.length_take_le ..)
  rw [insertAt_natCast, List.take_append, List.take_of_length_le before, List.length_take]
  have behind : place + 1 - min place items.length = place - min place items.length + 1 := by omega
  rw [behind, List.take_succ_cons]
  rcases Nat.le_total place items.length with inside | past
  · simp [inside]
  · simp [List.drop_of_length_le past]

theorem drop_insertAt (place : Nat) (item : α) (items : List α) :
    (insertAt (place : Int) item items).drop (place + 1) = items.drop place := by
  have before : (items.take place).length ≤ place + 1 :=
    Nat.le_add_right_of_le (List.length_take_le ..)
  rw [insertAt_natCast, List.drop_append, List.drop_of_length_le before, List.length_take]
  have behind : place + 1 - min place items.length = place - min place items.length + 1 := by omega
  rw [behind, List.drop_succ_cons, List.nil_append]
  rcases Nat.le_total place items.length with inside | past
  · simp [inside]
  · simp [List.drop_of_length_le past]

end Places

namespace Document

/-- A document seen from its cursor. -/
structure Focus where
  above : List Row
  /-- The row of the cursor. -/
  row : Row
  below : List Row
  column : Nat
  history : History

namespace Focus

def document (f : Focus) : Document where
  rows := f.above ++ f.row :: f.below
  cursor := ⟨f.column, f.above.length⟩
  history := f.history

/-- Puts a cell at the cursor and moves past it; behind a carriage return a new row starts. -/
def put (f : Focus) (cell : Cell) : Focus :=
  if cell.term.kind = .lineEnd then
    { f with above := f.above ++ [f.row.take f.column ++
      [cell]], row := f.row.drop f.column, column := 0 }
  else { f with row := f.row.take f.column ++ cell :: f.row.drop f.column, column := f.column + 1 }

/-- The place of the cell that erasing takes: the cursor's, or the last one of the row. -/
def target (f : Focus) : Nat := min f.column (f.row.length - 1)

/-- Takes a cell out of the row. The row below follows a carriage return that is taken. -/
def take (f : Focus) : Focus :=
  let rest := f.row.eraseIdx f.target
  if (f.row[f.target]?.map fun cell => cell.term.kind) = some .lineEnd then
    { f with row := rest ++ f.below.headD [], below := f.below.tail, column := f.target }
  else { f with row := rest, column := f.target }

theorem setRow_document (f : Focus) (row : Row) (column : Nat) :
    f.document.setRow f.above.length row column =
      { f with row := row, column := column }.document := by
  simp [setRow, document]

theorem splitRow_document (f : Focus) (row : Row) (column : Nat) :
    f.document.splitRow f.above.length row column =
      { f with above := f.above ++ [row.take
        column], row := row.drop column, column := 0 }.document := by
  have next : f.document.cursor.y + 1 = ((f.above ++ [row.take column]).length : Int) := by
    simp [document]
  have rows (front : Row) :
      { f with row := front, column := column }.document.rows =
      (f.above ++ [front]) ++ f.below := by
    simp [document]
  simp only [splitRow, cutAt_natCast, setRow_document, next, insertRow, rows, insertAt_natCast,
    List.take_left, List.drop_left]
  simp [document]

theorem insertCell_document (f : Focus) (cell : Cell) :
    f.document.insertCell cell = .ok (f.put cell).document.dropExcess := by
  have found : f.document.rows.getD f.above.length [] = f.row := by simp [document]
  have place : Model.place? f.document.rows.length f.document.cursor.y = some f.above.length :=
    Model.place?_length_append ..
  have column : f.document.cursor.x = f.column := rfl
  have next : (f.column : Int) + 1 = ((f.column + 1 : Nat) : Int) := rfl
  rw [insertCell, place]
  simp only [found, column, next, splitRow_document, setRow_document, take_insertAt,
    drop_insertAt, put]
  rw [insertAt_natCast]
  split <;> rfl

theorem lastOrAt_target (f : Focus) (cells : f.row ≠ []) : lastOrAt f.row f.column = f.target := by
  have := List.length_pos_iff.mpr cells
  unfold lastOrAt target
  split <;> omega

theorem target_lt (f : Focus) (cells : f.row ≠ []) : f.target < f.row.length := by
  have := List.length_pos_iff.mpr cells
  unfold target
  omega

theorem erase_document (f : Focus) (cells : f.row ≠ []) :
    f.document.erase = .ok f.take.document := by
  have y : f.document.cursor.y = (f.above.length : Int) := rfl
  have column : f.document.cursor.x = f.column := rfl
  have found : f.document.rows[f.above.length]? = some f.row := by simp [document]
  have place : Model.place? f.row.length f.target = some f.target := by
    rw [Model.place?_eq_some (Int.natCast_nonneg _) (by exact_mod_cast f.target_lt cells),
      Int.toNat_natCast]
  have following : f.document.rows.getD (f.above.length + 1) [] = f.below.headD [] := by
    cases below : f.below <;> simp [document, below]
  unfold erase
  simp only [y, column, Int.toNat_natCast, found, Int.not_lt.mpr (Int.natCast_nonneg _), if_false,
    lastOrAt_target f cells, place, setRow_document, following, take]
  by_cases isReturn : (f.row[f.target]?.map fun cell => cell.term.kind) = some .lineEnd
  · cases below : f.below with
    | nil => simp [document, isReturn, below]
    | cons next rest =>
      have more : (f.above.length : Int) + 1 < f.document.rows.length := by
        simp only [document, below, List.length_append, List.length_cons]
        omega
      simp only [isReturn, more, beq_self_eq_true, decide_true, Bool.and_self, if_true]
      simp [document, List.eraseIdx_append_of_length_le]
  · simp [isReturn]

theorem erase_document_of_empty (f : Focus) (empty : f.row = []) :
    f.document.erase = .ok (f.document.eraseRow f.above.length) := by
  have y : f.document.cursor.y = (f.above.length : Int) := rfl
  have found : f.document.rows[f.above.length]? = some [] := by simp [document, empty]
  unfold erase
  simp only [y, Int.toNat_natCast, found, Int.not_lt.mpr (Int.natCast_nonneg _), if_false]

theorem rows_eraseRow_document (f : Focus) :
    (f.document.eraseRow f.above.length).rows = f.above ++ f.below := by
  have rows : f.document.rows.eraseIdx f.above.length = f.above ++ f.below := by
    simp [document, List.eraseIdx_append_of_length_le]
  unfold eraseRow
  simp only [Int.toNat_natCast, rows]
  split <;> rfl

/-- Typing into a document without rows starts in a row of its own. -/
theorem ensureRow_of_no_rows {d : Document} (empty : d.rows = []) :
    d.ensureRow = (Focus.mk [] [] [] 0 d.history).document := by
  simp [ensureRow, empty, insertRow, insertAt, cutAt, document]

end Focus

theorem ensureRow_of_rows {d : Document} (content : d.rows ≠ []) : d.ensureRow = d := by
  simp [ensureRow, content]

theorem erase_of_no_rows {d : Document} (empty : d.rows = []) : d.erase = .ok d := by
  have none : d.rows[d.cursor.y.toNat]? = none := by simp [empty]
  unfold erase
  simp only [none, ite_self]

/-- The row of the cursor; empty where there is none. -/
def currentRow (d : Document) : Row := d.rows.getD d.cursor.y.toNat []

@[simp] theorem Focus.currentRow_document (f : Focus) : f.document.currentRow = f.row := by
  simp [currentRow, document]

/-- Every steady document with rows can be seen from its cursor. -/
theorem Steady.exists_focus {d : Document} (steady : d.Steady) (content : d.rows ≠ []) :
    ∃ f : Focus, f.document = d := by
  obtain ⟨rows, ⟨x, y⟩, history⟩ := d
  obtain ⟨x_nonneg, y_nonneg, y_lt⟩ := steady.cursor
  have := List.length_pos_iff.mpr content
  dsimp only at *
  have inside : y.toNat < rows.length := by omega
  have above : (rows.take y.toNat).length = y.toNat := List.length_take_of_le (by omega)
  refine ⟨⟨rows.take y.toNat, rows.get ⟨_, inside⟩, rows.drop (y.toNat + 1), x.toNat, history⟩, ?_⟩
  simp [Focus.document, above, Int.toNat_of_nonneg x_nonneg, Int.toNat_of_nonneg y_nonneg]

/-- Erasing does nothing where there are no rows, removes the row of the cursor where it is empty,
and takes a cell out of it otherwise. -/
theorem Steady.erase_cases {d : Document} (steady : d.Steady) :
    (d.rows = [] ∧ d.erase = .ok d) ∨
      ∃ f : Focus, f.document = d ∧
        ((f.row = [] ∧ d.erase = .ok (d.eraseRow f.above.length)) ∨
          (f.row ≠ [] ∧ d.erase = .ok f.take.document)) := by
  by_cases empty : d.rows = []
  · exact .inl ⟨empty, erase_of_no_rows empty⟩
  · obtain ⟨f, rfl⟩ := steady.exists_focus empty
    refine .inr ⟨f, rfl, ?_⟩
    by_cases cells : f.row = []
    · exact .inl ⟨cells, f.erase_document_of_empty cells⟩
    · exact .inr ⟨cells, f.erase_document cells⟩

end Document

end Termwise
