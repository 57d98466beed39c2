import Termwise.Document.Basic
import Termwise.Proofs.Execution

/-! Editing fails only where a row is added at a place that no list can have. The operations on a
document are steps of one system; each of them keeps the cursor on a row and the history at a
snapshot it holds, so no sequence of them reaches a row, a cell or a snapshot that is not there. -/
namespace Termwise

/-- A place that counts from the start. -/
theorem Model.place?_eq_some {length : Nat} {index : Int} (nonneg : 0 ≤ index)
    (inside : index < length) : place? length index = some index.toNat := by
  simp [place?, nonneg, inside, Int.not_lt.mpr nonneg]

@[simp] theorem length_insertAt {α : Type} (place : Int) (item : α) (items : List α) :
    (insertAt place item items).length = items.length + 1 := by
  simp only [insertAt, cutAt, List.splitAt_eq, List.length_append, List.length_cons,
    List.length_take, List.length_drop]
  omega

/-- On one of so many rows. Where there are none, it is where the first one will be: a row can be
added without the cursor. -/
structure Cursor.Within (c : Cursor) (rows : Nat) : Prop where
  x_nonneg : 0 ≤ c.x
  y_nonneg : 0 ≤ c.y
  y_lt : c.y < max rows 1

namespace Cursor

variable {c : Cursor} {few many : Nat}

theorem within_start (rows : Nat) : Cursor.Within {} rows where
  x_nonneg := Int.le_refl 0
  y_nonneg := Int.le_refl 0
  y_lt := by dsimp only; omega

theorem Within.mono (within : c.Within few) (more : few ≤ many) : c.Within many where
  x_nonneg := within.x_nonneg
  y_nonneg := within.y_nonneg
  y_lt := by have := within.y_lt; omega

end Cursor

namespace History

/-- The current snapshot is there. -/
def Current (h : History) : Prop := h.index < h.snapshots.length

theorem start_current (rows : List Row) : (start rows).Current := Nat.zero_lt_one

theorem commit_current (h : History) (rows : List Row) : (h.commit rows).Current := by
  simp only [Current, commit, capacity, List.length_drop, List.length_append, List.length_singleton]
  omega

end History

namespace Document

/-- A change to a document, or a step through its history. -/
inductive Operation where
  | insert (token : String)
  | erase
  | setCursor (x y : Int) (appending : Bool)
  | addRow (y : Int)
  | commit
  | undo
  | redo
  | resetHistory

abbrev Editing := ExceptT EditError (StateM Chance)

def perform (d : Document) : Operation → Editing Document
  | .insert token => .mk do return (← d.insertToken token).2
  | .erase => .mk (pure d.erase)
  | .setCursor x y appending => pure (d.setCursor x y appending)
  | .addRow y => .mk (pure (d.addRow y []))
  | .commit => pure d.commit
  | .undo => .mk (pure (d.undo.map Prod.snd))
  | .redo => .mk (pure (d.redo.map Prod.snd))
  | .resetHistory => pure d.resetHistory

/-- Whether the operation asks for places only that a list can have. -/
def Operation.isInRange : Operation → Bool
  | .addRow y => isPlace y
  | _ => true

/-- A document of rows of tokens, after operations that are performed one after another. -/
def edited (rows : List (List String)) (operations : List Operation) : Editing Document := do
  let d ← ofTokens rows
  operations.foldlM perform d

theorem addRow_of_isPlace {y : Int} (place : isPlace y = true) {d : Document} (row : Row) :
    d.addRow y row = .ok (d.insertRow y row) :=
  if_pos place

theorem addRow_of_not_isPlace {y : Int} (far : isPlace y = false) {d : Document} (row : Row) :
    d.addRow y row = .error .outOfRange :=
  if_neg (by rw [far]; exact Bool.false_ne_true)

/-- A place in a list of rows, or the one at its end, is not refused while the list has fewer items
than a word has values. -/
theorem addRow_of_inside {d : Document} {y : Int} (nonneg : 0 ≤ y) (inside : y ≤ d.rows.length)
    (rows : d.rows.length < 0x8000000000000000) (row : Row) :
    d.addRow y row = .ok (d.insertRow y row) := by
  apply addRow_of_isPlace
  have low : -0x8000000000000000 ≤ y := by omega
  have high : y < 0x8000000000000000 := by omega
  simp only [isPlace, low, high, decide_true, Bool.and_self]

/-- The cursor is on a row, and the history at one of its snapshots. -/
structure Steady (d : Document) : Prop where
  cursor : d.cursor.Within d.rows.length
  history : d.history.Current

@[simp] theorem length_insertRow (d : Document) (y : Int) (row : Row) :
    (d.insertRow y row).rows.length = d.rows.length + 1 :=
  length_insertAt y row d.rows

@[simp] theorem length_setRow (d : Document) (index : Nat) (row : Row) (x : Int) :
    (d.setRow index row x).rows.length = d.rows.length :=
  List.length_set

theorem lastOrAt_inside {row : Row} {x : Int} (cells : row ≠ []) (nonneg : 0 ≤ x) :
    0 ≤ lastOrAt row x ∧ lastOrAt row x < row.length := by
  have := List.length_pos_iff.mpr cells
  unfold lastOrAt
  split <;> omega

theorem restore_steady {d : Document} {index : Nat} (there : index < d.history.snapshots.length) :
    ∃ after, d.restore index = .ok after ∧ after.Steady := by
  rw [restore, List.getElem?_eq_getElem there]
  exact ⟨_, rfl, Cursor.within_start _, there⟩

namespace Steady

variable {d : Document}

theorem moveTo (steady : d.Steady) {c : Cursor} (within : c.Within d.rows.length) :
    { d with cursor := c }.Steady :=
  ⟨within, steady.history⟩

theorem insertRow (steady : d.Steady) (y : Int) (row : Row) : (d.insertRow y row).Steady where
  cursor := steady.cursor.mono (by simp)
  history := steady.history

/-- A new row, with the cursor at its start. -/
theorem openRow (steady : d.Steady) {y : Int} (nonneg : 0 ≤ y) (bound : y ≤ d.rows.length)
    (row : Row) : { d.insertRow y row with cursor := ⟨0, y⟩ }.Steady := by
  apply (steady.insertRow y row).moveTo
  refine ⟨Int.le_refl 0, nonneg, ?_⟩
  rw [length_insertRow]
  dsimp only
  omega

theorem setRow (steady : d.Steady) (index : Nat) (row : Row) {x : Int} (nonneg : 0 ≤ x) :
    (d.setRow index row x).Steady where
  cursor := ⟨nonneg, steady.cursor.y_nonneg, by rw [length_setRow]; exact steady.cursor.y_lt⟩
  history := steady.history

theorem setCursor (steady : d.Steady) (x y : Int) (appending : Bool) :
    (d.setCursor x y appending).Steady := by
  fun_cases Document.setCursor d x y appending with
  | case1 _ grown =>
    have steady : grown.Steady := by
      simp only [grown]
      split
      · exact steady.insertRow 0 []
      · exact steady
    exact steady.moveTo (Cursor.within_start _)
  | case2 => exact steady.openRow (Int.natCast_nonneg _) (Int.le_refl _) []
  | case3 =>
    apply steady.moveTo
    refine ⟨Int.le_refl 0, Int.le_max_right _ _, ?_⟩
    dsimp only
    omega
  | case4 nonneg row found =>
    have := (List.getElem?_eq_some_iff.mp found).1
    exact steady.openRow (by omega) (by omega) []
  | case5 nonneg row found =>
    have := (List.getElem?_eq_some_iff.mp found).1
    apply steady.moveTo
    constructor <;> dsimp only <;> omega

theorem dropExcess (steady : d.Steady) : d.dropExcess.Steady := by
  unfold Document.dropExcess
  split
  · have within := steady.cursor
    refine ⟨⟨within.x_nonneg, ?_, ?_⟩, steady.history⟩
    · exact Int.le_min.mpr ⟨within.y_nonneg, by decide⟩
    · simp only [List.length_take, maxRows] at *
      omega
  · exact steady

theorem ensureRow (steady : d.Steady) : d.ensureRow.Steady ∧ 0 < d.ensureRow.rows.length := by
  unfold Document.ensureRow
  split
  case isTrue => exact ⟨steady.openRow (Int.le_refl 0) (Int.natCast_nonneg _) [], by simp⟩
  case isFalse content => exact ⟨steady, by simpa [List.length_pos_iff] using content⟩

theorem insertCell (steady : d.Steady) (content : 0 < d.rows.length) (cell : Cell) :
    ∃ after, d.insertCell cell = .ok after ∧ after.Steady := by
  obtain ⟨x_nonneg, y_nonneg, y_lt⟩ := steady.cursor
  have onRow : d.cursor.y < d.rows.length := by omega
  rw [Document.insertCell, Model.place?_eq_some y_nonneg onRow]
  -- A split leaves the cursor one row further down, in a document that is one row longer.
  refine ⟨_, rfl, ?_⟩
  apply Steady.dropExcess
  split
  · exact (steady.setRow _ _ (by omega)).openRow (by omega) (by rw [length_setRow]; omega) _
  · exact steady.setRow _ _ (by omega)

theorem eraseRow (steady : d.Steady) {y : Int} (nonneg : 0 ≤ y) : (d.eraseRow y).Steady := by
  fun_cases Document.eraseRow d y with
  | case1 rows _ y =>
    refine ⟨⟨Int.natCast_nonneg _, Int.le_max_right _ _, ?_⟩, steady.history⟩
    dsimp only
    omega
  | case2 rows inside => exact ⟨⟨Int.le_refl 0, nonneg, by dsimp only; omega⟩, steady.history⟩

theorem erase (steady : d.Steady) : ∃ after, d.erase = .ok after ∧ after.Steady := by
  have inside {row : Row} (cells : row ≠ []) := lastOrAt_inside cells steady.cursor.x_nonneg
  fun_cases Document.erase d with
  | case1 => exact ⟨d, rfl, steady⟩
  | case2 => exact ⟨d, rfl, steady⟩
  | case3 y => exact ⟨_, rfl, steady.eraseRow steady.cursor.y_nonneg⟩
  | case4 y _ row cells _ x outside =>
    -- A row with cells has one at the cursor, or a last one.
    rw [Model.place?_eq_some (inside cells).1 (inside cells).2] at outside
    cases outside
  | case5 y _ row cells _ x _ _ _ _ joins joined =>
    -- The row that goes is below the cursor.
    have steady : joined.Steady := steady.setRow _ _ (inside cells).1
    refine ⟨_, rfl, ⟨steady.cursor.x_nonneg, steady.cursor.y_nonneg, ?_⟩, steady.history⟩
    have more : y + 1 < d.rows.length := of_decide_eq_true (Bool.and_eq_true_iff.mp joins).2
    have unmoved : joined.cursor.y = y := rfl
    have asMany : joined.rows.length = d.rows.length := length_setRow ..
    rw [List.length_eraseIdx_of_lt (by omega)]
    dsimp only
    omega
  | case6 y _ row cells => exact ⟨_, rfl, steady.setRow _ _ (inside cells).1⟩

theorem commit (steady : d.Steady) : d.commit.Steady := ⟨steady.cursor, History.commit_current _ _⟩

theorem resetHistory (steady : d.Steady) : d.resetHistory.Steady :=
  ⟨steady.cursor, History.start_current _⟩

theorem restoreIf (steady : d.Steady) {possible : Bool} {index : Nat}
    (there : possible = true → index < d.history.snapshots.length) :
    ∃ moved after, d.restoreIf possible index = .ok (moved, after) ∧ after.Steady := by
  cases possible with
  | false => exact ⟨false, d, rfl, steady⟩
  | true =>
    obtain ⟨after, restored, steady⟩ := restore_steady (there rfl)
    exact ⟨true, after, by rw [Document.restoreIf, restored]; rfl, steady⟩

theorem undo (steady : d.Steady) : ∃ moved after, d.undo = .ok (moved, after) ∧ after.Steady := by
  apply steady.restoreIf
  intro _
  exact Nat.lt_of_le_of_lt (Nat.sub_le _ _) steady.history

theorem redo (steady : d.Steady) : ∃ moved after, d.redo = .ok (moved, after) ∧ after.Steady := by
  apply steady.restoreIf
  exact of_decide_eq_true

end Steady

/-- Every operation in range succeeds on a steady document and leaves it steady. -/
theorem perform_steady {d : Document} (steady : d.Steady) {operation : Operation}
    (inRange : operation.isInRange = true) (chance : Chance) :
    ∃ after later, (d.perform operation).run chance = (.ok after, later) ∧ after.Steady := by
  cases operation with
  | insert token =>
    obtain ⟨ensured, content⟩ := steady.ensureRow
    obtain ⟨after, inserted, steady⟩ :=
      ensured.insertCell content ⟨token, ((Term.parse token).run chance).1⟩
    exact ⟨after, ((Term.parse token).run chance).2, congrArg (·, _) inserted, steady⟩
  | erase =>
    obtain ⟨after, erased, steady⟩ := steady.erase
    exact ⟨after, chance, by rw [perform, erased]; rfl, steady⟩
  | setCursor x y appending => exact ⟨_, chance, rfl, steady.setCursor x y appending⟩
  | addRow y =>
    have added : d.addRow y [] = .ok (d.insertRow y []) := addRow_of_isPlace inRange []
    exact ⟨_, chance, by rw [perform, added]; rfl, steady.insertRow y []⟩
  | commit => exact ⟨_, chance, rfl, steady.commit⟩
  | undo =>
    obtain ⟨moved, after, undone, steady⟩ := steady.undo
    exact ⟨after, chance, by rw [perform, undone]; rfl, steady⟩
  | redo =>
    obtain ⟨moved, after, redone, steady⟩ := steady.redo
    exact ⟨after, chance, by rw [perform, redone]; rfl, steady⟩
  | resetHistory => exact ⟨_, chance, rfl, steady.resetHistory⟩

theorem performAll_steady {d : Document} (steady : d.Steady) {operations : List Operation}
    (inRange : ∀ operation ∈ operations, operation.isInRange = true) (chance : Chance) :
    ∃ after later, (operations.foldlM perform d).run chance = (.ok after, later) ∧
      after.Steady := by
  induction operations generalizing d chance with
  | nil => exact ⟨d, chance, rfl, steady⟩
  | cons operation rest ih =>
    rw [List.forall_mem_cons] at inRange
    obtain ⟨next, later, performed, steady⟩ := perform_steady steady inRange.1 chance
    rw [List.foldlM_cons, Exec.run_bind, performed]
    exact ih steady inRange.2 later

theorem ofTokens_steady (rows : List (List String)) (chance : Chance) :
    ((ofTokens rows).run chance).1.Steady :=
  ⟨Cursor.within_start _, History.start_current _⟩

end Document

end Termwise
