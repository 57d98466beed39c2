import Mathlib.Data.List.Induction
import Termwise.Proofs.Focus

/-! The column of the cursor. It stays inside the cursor's row through every operation that places
the cursor or changes its row, with one exception: a token that is typed into a row past the row
limit is dropped with that row, and the cursor goes to the last row that is kept but keeps its
column. -/
namespace Termwise

namespace Document

/-- If there are rows, the column is that of a cell in the row of the cursor, or the place at its
end. -/
def ColumnInside (d : Document) : Prop := d.rows ≠ [] → d.cursor.x ≤ d.currentRow.length

/-- The operation types a token into a row that is dropped at once, further right than the last row
that is kept reaches. -/
def Overruns (d : Document) : Operation → Prop
  | .insert token =>
    token ≠ returnToken ∧ maxRows ≤ d.cursor.y ∧ (d.rows.getD (maxRows - 1) []).length ≤ d.cursor.x
  | _ => False

theorem columnInside_of_start {d : Document} (start : d.cursor.x = 0) : d.ColumnInside := by
  intro _
  rw [start]
  exact Int.natCast_nonneg _

namespace Focus

theorem columnInside_document (f : Focus) : f.document.ColumnInside ↔ f.column ≤ f.row.length := by
  rw [ColumnInside, currentRow_document]
  simp [document]

/-- Where the cursor is after the row limit: on its row, or on the last one that is kept. -/
theorem currentRow_dropExcess (f : Focus) :
    f.document.dropExcess.currentRow = if f.above.length <
      maxRows then f.row else f.above.getD (maxRows - 1) [] := by
  have length : f.document.rows.length = f.above.length + (f.below.length + 1) := by simp [document]
  have y : f.document.cursor.y = f.above.length := rfl
  unfold dropExcess
  split
  case isFalse few => rw [if_pos (by omega), currentRow_document]
  case isTrue many =>
    rw [currentRow]
    dsimp only
    split
    case isTrue above =>
      have place : (min f.document.cursor.y (maxRows - 1)).toNat = f.above.length := by omega
      rw [place, List.getD_eq_getElem?_getD, List.getElem?_take_of_lt above]
      simp [document]
    case isFalse past =>
      have place : (min f.document.cursor.y (maxRows - 1)).toNat = maxRows - 1 := by
        unfold maxRows at *; omega
      have kept : maxRows - 1 < f.above.length := by unfold maxRows at *; omega
      rw [place, List.getD_eq_getElem?_getD, List.getElem?_take_of_lt (by decide)]
      simp [document, List.getElem?_append_left kept]

theorem columnInside_dropExcess (f : Focus) :
    f.document.dropExcess.ColumnInside ↔
      f.column ≤
        (if f.above.length < maxRows then f.row else f.above.getD (maxRows - 1) []).length := by
  have rows : f.document.dropExcess.rows ≠ [] := by
    unfold dropExcess
    split <;> simp [document, maxRows]
  have column : f.document.dropExcess.cursor.x = f.column := by
    unfold dropExcess
    split <;> rfl
  rw [ColumnInside, currentRow_dropExcess, column]
  simp only [ne_eq, rows, not_false_eq_true, true_imp_iff, Int.ofNat_le]

/-- After typing, the column is inside the row unless the row is dropped and the last kept one is
too short. -/
theorem columnInside_put_iff (f : Focus) (cell : Cell) (inside : f.column ≤ f.row.length) :
    (f.put cell).document.dropExcess.ColumnInside ↔
      ¬(cell.term.kind ≠ .lineEnd ∧ maxRows ≤ f.above.length ∧
        (f.above.getD (maxRows - 1) []).length ≤ f.column) := by
  rw [columnInside_dropExcess, put]
  by_cases isReturn : cell.term.kind = .lineEnd
  · simp [isReturn]
  · simp only [isReturn, if_false]
    split
    case isTrue above =>
      have : f.column + 1 ≤ (f.row.take f.column ++ cell :: f.row.drop f.column).length := by
        simp
        omega
      exact iff_of_true this (by omega)
    case isFalse past =>
      have past : maxRows ≤ f.above.length := by omega
      simp only [ne_eq, isReturn, not_false_eq_true, past, true_and]
      omega

end Focus

theorem setCursor_inside (d : Document) (x y : Int) (appending : Bool) :
    (d.setCursor x y appending).ColumnInside := by
  fun_cases setCursor d x y appending with
  | case1 => exact columnInside_of_start rfl
  | case2 => exact columnInside_of_start rfl
  | case3 => exact columnInside_of_start rfl
  | case4 => exact columnInside_of_start rfl
  | case5 nonneg row found column =>
    intro _
    have here : currentRow { d with cursor := ⟨column, y⟩ } = row := by simp [currentRow, found]
    rw [here]
    exact Int.min_le_right _ _

theorem eraseRow_inside (d : Document) (y : Int) : (d.eraseRow y).ColumnInside := by
  fun_cases eraseRow d y with
  | case1 rows _ last => exact fun _ => Int.le_refl _
  | case2 => exact columnInside_of_start rfl

theorem Focus.columnInside_take (f : Focus) : f.take.document.ColumnInside := by
  rw [columnInside_document]
  have rest : f.target ≤ (f.row.eraseIdx f.target).length := by
    rw [List.length_eraseIdx]
    unfold target
    split <;> omega
  unfold take
  split
  · rw [List.length_append]
    exact Nat.le_trans rest (Nat.le_add_right _ _)
  · exact rest

theorem erase_inside {d after : Document} (steady : d.Steady) (erased : d.erase = .ok after) :
    after.ColumnInside := by
  rcases steady.erase_cases with ⟨empty, same⟩ | ⟨f, rfl, ⟨-, same⟩ | ⟨-, same⟩⟩
  · cases same.symm.trans erased
    exact fun content => absurd empty content
  · cases same.symm.trans erased
    exact eraseRow_inside _ _
  · cases same.symm.trans erased
    exact f.columnInside_take

theorem restoreIf_cases {d after : Document} {possible moved : Bool} {index : Nat}
    (restored : d.restoreIf possible index = .ok (moved, after)) :
    after = d ∨ after.cursor = {} := by
  cases possible with
  | false =>
    cases restored
    exact .inl rfl
  | true =>
    cases found : d.history.snapshots[index]? with
    | none => simp [restoreIf, restore, found, Except.map] at restored
    | some rows =>
      simp only [restoreIf, restore, found, Except.map, if_true] at restored
      cases restored
      exact .inr rfl

theorem restoreIf_inside {d after : Document} {possible moved : Bool} {index : Nat}
    (inside : d.ColumnInside) (restored : d.restoreIf possible index = .ok (moved, after)) :
    after.ColumnInside := by
  rcases restoreIf_cases restored with rfl | start
  · exact inside
  · exact columnInside_of_start (by rw [start])

theorem Focus.overruns_insert (f : Focus) (token : String) :
    f.document.Overruns (.insert token) ↔
      token ≠ returnToken ∧ maxRows ≤ f.above.length ∧
        (f.above.getD (maxRows - 1) []).length ≤ f.column := by
  refine and_congr_right fun _ => ?_
  have y : (maxRows : Int) ≤ f.document.cursor.y ↔ maxRows ≤ f.above.length := Int.ofNat_le
  rw [y]
  refine and_congr_right fun past => ?_
  have kept : maxRows - 1 < f.above.length := Nat.lt_of_lt_of_le (by decide) past
  have last : f.document.rows.getD (maxRows - 1) [] = f.above.getD (maxRows - 1) [] := by
    simp [document, List.getElem?_append_left kept]
  rw [last]
  exact Int.ofNat_le

theorem insertToken_inside_iff {d after : Document} (steady : d.Steady) (inside : d.ColumnInside)
    {token : String} {chance : Chance}
    (inserted : ((d.insertToken token).run chance).1.2 = .ok after) :
    after.ColumnInside ↔ ¬d.Overruns (.insert token) := by
  change d.ensureRow.insertCell ⟨token, (Term.parse token chance).1⟩ = .ok after at inserted
  by_cases content : d.rows = []
  · rw [Focus.ensureRow_of_no_rows content, Focus.insertCell_document] at inserted
    cases inserted
    have y_lt := steady.cursor.y_lt
    rw [Focus.columnInside_put_iff _ _ (Nat.le_refl 0)]
    refine iff_of_true ?_ ?_
    · rintro ⟨-, past, -⟩
      exact Nat.not_succ_le_zero _ past
    · rintro ⟨-, past, -⟩
      simp only [content, List.length_nil, maxRows] at *
      omega
  · obtain ⟨f, rfl⟩ := steady.exists_focus content
    rw [ensureRow_of_rows content, Focus.insertCell_document] at inserted
    cases inserted
    rw [f.columnInside_put_iff _ (f.columnInside_document.mp inside), f.overruns_insert, ne_eq,
      Term.parse_lineEnd_iff]

theorem restoreIf_inside_of_map {d after : Document} {possible : Bool} {index : Nat}
    (inside : d.ColumnInside) (restored : (d.restoreIf possible index).map Prod.snd = .ok after) :
    after.ColumnInside := by
  cases outcome : d.restoreIf possible index with
  | error e =>
    rw [outcome] at restored
    cases restored
  | ok answer =>
    rw [outcome] at restored
    cases restored
    exact restoreIf_inside inside outcome

/-- One operation, other than adding a row apart from the cursor, keeps the column inside exactly
when it does not overrun. -/
theorem perform_inside_iff {d after : Document} (steady : d.Steady) (inside : d.ColumnInside)
    {operation : Operation} (placed : ∀ y, operation ≠ .addRow y) {chance later : Chance}
    (performed : (d.perform operation).run chance = (.ok after, later)) :
    after.ColumnInside ↔ ¬d.Overruns operation := by
  cases operation with
  | insert token => exact insertToken_inside_iff steady inside (congrArg Prod.fst performed)
  | erase => exact iff_of_true (erase_inside steady (congrArg Prod.fst performed)) id
  | setCursor x y appending =>
    cases performed
    exact iff_of_true (d.setCursor_inside x y appending) id
  | addRow y => exact absurd rfl (placed y)
  | commit =>
    cases performed
    exact iff_of_true inside id
  | undo => exact iff_of_true (restoreIf_inside_of_map inside (congrArg Prod.fst performed)) id
  | redo => exact iff_of_true (restoreIf_inside_of_map inside (congrArg Prod.fst performed)) id
  | resetHistory =>
    cases performed
    exact iff_of_true inside id

theorem edited_run (rows : List (List String)) (operations : List Operation) (chance : Chance) :
    (edited rows operations).run chance =
      (operations.foldlM perform ((ofTokens rows).run chance).1).run
        ((ofTokens rows).run chance).2 := rfl

/-- One operation more, after others that led to a document. -/
theorem edited_next {rows : List (List String)} {done : List Operation} {chance later : Chance}
    {d : Document} (reached : (edited rows done).run chance = (.ok d, later))
    (operation : Operation) :
    (edited rows (done ++ [operation])).run chance = (d.perform operation).run later := by
  rw [edited_run] at reached ⊢
  rw [List.foldlM_append, Exec.run_bind, reached]
  simp only [List.foldlM_cons, List.foldlM_nil, bind_pure]

/-- Operations that add no row apart from the cursor are in range. -/
theorem Operation.isInRange_of_placed {operation : Operation}
    (placed : ∀ y, operation ≠ .addRow y) : operation.isInRange = true := by
  cases operation with
  | addRow y => exact absurd rfl (placed y)
  | _ => rfl

/-- After one operation more the column is inside exactly when the operation does not overrun. -/
theorem edited_inside_iff {rows : List (List String)} {done : List Operation}
    {chance later : Chance} {d : Document}
    (reached : (edited rows done).run chance = (.ok d, later)) (inside : d.ColumnInside)
    {operation : Operation} (placed : ∀ before ∈ done ++ [operation], ∀ y, before ≠ .addRow y) :
    ∃ after latest, (edited rows (done ++ [operation])).run chance = (.ok after, latest) ∧
      (after.ColumnInside ↔ ¬d.Overruns operation) := by
  have inRange : ∀ before ∈ done, before.isInRange = true := fun before member =>
    Operation.isInRange_of_placed (placed before (List.mem_append_left _ member))
  have last : ∀ y, operation ≠ .addRow y := placed operation (by simp)
  obtain ⟨_, _, same, steady⟩ := performAll_steady (ofTokens_steady rows chance) inRange
    ((ofTokens rows).run chance).2
  cases same.symm.trans reached
  obtain ⟨after, latest, performed, -⟩ :=
    perform_steady steady (Operation.isInRange_of_placed last) later
  exact ⟨after, latest, (edited_next reached operation).trans performed,
    perform_inside_iff steady inside last performed⟩

/-- The column of the cursor is inside its row after every operation of a sequence exactly when no
operation of the sequence overruns. -/
theorem column_inside_iff (rows : List (List String)) (operations : List Operation)
    (placed : ∀ y, .addRow y ∉ operations) (chance : Chance) :
    (∀ done, done <+: operations →
        ∃ d later, (edited rows done).run chance = (.ok d, later) ∧ d.ColumnInside) ↔
      ∀ done operation, done ++ [operation] <+: operations →
        ∃ d later, (edited rows done).run chance = (.ok d, later) ∧ ¬d.Overruns operation := by
  have placed {done : List Operation} {operation : Operation}
      (part : done ++ [operation] <+: operations) :
      ∀ before ∈ done ++ [operation], ∀ y, before ≠ .addRow y := by
    rintro _ member y rfl
    exact placed y (part.mem member)
  constructor
  · intro inside done operation part
    obtain ⟨d, later, reached, before⟩ := inside done ((List.prefix_append _ _).trans part)
    obtain ⟨after, latest, performed, step⟩ := edited_inside_iff reached before (placed part)
    obtain ⟨_, _, same, column⟩ := inside _ part
    cases same.symm.trans performed
    exact ⟨d, later, reached, step.mp column⟩
  · intro careful done part
    induction done using List.reverseRecOn with
    | nil => exact ⟨_, _, rfl, columnInside_of_start rfl⟩
    | append_singleton done operation ih =>
      obtain ⟨d, later, reached, before⟩ := ih ((List.prefix_append _ _).trans part)
      obtain ⟨after, latest, performed, step⟩ := edited_inside_iff reached before (placed part)
      obtain ⟨_, _, same, free⟩ := careful done operation part
      cases same.symm.trans reached
      exact ⟨after, latest, performed, step.mpr free⟩

/-- A token that is typed below the last row that is kept, which is as long as the column asks
for. -/
theorem column_inside_lastRow :
    (∀ y, .addRow y ∉ [Operation.setCursor 0 48 true, .insert "V1"]) ∧
      ∀ done, done <+: [.setCursor 0 48 true, .insert "V1"] →
        ∃ d later, (edited (List.replicate 47 [] ++ [["V0"]]) done).run default = (.ok d, later) ∧
          d.ColumnInside := by
  have placed : ∀ y, .addRow y ∉ [Operation.setCursor 0 48 true, .insert "V1"] := by simp
  refine ⟨placed, (column_inside_iff _ _ placed default).mpr ?_⟩
  intro done operation part
  match done with
  | [] =>
    obtain ⟨rfl, -⟩ := List.cons_prefix_cons.mp part
    exact ⟨_, _, rfl, id⟩
  | [first] =>
    obtain ⟨here, part⟩ := List.cons_prefix_cons.mp part
    obtain ⟨rfl, -⟩ := List.cons_prefix_cons.mp part
    subst here
    refine ⟨_, _, rfl, ?_⟩
    rintro ⟨-, -, short⟩
    exact absurd short (by decide +kernel)
  | _ :: _ :: _ =>
    exact absurd part.length_le (by simp)

/-- Below a last kept row that is empty, the token that is typed leaves the cursor one column past
the end of that row. -/
theorem column_outside_emptyRow :
    ∃ d later, (edited (List.replicate 48 []) [.setCursor 0 48 true, .insert "V0"]).run default =
      (.ok d, later) ∧
      d.rows.length = 48 ∧ d.cursor = ⟨1, 47⟩ ∧ d.currentRow = [] ∧ ¬d.ColumnInside := by
  refine ⟨_, _, rfl, rfl, rfl, rfl, ?_⟩
  intro inside
  exact absurd (inside nofun) (by decide +kernel)

end Document

end Termwise
