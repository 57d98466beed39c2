import Termwise.Proofs.TokenBuffer

/-! Erasing what was typed. With the cursor back in front of a cell that was just inserted, erasing
takes that cell and nothing else: a row that a carriage return split is joined again where it was
split, and the document is the one from before, its rows, its cursor and its history. -/
namespace Termwise.Document

/-- A place inside a row is where the cursor goes. -/
theorem setCursor_of_inside {d : Document} {x y : Nat} {row : Row} (found : d.rows[y]? = some row)
    (inside : x ≤ row.length) : d.setCursor x y false = { d with cursor := ⟨x, y⟩ } := by
  have column : min (max (x : Int) 0) row.length = x := by omega
  unfold setCursor
  simp only [Int.not_lt.mpr (Int.natCast_nonneg y), if_false, Int.toNat_natCast, found, column,
    Bool.false_and, Bool.false_eq_true]

namespace Focus

/-- The view after a cell is put, from the place right before the cell. -/
def facing (f : Focus) (cell : Cell) : Focus :=
  if cell.term.kind = .lineEnd then
    { f with row := f.row.take f.column ++ [cell], below := f.row.drop f.column :: f.below }
  else { f with row := f.row.take f.column ++ cell :: f.row.drop f.column }

variable {f : Focus}

theorem setCursor_put (inside : f.column ≤ f.row.length) (cell : Cell) :
    (f.put cell).document.setCursor f.column f.above.length false = (f.facing cell).document := by
  have found : ∃ rest, (f.put cell).document.rows[f.above.length]? =
      some (f.row.take f.column ++ cell :: rest) := by
    unfold put
    split
    · exact ⟨[], by simp [document]⟩
    · exact ⟨f.row.drop f.column, by simp [document]⟩
  obtain ⟨rest, found⟩ := found
  have reaches : f.column ≤ (f.row.take f.column ++ cell :: rest).length := by
    rw [List.length_append, List.length_take_of_le inside]
    exact Nat.le_add_right _ _
  rw [setCursor_of_inside found reaches]
  unfold put facing
  split <;> simp [document]

/-- Erasing takes the cell that the cursor faces. -/
theorem take_faced (above below : List Row) (front back : List Cell) (cell : Cell)
    (history : History) :
    (Focus.mk above (front ++ cell :: back) below front.length history).take =
      if cell.term.kind = .lineEnd then
        ⟨above, front ++ back ++ below.headD [], below.tail, front.length, history⟩
      else ⟨above, front ++ back, below, front.length, history⟩ := by
  have left : (front ++ cell :: back).eraseIdx front.length = front ++ back := by
    rw [List.eraseIdx_append_of_length_le (Nat.le_refl _), Nat.sub_self]
    rfl
  simp [take, target, left]

/-- The cell that was put is taken, and a row that it split is joined with what was split off. -/
theorem take_facing (inside : f.column ≤ f.row.length) (cell : Cell) :
    (f.facing cell).take = f := by
  obtain ⟨above, row, below, column, history⟩ := f
  obtain ⟨front, back, rfl, rfl⟩ : ∃ front back, row = front ++ back ∧ column = front.length :=
    ⟨row.take column, row.drop column, (List.take_append_drop ..).symm,
      (List.length_take_of_le inside).symm⟩
  simp only [facing, List.take_left, List.drop_left]
  split
  case isTrue isReturn =>
    rw [take_faced, if_pos isReturn, List.append_nil, List.headD_cons, List.tail_cons]
  case isFalse other => rw [take_faced, if_neg other]

end Focus

variable {d : Document}

/-- Erasing undoes inserting. Wherever the cursor is in a row, a token can be typed there; with the
cursor back at that place, erasing gives the document from before, if the row limit dropped no
row. -/
theorem erase_undoes_insertToken (reachable : d.Reachable) (content : d.rows ≠ [])
    (inside : d.cursor.x ≤ d.currentRow.length) (token : String) (chance : Chance) :
    ∃ term after later, (d.insertToken token).run chance = ((term, .ok after), later) ∧
      (d.rowsWith [token] ≤ maxRows →
        after.rows.length = d.rowsWith [token] ∧
          (after.setCursor d.cursor.x d.cursor.y false).erase = .ok d) := by
  let cell : Cell := ⟨token, (Term.parse token chance).1⟩
  obtain ⟨f, rfl⟩ := reachable.steady.exists_focus content
  have inside : f.column ≤ f.row.length := by
    rw [Focus.currentRow_document] at inside
    exact Int.ofNat_le.mp inside
  have inserted : f.document.ensureRow.insertCell cell = .ok (f.put cell).document.dropExcess := by
    rw [ensureRow_of_rows content, f.insertCell_document]
  have rows : (f.put cell).document.rows.length = f.document.rowsWith [token] := by
    have some : 0 < f.document.rows.length := List.length_pos_iff.mpr content
    rw [f.length_put, rowsWith, List.count_singleton, Nat.max_eq_left some]
    simp only [cell, Term.parse_lineEnd_iff, beq_iff_eq]
  refine ⟨cell.term, (f.put cell).document.dropExcess, (Term.parse token chance).2, ?_, ?_⟩
  · rw [← inserted]
    rfl
  · intro room
    rw [dropExcess_of_le (rows ▸ room)]
    refine ⟨rows, ?_⟩
    have faced : (f.facing cell).row ≠ [] := by
      unfold Focus.facing
      split <;> simp
    have back : (f.put cell).document.setCursor f.document.cursor.x f.document.cursor.y false =
        (f.facing cell).document := Focus.setCursor_put inside cell
    rw [back, Focus.erase_document _ faced, Focus.take_facing inside]

/-- A carriage return before another one, in the middle of a row, and erased again. -/
theorem erase_undoes_insertToken_return :
    returnInside.Reachable ∧ returnInside.rows ≠ [] ∧
      returnInside.cursor.x ≤ returnInside.currentRow.length ∧
      returnInside.rowsWith ["<CR>"] ≤ maxRows ∧
      ∃ term after later, (returnInside.insertToken "<CR>").run default =
        ((term, .ok after), later) ∧
        after.rows.length = 3 ∧ (after.setCursor 1 0 false).erase = .ok returnInside := by
  have reachable : returnInside.Reachable :=
    ⟨[["V0", "<CR>", "V1"], ["V2"]], [.operation (.setCursor 1 0 false)], default, [.done], _, rfl⟩
  have content : returnInside.rows ≠ [] := nofun
  have inside : returnInside.cursor.x ≤ returnInside.currentRow.length := by decide +kernel
  have room : returnInside.rowsWith ["<CR>"] ≤ maxRows := by decide +kernel
  obtain ⟨term, after, later, inserted, erased⟩ :=
    erase_undoes_insertToken reachable content inside "<CR>" default
  exact ⟨reachable, content, inside, room, term, after, later, inserted, erased room⟩

end Termwise.Document
