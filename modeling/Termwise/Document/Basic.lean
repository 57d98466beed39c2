import Termwise.Expr.Basic
import Termwise.Model.Sampling

/-! An editable program: rows of tokens with their terms, a cursor, and the rows committed so far.
Tokens are classified once, when they enter the document. -/
namespace Termwise

/-- A token with its term. -/
structure Cell where
  token : String
  term : Term
deriving Inhabited

abbrev Row := List Cell

/-- A place between the cells of a row. -/
structure Cursor where
  x : Int := 0
  y : Int := 0
deriving Repr, DecidableEq, Inhabited

/-- Committed rows, oldest first, and which of them is current. -/
structure History where
  snapshots : List (List Row)
  index : Nat
deriving Inhabited

/-- A program under edit. -/
structure Document where
  rows : List Row
  cursor : Cursor := {}
  history : History
deriving Inhabited

/-- Why an edit fails. -/
inductive EditError where
  /-- The cursor is on no row. -/
  | noRow
  /-- There is no cell at the cursor. -/
  | noCell
  /-- There is no snapshot at the place that is asked for. -/
  | noSnapshot
  /-- No list has places as far out as the one that is asked for. -/
  | outOfRange
deriving Repr, DecidableEq, Inhabited

/-- The items before a place and those behind it; a negative place counts from the end, and a place
outside the list is its nearest end. -/
def cutAt {α : Type} (place : Int) (items : List α) : List α × List α :=
  items.splitAt (if place < 0 then place + items.length else place).toNat

/-- Whether a place can be asked of a list at all: whether a signed word of 64 bits holds it. -/
def isPlace (place : Int) : Bool := -0x8000000000000000 ≤ place && place < 0x8000000000000000

/-- Inserts an item at a place. -/
def insertAt {α : Type} (place : Int) (item : α) (items : List α) : List α :=
  let (front, back) := cutAt place items
  front ++ item :: back

namespace History

def capacity : Nat := 100

def start (rows : List Row) : History := ⟨[rows], 0⟩

/-- Adds a snapshot after the current one. What was undone is dropped, and the oldest snapshots go
when there are too many. -/
def commit (h : History) (rows : List Row) : History :=
  let kept := h.snapshots.take (h.index + 1) ++ [rows]
  let snapshots := kept.drop (kept.length - capacity)
  ⟨snapshots, snapshots.length - 1⟩

/-- Whether there is a snapshot before the current one. -/
def canUndo (h : History) : Bool := 0 < h.index

/-- Whether there is a snapshot after the current one. -/
def canRedo (h : History) : Bool := h.index + 1 < h.snapshots.length

end History

namespace Document

/-- Greatest number of rows that inserting keeps. -/
def maxRows : Nat := 48

def readRow (tokens : List String) : StateM Chance Row :=
  tokens.mapM fun token => return ⟨token, ← Term.parse token⟩

/-- The document of rows of tokens, with these rows as its first snapshot. -/
def ofTokens (rows : List (List String)) : StateM Chance Document := do
  let rows ← rows.mapM readRow
  return { rows := rows, history := History.start rows }

def tokens (d : Document) : List (List String) := d.rows.map fun row => row.map Cell.token

def lines (d : Document) : List Line := d.rows.map fun row => Line.ofTerms (row.map Cell.term)

def text (d : Document) : String := Program.renderTerms d.lines

/-- Inserts a row at a place that a list can have. -/
def insertRow (d : Document) (y : Int) (row : Row) : Document :=
  { d with rows := insertAt y row d.rows }

/-- Adds a row at any place; one that no list can have is refused. -/
def addRow (d : Document) (y : Int) (row : Row) : Except EditError Document :=
  if isPlace y then .ok (d.insertRow y row) else .error .outOfRange

def endsWithReturn (row : Row) : Bool :=
  match row.getLast? with
  | some cell => cell.term.kind = .lineEnd
  | none => false

/-- Places the cursor, inside the document. When appending, a place past the end opens a row. -/
def setCursor (d : Document) (x y : Int) (appending : Bool) : Document :=
  if y < 0 then
    let d := if appending then d.insertRow 0 [] else d
    { d with cursor := {} }
  else
    match d.rows[y.toNat]? with
    | none =>
      if appending then { d.insertRow d.rows.length [] with cursor := ⟨0, d.rows.length⟩ }
      else { d with cursor := ⟨0, max (d.rows.length - 1) 0⟩ }
    | some row =>
      let x := min (max x 0) row.length
      if appending && (row.isEmpty || (row.length - 1 ≤ x && endsWithReturn row)) then
        { d.insertRow (y + 1) [] with cursor := ⟨0, y + 1⟩ }
      else { d with cursor := ⟨x, y⟩ }

/-- Drops the rows past the greatest number and keeps the cursor on a row. -/
def dropExcess (d : Document) : Document :=
  if maxRows < d.rows.length then
    { d with rows := d.rows.take maxRows, cursor := { d.cursor with
      y := min d.cursor.y (maxRows - 1) } }
  else d

/-- Puts a row in place of another one, with the cursor in it. -/
def setRow (d : Document) (index : Nat) (row : Row) (x : Int) : Document :=
  { d with rows := d.rows.set index row, cursor := { d.cursor with x := x } }

/-- Puts a row in place of another one, split in two, with the cursor at the start of the second. -/
def splitRow (d : Document) (index : Nat) (row : Row) (x : Int) : Document :=
  let (front, back) := cutAt x row
  let y := d.cursor.y + 1
  { (d.setRow index front x).insertRow y back with cursor := ⟨0, y⟩ }

/-- Inserts a cell at the cursor and moves past it; a carriage return splits the row behind it. -/
def insertCell (d : Document) (cell : Cell) : Except EditError Document :=
  match Model.place? d.rows.length d.cursor.y with
  | none => .error .noRow
  | some index =>
    let row := insertAt d.cursor.x cell (d.rows.getD index [])
    let x := d.cursor.x + 1
    let d := if cell.term.kind = .lineEnd then d.splitRow index row x else d.setRow index row x
    .ok d.dropExcess

/-- A document with at least one row. -/
def ensureRow (d : Document) : Document :=
  if d.rows.isEmpty then { d.insertRow 0 [] with cursor := {} } else d

/-- Inserts a token at the cursor. -/
def insertToken (d : Document) (token : String) :
    StateM Chance (Term × Except EditError Document) := do
  let term ← Term.parse token
  return (term, d.ensureRow.insertCell ⟨token, term⟩)

/-- Inserts tokens one after another, as far as it goes. -/
def insertTokens :
    Document → List String → StateM Chance (Except EditError (Option Term) × Document)
  | d, [] => return (.ok none, d)
  | d, token :: rest => do
    match ← d.insertToken token with
    | (_, .error e) => return (.error e, d.ensureRow)
    | (term, .ok d) =>
      match ← insertTokens d rest with
      | (.ok last, d) => return (.ok (some (last.getD term)), d)
      | (.error e, d) => return (.error e, d)

/-- Removes an empty row; the cursor goes to the start of the next one, or to the end of the
last. -/
def eraseRow (d : Document) (y : Int) : Document :=
  let rows := d.rows.eraseIdx y.toNat
  if rows.length ≤ y then
    let y : Int := max (rows.length - 1) 0
    { d with rows := rows, cursor := ⟨(rows.getD y.toNat []).length, y⟩ }
  else { d with rows := rows, cursor := ⟨0, y⟩ }

/-- A place in a row; the last cell's for a place past the end. -/
def lastOrAt (row : Row) (x : Int) : Int := if row.length ≤ x then row.length - 1 else x

/-- Removes the cell at the cursor, or the last one when the cursor is past the end of the row.
Removing a carriage return joins the row with the next one; in an empty row the row itself goes. -/
def erase (d : Document) : Except EditError Document :=
  let y := d.cursor.y
  if y < 0 then .ok d
  else
    match d.rows[y.toNat]? with
    | none => .ok d
    | some [] => .ok (d.eraseRow y)
    | some row =>
      let x := lastOrAt row d.cursor.x
      match Model.place? row.length x with
      | none => .error .noCell
      | some index =>
        let isReturn := (row[index]?.map fun cell => cell.term.kind) == some .lineEnd
        let rest := row.eraseIdx index
        if isReturn && y + 1 < d.rows.length then
          let joined := d.setRow y.toNat (rest ++ d.rows.getD (y.toNat + 1) []) x
          .ok { joined with rows := joined.rows.eraseIdx (y.toNat + 1) }
        else .ok (d.setRow y.toNat rest x)

def commit (d : Document) : Document := { d with history := d.history.commit d.rows }

def restore (d : Document) (index : Nat) : Except EditError Document :=
  match d.history.snapshots[index]? with
  | none => .error .noSnapshot
  | some rows => .ok { rows := rows, cursor := {}, history := { d.history with index := index } }

/-- Goes to a snapshot if that is possible; says whether it was. -/
def restoreIf (d : Document) (possible : Bool) (index : Nat) : Except EditError (Bool × Document) :=
  if possible then (d.restore index).map (true, ·) else .ok (false, d)

/-- Goes back one snapshot. -/
def undo (d : Document) : Except EditError (Bool × Document) :=
  d.restoreIf d.history.canUndo (d.history.index - 1)

/-- Goes forward one snapshot. -/
def redo (d : Document) : Except EditError (Bool × Document) :=
  d.restoreIf d.history.canRedo (d.history.index + 1)

def resetHistory (d : Document) : Document := { d with history := History.start d.rows }

/-- Why generating fails. -/
inductive GenerateError where
  | model (e : ModelError)
  | edit (e : EditError)
deriving Repr, DecidableEq, Inhabited

/-- Inserts a sequence chosen by a model at the cursor; gives its length. -/
def generate (choose : Chooser) (d : Document) (m : Model Float) (maxTerms : Int) :
    StateM Chance (Except GenerateError Nat × Document) := do
  match ← (m.predict choose maxTerms).run with
  | .error e => return (.error (.model e), d)
  | .ok indices =>
    match ← d.insertTokens (indices.map m.word) with
    | (.error e, d) => return (.error (.edit e), d)
    | (.ok _, d) => return (.ok indices.length, d)

end Document

end Termwise
