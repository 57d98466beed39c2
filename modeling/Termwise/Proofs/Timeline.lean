import Mathlib.Data.List.DropRight
import Termwise.Proofs.Conversation

/-! The history of a document is a bounded zipper. A draft keeps the committed rows as those before,
those now and those to come; its document lists them all and counts the ones before. Documents and
drafts give the same answers to the same requests, so what is committed is never lost to undoing,
and never more than the history holds. -/
namespace Termwise

/-- Committed rows around the current ones: those before, oldest first, and those after, next
first. -/
structure Timeline where
  past : List (List Row)
  current : List Row
  future : List (List Row)

namespace Timeline

def start (rows : List Row) : Timeline := ⟨[], rows, []⟩

/-- New rows follow the current ones. As many of those before are kept as the history has room
for. -/
def commit (t : Timeline) (rows : List Row) : Timeline :=
  ⟨(t.past ++ [t.current]).rtake (History.capacity - 1), rows, []⟩

def back? (t : Timeline) : Option Timeline :=
  t.past.getLast?.map fun rows => ⟨t.past.dropLast, rows, t.current :: t.future⟩

def forth? (t : Timeline) : Option Timeline :=
  match t.future with
  | [] => none
  | rows :: rest => some ⟨t.past ++ [t.current], rows, rest⟩

/-- All rows in one list, and the place of the current ones. -/
def history (t : Timeline) : History := ⟨t.past ++ [t.current] ++ t.future, t.past.length⟩

theorem history_commit (t : Timeline) (rows : List Row) :
    (t.commit rows).history = t.history.commit rows := by
  have kept : (t.past ++ [t.current] ++ t.future).take (t.past.length + 1) =
      t.past ++ [t.current] :=
    List.take_left' (by simp)
  have dropped : (t.past ++ [t.current] ++ [rows]).length - History.capacity =
      (t.past ++ [t.current]).length - (History.capacity - 1) := by
    simp [History.capacity]
  simp only [History.commit, history, kept, dropped, commit, List.rtake, List.append_nil]
  rw [List.drop_append_of_le_length (Nat.sub_le _ _)]
  simp

/-- Going back is undone by going forth. -/
theorem forth?_back? {t earlier : Timeline} (moved : t.back? = some earlier) :
    earlier.forth? = some t := by
  obtain ⟨rows, last, rfl⟩ := Option.map_eq_some_iff.mp moved
  obtain ⟨front, past⟩ := List.getLast?_eq_some_iff.mp last
  cases t
  simp_all [forth?]

/-- Turns several times, as long as there is a place to go to. -/
def travel (turn : Timeline → Option Timeline) : Nat → Timeline → Option Timeline
  | 0, t => some t
  | count + 1, t => (turn t).bind (travel turn count)

theorem travel_succ (turn : Timeline → Option Timeline) (count : Nat) (t : Timeline) :
    t.travel turn (count + 1) = (t.travel turn count).bind turn := by
  induction count generalizing t with
  | zero => simp [travel]
  | succ count ih =>
    rw [travel, travel, Option.bind_assoc]
    congr
    funext next
    exact ih next

theorem travel_forth_back {t earlier : Timeline} {count : Nat}
    (moved : t.travel back? count = some earlier) : earlier.travel forth? count = some t := by
  induction count generalizing t with
  | zero =>
    cases moved
    rfl
  | succ count ih =>
    obtain ⟨before, first, rest⟩ := Option.bind_eq_some_iff.mp moved
    rw [travel_succ, ih rest]
    exact forth?_back? first

theorem length_history (t : Timeline) :
    t.history.snapshots.length = t.past.length + 1 + t.future.length := by
  simp only [history, List.length_append, List.length_singleton]

/-- There is room in the history for all rows. -/
def Fits (t : Timeline) : Prop := t.past.length + 1 + t.future.length ≤ History.capacity

theorem start_fits (rows : List Row) : (start rows).Fits := Nat.le_add_left 1 99

theorem commit_fits (t : Timeline) (rows : List Row) : (t.commit rows).Fits := by
  simp only [Fits, commit, List.rtake, List.length_drop, List.length_append, List.length_nil,
    History.capacity]
  omega

theorem Fits.back {t earlier : Timeline} (fits : t.Fits) (moved : t.back? = some earlier) :
    earlier.Fits := by
  obtain ⟨rows, last, rfl⟩ := Option.map_eq_some_iff.mp moved
  obtain ⟨front, past⟩ := List.getLast?_eq_some_iff.mp last
  simp only [Fits, past, List.length_append, List.dropLast_concat, List.length_cons,
    List.length_nil] at fits ⊢
  omega

theorem Fits.forth {t next : Timeline} (fits : t.Fits) (moved : t.forth? = some next) :
    next.Fits := by
  unfold forth? at moved
  split at moved
  · cases moved
  next future =>
    cases moved
    simp only [Fits, future, List.length_append, List.length_cons, List.length_nil] at fits ⊢
    omega

end Timeline

namespace Document

/-- Asks for a change of the rows or the cursor. -/
def Request.isEdit : Request → Bool
  | .operation .commit | .operation .undo | .operation .redo | .operation .resetHistory => false
  | _ => true

section Kept

variable {d after : Document}

theorem history_dropExcess (d : Document) : d.dropExcess.history = d.history := by
  unfold dropExcess
  split <;> rfl

theorem history_ensureRow (d : Document) : d.ensureRow.history = d.history := by
  unfold ensureRow
  split <;> rfl

theorem history_setCursor (d : Document) (x y : Int) (appending : Bool) :
    (d.setCursor x y appending).history = d.history := by
  fun_cases setCursor d x y appending with
  | case1 _ grown =>
    simp only [grown]
    split <;> rfl
  | case2 => rfl
  | case3 => rfl
  | case4 => rfl
  | case5 => rfl

theorem insertCell_history {cell : Cell} (inserted : d.insertCell cell = .ok after) :
    after.history = d.history := by
  rw [insertCell] at inserted
  split at inserted
  · cases inserted
  · cases inserted
    rw [history_dropExcess]
    split <;> rfl

theorem history_eraseRow (d : Document) (y : Int) : (d.eraseRow y).history = d.history := by
  fun_cases eraseRow d y <;> rfl

theorem erase_history (erased : d.erase = .ok after) : after.history = d.history := by
  revert erased
  fun_cases erase d with
  | case1 | case2 | case5 | case6 =>
    rintro ⟨⟩
    rfl
  | case3 =>
    rintro ⟨⟩
    exact history_eraseRow d _
  | case4 =>
    intro failed
    cases failed

theorem addRow_history {y : Int} {row : Row} (added : d.addRow y row = .ok after) :
    after.history = d.history := by
  unfold addRow at added
  split at added
  · cases added
    rfl
  · cases added

theorem insertToken_history {token : String} {chance : Chance}
    (inserted : ((d.insertToken token).run chance).1.2 = .ok after) : after.history = d.history :=
  (insertCell_history inserted).trans d.history_ensureRow

theorem insertTokens_history (d : Document) (tokens : List String) (chance : Chance) :
    ((d.insertTokens tokens).run chance).1.2.history = d.history := by
  induction tokens generalizing d chance with
  | nil => rfl
  | cons token rest ih =>
    rcases inserted : (d.insertToken token).run chance with ⟨⟨term, e | next⟩, later⟩
    · simp only [insertTokens, StateT.run_bind, inserted]
      exact d.history_ensureRow
    · have kept : next.history = d.history :=
        insertToken_history (congrArg (fun answer => answer.1.2) inserted)
      rw [insertTokens_cons inserted, ← kept, ← ih next later]
      rcases (next.insertTokens rest).run later with ⟨⟨e | last, after⟩, latest⟩ <;> rfl

theorem perform_history {operation : Operation}
    (edit : Request.isEdit (.operation operation) = true) {chance later : Chance}
    (performed : (d.perform operation).run chance = (.ok after, later)) :
    after.history = d.history := by
  cases operation with
  | insert token => exact insertToken_history (congrArg Prod.fst performed)
  | erase => exact erase_history (congrArg Prod.fst performed)
  | setCursor x y appending =>
    cases performed
    exact history_setCursor d x y appending
  | addRow y => exact addRow_history (congrArg Prod.fst performed)
  | commit | undo | redo | resetHistory => cases edit

theorem respond_history {request : Request} (edit : request.isEdit = true) {chance later : Chance}
    {answer : Answer} (responded : (d.respond request).run chance = (.ok (answer, after), later)) :
    after.history = d.history := by
  cases request with
  | generate choose m maxTerms =>
    rw [respond_generate] at responded
    obtain ⟨tokens, earlier, same⟩ := d.generate_inserts choose m maxTerms chance
    rw [same] at responded
    obtain rfl := (Prod.mk.inj (Except.ok.inj (Prod.mk.inj responded).1)).2
    exact insertTokens_history d tokens earlier
  | operation operation =>
    cases operation with
    | addRow y =>
      rw [respond_addRow] at responded
      rcases added : d.addRow y [] with e | next
      · rw [added] at responded
        cases responded
        rfl
      · rw [added] at responded
        cases responded
        exact addRow_history added
    | insert | erase | setCursor =>
      rw [respond_operation (by simp)] at responded
      split at responded
      next performed =>
        cases responded
        exact perform_history edit performed
      next => cases responded
    | commit | undo | redo | resetHistory => cases edit

end Kept

/-- A document that keeps its history as a timeline. -/
structure Draft where
  rows : List Row
  cursor : Cursor := {}
  timeline : Timeline

namespace Draft

def document (z : Draft) : Document := ⟨z.rows, z.cursor, z.timeline.history⟩

/-- Goes to the rows of another time, if there is one. -/
def goTo (z : Draft) : Option Timeline → Answer × Draft
  | none => (.moved false, z)
  | some t => (.moved true, { rows := t.current, timeline := t })

def respond (z : Draft) : Request → Editing (Answer × Draft)
  | .operation .commit => return (.done, { z with timeline := z.timeline.commit z.rows })
  | .operation .undo => return z.goTo z.timeline.back?
  | .operation .redo => return z.goTo z.timeline.forth?
  | .operation .resetHistory => return (.done, { z with timeline := .start z.rows })
  | edit => do
    let (answer, d) ← z.document.respond edit
    return (answer, { z with rows := d.rows, cursor := d.cursor })

end Draft

theorem restoreIf_found {rows there : List Row} {cursor : Cursor} {snapshots : List (List Row)}
    {now index : Nat} (found : snapshots[index]? = some there) :
    (Document.mk rows cursor ⟨snapshots, now⟩).restoreIf true index =
      .ok (true, ⟨there, {}, ⟨snapshots, index⟩⟩) := by
  simp [restoreIf, restore, found, Except.map]

theorem undo_document (z : Draft) :
    z.document.undo.map (fun (moved, d) => (Answer.moved moved, d)) =
      .ok (Prod.map id Draft.document (z.goTo z.timeline.back?)) := by
  obtain ⟨rows, cursor, past, current, future⟩ := z
  rcases List.eq_nil_or_concat' past with rfl | ⟨front, last, rfl⟩
  · rfl
  · have found : (front ++ [last] ++ [current] ++ future)[front.length]? = some last := by simp
    have possible :
        (History.mk (front ++ [last] ++ [current] ++ future) (front ++ [last]).length).canUndo =
        true := by
      simp [History.canUndo]
    have index : (front ++ [last]).length - 1 = front.length := by simp
    rw [undo]
    simp only [Draft.document, Timeline.history, possible, index]
    rw [restoreIf_found found]
    simp [Timeline.back?, Draft.goTo, Draft.document, Timeline.history, Except.map]

theorem redo_document (z : Draft) :
    z.document.redo.map (fun (moved, d) => (Answer.moved moved, d)) =
      .ok (Prod.map id Draft.document (z.goTo z.timeline.forth?)) := by
  obtain ⟨rows, cursor, past, current, future⟩ := z
  cases future with
  | nil =>
    have impossible : (History.mk (past ++ [current] ++ []) past.length).canRedo = false := by
      simp [History.canRedo]
    rw [redo]
    simp only [Draft.document, Timeline.history, impossible]
    rfl
  | cons next rest =>
    have found : (past ++ [current] ++ next :: rest)[past.length + 1]? = some next := by simp
    have possible : (History.mk (past ++ [current] ++ next :: rest) past.length).canRedo =
        true := by
      simp [History.canRedo]
    rw [redo]
    simp only [Draft.document, Timeline.history, possible]
    rw [restoreIf_found found]
    simp [Timeline.forth?, Draft.goTo, Draft.document, Timeline.history, Except.map]

namespace Draft

theorem respond_edit (z : Draft) {edit : Request} (isEdit : edit.isEdit = true) :
    z.respond edit = do
      let (answer, d) ← z.document.respond edit
      return (answer, { z with rows := d.rows, cursor := d.cursor }) := by
  cases edit with
  | generate choose m maxTerms => rfl
  | operation operation => cases operation <;> first | rfl | cases isEdit

/-- An edit of a draft is that edit of its document: the document keeps its history. -/
theorem edit_document (z : Draft) {edit : Request} (isEdit : edit.isEdit = true) :
    z.document.respond edit = Prod.map id document <$> z.respond edit := by
  funext chance
  change (z.document.respond edit).run chance = (Prod.map id document <$> z.respond edit).run chance
  rw [respond_edit z isEdit, map_eq_pure_bind, bind_assoc, Exec.run_bind]
  rcases responded : (z.document.respond edit).run chance with ⟨e | ⟨answer, after⟩, later⟩
  · rfl
  · have kept : z.timeline.history = after.history := (respond_history isEdit responded).symm
    change _ = (Except.ok (answer, Document.mk after.rows after.cursor z.timeline.history), later)
    rw [kept]

theorem respond_document (z : Draft) (request : Request) :
    z.document.respond request = Prod.map id document <$> z.respond request := by
  cases request with
  | generate choose m maxTerms => exact z.edit_document rfl
  | operation operation =>
    cases operation with
    | insert token => exact z.edit_document rfl
    | erase => exact z.edit_document rfl
    | setCursor x y appending => exact z.edit_document rfl
    | addRow y => exact z.edit_document rfl
    | commit =>
      have committed : z.document.commit =
          { z with timeline := z.timeline.commit z.rows }.document := by
        simp [Document.commit, document, Timeline.history_commit]
      change (pure (.done, z.document.commit) : Editing (Answer × Document)) = _
      rw [committed]
      rfl
    | undo =>
      rw [Document.respond, undo_document]
      rfl
    | redo =>
      rw [Document.respond, redo_document]
      rfl
    | resetHistory => rfl

end Draft

theorem Draft.converse_document (z : Draft) (requests : List Request) (chance : Chance) :
    (converse Document.respond z.document requests).run chance =
      match (converse respond z requests).run chance with
      | (.ok (answers, after), later) => (.ok (answers, after.document), later)
      | (.error e, later) => (.error e, later) := by
  rw [converse_map respond_document, map_eq_pure_bind, Exec.run_bind]
  rcases (converse respond z requests).run chance with ⟨e | ⟨answers, after⟩, later⟩ <;> rfl

/-- Rounds of edits, with an operation after each. -/
def rounds (operation : Operation) (edits : List (List Request)) : List Request :=
  edits.flatMap fun round => round ++ [.operation operation]

namespace Draft

variable {z after : Draft} {chance later : Chance} {answer : Answer} {answers : List Answer}

/-- The rows are those that were committed or gone to last. -/
def Settled (z : Draft) : Prop := z.rows = z.timeline.current

theorem respond_edit_keeps {edit : Request} (isEdit : edit.isEdit = true)
    (responded : (z.respond edit).run chance = (.ok (answer, after), later)) :
    after.timeline = z.timeline ∧ ∀ moved, answer ≠ .moved moved := by
  rw [respond_edit z isEdit] at responded
  obtain ⟨⟨answer, d⟩, middle, responded, same⟩ := Exec.run_bind_ok_iff.mp responded
  cases same
  refine ⟨rfl, ?_⟩
  rintro moved rfl
  cases edit with
  | generate choose m maxTerms => cases responded
  | operation operation =>
    cases operation with
    | addRow y =>
      rw [respond_addRow] at responded
      rcases added : z.document.addRow y [] with e | next <;> rw [added] at responded <;>
        cases responded
    | insert | erase | setCursor =>
      rw [respond_operation (by simp)] at responded
      split at responded <;> cases responded
    | commit | undo | redo | resetHistory => cases isEdit

theorem edits_keep {edits : List Request} (isEdit : ∀ edit ∈ edits, edit.isEdit = true)
    (conversed : (converse respond z edits).run chance = (.ok (answers, after), later)) :
    after.timeline = z.timeline ∧ ∀ moved, .moved moved ∉ answers := by
  induction edits generalizing z chance answers with
  | nil =>
    cases conversed
    exact ⟨rfl, fun moved => List.not_mem_nil⟩
  | cons edit rest ih =>
    obtain ⟨answer, next, middle, more, responded, rested, rfl⟩ := converse_cons_iff.mp conversed
    obtain ⟨kept, still⟩ := respond_edit_keeps (isEdit edit List.mem_cons_self) responded
    obtain ⟨rest, stillMore⟩ :=
      ih (fun edit member => isEdit edit (List.mem_cons_of_mem _ member)) rested
    refine ⟨rest.trans kept, ?_⟩
    intro moved member
    rcases List.mem_cons.mp member with same | member
    · exact still moved same.symm
    · exact stillMore moved member

/-- Rounds of edits that each end with a turn of the timeline. Either there is a place to go to
every time, and the draft is there in the end, or some turn is refused. -/
theorem rounds_travel {operation : Operation} {turn : Timeline → Option Timeline}
    (turns : ∀ z : Draft, z.respond (.operation operation) = pure (z.goTo (turn z.timeline)))
    {edits : List (List Request)} (isEdit : ∀ round ∈ edits, ∀ edit ∈ round, edit.isEdit = true)
    (conversed :
      (converse respond z (rounds operation edits)).run chance = (.ok (answers, after), later)) :
    (.moved false ∉ answers ∧ z.timeline.travel turn edits.length = some after.timeline ∧
        ((edits = [] → z.Settled) → after.Settled)) ∨
      (.moved false ∈ answers ∧ z.timeline.travel turn edits.length = none) := by
  induction edits generalizing z chance answers with
  | nil =>
    cases conversed
    exact .inl ⟨List.not_mem_nil, rfl, fun settled => settled rfl⟩
  | cons round rest ih =>
    rw [rounds, List.flatMap_cons, List.append_assoc] at conversed
    obtain ⟨front, edited, middle, _, begun, turning, rfl⟩ := converse_append_iff.mp conversed
    obtain ⟨answer, next, _, more, turned, ended, rfl⟩ := converse_cons_iff.mp turning
    obtain ⟨kept, still⟩ := edits_keep (isEdit round List.mem_cons_self) begun
    have rested := ih (fun round member => isEdit round (List.mem_cons_of_mem _ member)) ended
    rw [turns] at turned
    rw [List.length_cons, Timeline.travel, ← kept]
    cases there : turn edited.timeline with
    | none =>
      rw [there] at turned
      cases turned
      exact .inr ⟨by simp, rfl⟩
    | some t =>
      rw [there] at turned
      cases turned
      rcases rested with ⟨moving, reached, settled⟩ | ⟨refused, missing⟩
      · refine .inl ⟨?_, reached, fun _ => settled fun _ => rfl⟩
        simp [still, moving]
      · refine .inr ⟨by simp [refused], missing⟩

theorem goTo_fits (fits : z.timeline.Fits) {there : Option Timeline}
    (fit : ∀ t, there = some t → t.Fits) (gone : z.goTo there = (answer, after)) :
    after.timeline.Fits := by
  cases there with
  | none =>
    cases gone
    exact fits
  | some t =>
    cases gone
    exact fit t rfl

theorem respond_fits {request : Request} (fits : z.timeline.Fits)
    (responded : (z.respond request).run chance = (.ok (answer, after), later)) :
    after.timeline.Fits := by
  by_cases isEdit : request.isEdit = true
  · rw [(respond_edit_keeps isEdit responded).1]
    exact fits
  · cases request with
    | generate choose m maxTerms => exact absurd rfl isEdit
    | operation operation =>
      cases operation with
      | insert | erase | setCursor | addRow => exact absurd rfl isEdit
      | commit =>
        cases responded
        exact Timeline.commit_fits _ _
      | undo =>
        exact goTo_fits fits (fun t => fits.back) (Except.ok.inj (congrArg Prod.fst responded))
      | redo =>
        exact goTo_fits fits (fun t => fits.forth) (Except.ok.inj (congrArg Prod.fst responded))
      | resetHistory =>
        cases responded
        exact Timeline.start_fits _

/-- A draft of rows, with these rows as its only committed ones. -/
def ofRows (rows : List Row) : Draft := { rows := rows, timeline := .start rows }

def conversation (rows : List (List String)) (requests : List Request) :
    Editing (List Answer × Draft) := do
  let d ← ofTokens rows
  converse respond (ofRows d.rows) requests

end Draft

theorem converse_draft {z : Draft} {requests : List Request} {chance later : Chance}
    {answers : List Answer} {after : Document}
    (conversed :
      (converse respond z.document requests).run chance = (.ok (answers, after), later)) :
    ∃ y : Draft, (converse Draft.respond z requests).run chance = (.ok (answers, y), later) ∧
      y.document = after := by
  rw [Draft.converse_document] at conversed
  split at conversed
  next drafted =>
    cases conversed
    exact ⟨_, drafted, rfl⟩
  next => cases conversed

/-- After a commit and turns back that all succeed, as many turns forth succeed and bring the
committed rows back. -/
theorem rounds_return {z : Draft} (steady : z.document.Steady) {back forth : List (List Request)}
    (isEdit : ∀ round ∈ back ++ forth, ∀ edit ∈ round, edit.isEdit = true)
    (same : back.length = forth.length) {chance middle : Chance} {answers : List Answer}
    {earlier : Document}
    (conversed : (converse respond z.document (.operation .commit :: rounds .undo back)).run
      chance = (.ok (answers, earlier), middle)) (moving : .moved false ∉ answers) :
    ∃ answers last latest, (converse respond earlier (rounds .redo forth)).run middle =
      (.ok (answers, last), latest) ∧
      .moved false ∉ answers ∧ last.rows = z.rows := by
  obtain ⟨_, _, _, unique, steady⟩ :=
    converse_steady steady (.operation .commit :: rounds .undo back) chance
  cases unique.symm.trans conversed
  obtain ⟨answers, last, latest, returned, -⟩ := converse_steady steady (rounds .redo forth) middle
  refine ⟨answers, last, latest, returned, ?_⟩
  obtain ⟨y, drafted, rfl⟩ := converse_draft conversed
  obtain ⟨w, redrafted, rfl⟩ := converse_draft returned
  obtain ⟨_, _, _, _, committed, undone, rfl⟩ := converse_cons_iff.mp drafted
  cases committed
  have isBack := fun round member => isEdit round (List.mem_append_left forth member)
  have isForth := fun round member => isEdit round (List.mem_append_right back member)
  rcases Draft.rounds_travel (fun z => rfl) isBack undone with ⟨-, gone, settled⟩ | ⟨refused, -⟩
  · have home := Timeline.travel_forth_back gone
    rw [same] at home
    rcases Draft.rounds_travel (fun z => rfl) isForth redrafted
      with ⟨moving, reached, settledAgain⟩ | ⟨-, missing⟩
    · rw [home] at reached
      have rows : w.rows = w.timeline.current := settledAgain fun _ => settled fun _ => rfl
      refine ⟨moving, ?_⟩
      change w.rows = z.rows
      rw [rows, ← Option.some.inj reached]
      rfl
    · rw [home] at missing
      cases missing
  · exact absurd (List.mem_cons_of_mem _ refused) moving

/-- Whatever is asked of a document, a draft gives the same answers, and its timeline is the history
of the document: the rows before, the current ones and those to come, with room for a hundred in
all. After a commit, as many turns forth as there were turns back bring the committed rows back,
with any edits between the turns. -/
theorem history_zipper (rows : List (List String)) (requests : List Request) (chance : Chance) :
    ∃ answers z later,
      (Draft.conversation rows requests).run chance = (.ok (answers, z), later) ∧
      (conversation rows requests).run chance = (.ok (answers, z.document), later) ∧
      z.document.history.snapshots = z.timeline.past ++ [z.timeline.current] ++ z.timeline.future ∧
      z.document.history.index = z.timeline.past.length ∧
      1 ≤ z.document.history.snapshots.length ∧ z.document.history.snapshots.length ≤ 100 ∧
      ∀ back forth, (∀ round ∈ back ++ forth, ∀ edit ∈ round, edit.isEdit = true) →
        back.length = forth.length →
        ∀ answers earlier middle,
          (converse respond z.document (.operation .commit :: rounds .undo back)).run later =
              (.ok (answers, earlier), middle) → .moved false ∉ answers →
            ∃ answers last latest,
              (converse respond earlier (rounds .redo forth)).run middle =
                (.ok (answers, last), latest) ∧
                .moved false ∉ answers ∧ last.rows = z.rows := by
  obtain ⟨answers, after, later, conversed, steady⟩ :=
    converse_steady (ofTokens_steady rows chance) requests ((ofTokens rows).run chance).2
  obtain ⟨z, drafted, rfl⟩ :=
    converse_draft (z := Draft.ofRows ((ofTokens rows).run chance).1.rows) conversed
  have fits := converse_keeps Draft.respond_fits (Timeline.start_fits _) drafted
  refine ⟨answers, z, later, drafted, conversed, rfl, rfl, ?_, ?_, ?_⟩
  · rw [Draft.document, Timeline.length_history]
    omega
  · rw [Draft.document, Timeline.length_history]
    exact fits
  · intro back forth isEdit same answers earlier middle undone moving
    exact rounds_return steady isEdit same undone moving

/-- Two turns back and two forth, with edits between them, after a second row was opened and
committed. -/
theorem history_zipper_rowOpened :
    ∃ answers earlier middle,
      (converse respond ⟨[[], []], ⟨0, 1⟩, ⟨[[[]], [[]]], 1⟩⟩ (.operation .commit ::
          rounds .undo [[], [.operation .erase]])).run default = (.ok (answers, earlier), middle) ∧
        .moved false ∉ answers ∧
        ∃ answers last latest, (converse respond earlier
            (rounds .redo [[.operation (.addRow 0)], []])).run middle =
              (.ok (answers, last), latest) ∧
          .moved false ∉ answers ∧ last.rows = [[], []] := by
  obtain ⟨answers, z, later, drafted, conversed, -, -, -, -, home⟩ := history_zipper [[]]
    [.operation .commit, .operation (.setCursor 0 1 true)] default
  cases drafted
  obtain ⟨answers, last, latest, returned, moving, rows⟩ := home [[], [.operation .erase]]
    [[.operation (.addRow 0)], []] (by simp [Request.isEdit]) rfl _ _ _ rfl (by simp)
  exact ⟨_, _, _, rfl, by simp, answers, last, latest, returned, moving, rows⟩

end Document

end Termwise
