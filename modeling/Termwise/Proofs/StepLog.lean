import Mathlib.Computability.RegularExpressions
import Termwise.Proofs.FlowStack
import Termwise.Proofs.StepCap

/-! The step log as a path through the program. A run writes an entry for each line it comes to, and
after it one for the jump that ended the line and one for the loop that started over. So the log
tells, entry by entry, where the run was, where it went on, and how many steps it took. -/
namespace Termwise

variable {σ : Type}

namespace Rule

open RegularExpression in
/-- The rules of one line: it is executed, it may end in a jump, and a loop may start over after
it. -/
def visit : RegularExpression Rule := char .line * (1 + char .jump) * (1 + char .loop)

open RegularExpression in
/-- The rules of a run: one line after the other, and the mark of the cap at the end. -/
def wholeRun : RegularExpression Rule := visit.star * (1 + char .halt)

theorem visits_append {w v : List Rule} (whole : w ∈ visit.star.matches')
    (more : v ∈ visit.matches') : w ++ v ∈ visit.star.matches' := by
  rw [RegularExpression.matches'_star] at whole ⊢
  rw [← Language.one_add_kstar_mul_self_eq_kstar]
  exact .inr (Language.append_mem_mul whole more)

/-- The rules of a log, by the last of them: whole visits, and a visit that may still go on. -/
inductive Reads : Option Rule → List Rule → Prop where
  | start : Reads none []
  | line {w : List Rule} : w ∈ visit.star.matches' → Reads (some .line) (w ++ [.line])
  | jump {w : List Rule} : w ∈ visit.star.matches' → Reads (some .jump) (w ++ [.line, .jump])
  | loop {w : List Rule} : w ∈ visit.star.matches' → Reads (some .loop) w
  | halt {w : List Rule} : w ∈ visit.star.matches' → Reads (some .halt) (w ++ [.halt])

namespace Reads

variable {last : Option Rule} {rules : List Rule}

theorem whole (reads : Reads last rules) (going : last ≠ some .halt) :
    rules ∈ visit.star.matches' := by
  cases reads with
  | start => exact Language.nil_mem_kstar _
  | line visits => exact visits_append visits ((visit.rmatch_iff_matches' _).mp (by decide))
  | jump visits => exact visits_append visits ((visit.rmatch_iff_matches' _).mp (by decide))
  | loop visits => exact visits
  | halt => exact absurd rfl going

theorem again (reads : Reads last rules) (unfinished : last = some .line ∨ last = some .jump) :
    Reads (some .loop) (rules ++ [.loop]) := by
  apply loop
  cases reads with
  | line visits =>
    rw [List.append_assoc]
    exact visits_append visits ((visit.rmatch_iff_matches' _).mp (by decide))
  | jump visits =>
    rw [List.append_assoc]
    exact visits_append visits ((visit.rmatch_iff_matches' _).mp (by decide))
  | start | loop | halt => simp at unfinished

theorem mem_wholeRun (reads : Reads last rules) : rules ∈ wholeRun.matches' := by
  by_cases stopped : last = some .halt
  · subst stopped
    cases reads with
    | halt visits => exact Language.append_mem_mul visits (.inr rfl)
  · have unstopped : [] ∈ (1 + RegularExpression.char Rule.halt).matches' := .inl rfl
    have joined := Language.append_mem_mul (reads.whole stopped) unstopped
    rwa [List.append_nil] at joined

end Reads

end Rule

namespace Entry

/-- The line on which a run goes on after an entry. -/
def onward (e : Entry) : Nat := if e.rule = .line then e.pc + 1 else e.pc

/-- The entry leads out of a program of the given length. -/
def leaves (length : Nat) (e : Entry) : Bool :=
  match e.rule with
  | .line => e.pc + 1 = length
  | .jump => e.pc = length
  | .loop | .halt => false

theorem rule_of_leaves {length : Nat} {e : Entry} (leaves : e.leaves length = true) :
    e.rule = .line ∨ e.rule = .jump := by
  unfold Entry.leaves at leaves
  cases rule : e.rule with
  | line => exact .inl rfl
  | jump => exact .inr rfl
  | loop | halt => simp [rule] at leaves

end Entry

namespace Trace

/-- The entries that stand next to one another, in order. -/
def neighbours (t : Trace) : List (Entry × Entry) := t.entries.zip t.entries.tail

/-- The log tells the path of a run with a given result. -/
structure Faithful (lines : List Line) (result : Result) (t : Trace) : Prop where
  numbered : ∀ (i : Nat) (e : Entry), t.entries[i]? = some e → e.index = i
  reads : t.entries.map Entry.rule ∈ Rule.wholeRun.matches'
  halts : (∃ e ∈ t.entries, e.rule = .halt) ↔ result.halted = true
  visits : ∀ e ∈ t.entries, e.rule = .line → ∃ line, lines[e.pc]? = some line ∧
    e.indent = line.indent
  first : ∀ e, (t.entries.find? fun e => e.rule = .line) = some e → e.pc = 0
  follows : ∀ e next, (e, next) ∈ t.neighbours → next.rule = .line →
    next.pc = if e.rule = .line then e.pc + 1 else e.pc
  loops : ∀ e ∈ t.entries, e.rule = .loop → ∃ line, lines[e.pc]? = some line ∧ line.Calls .loop
  jumps : ∀ e ∈ t.entries, e.rule = .jump → e.pc ≤ lines.length
  steps : result.steps = (t.entries.countP fun e => e.rule = .line) +
    t.neighbours.countP fun pair => pair.2.rule = .loop && !pair.1.leaves lines.length

/-- What an entry can say after the entry before it, and how many steps it counts for. A loop that
starts over at the end of the program belongs to the step of the line that led there. -/
inductive Follows (lines : List Line) : Option Entry → Entry → Nat → Prop where
  | line {before : Option Entry} {e : Entry} {line : Line} :
      e.rule = .line → (∀ b ∈ before, b.rule ≠ .halt) →
      e.pc = before.elim 0 Entry.onward → lines[e.pc]? = some line → e.indent = line.indent →
      Follows lines before e 1
  | jump {b e : Entry} : e.rule = .jump → b.rule = .line → e.pc ≤ lines.length →
      Follows lines (some b) e 0
  | loop {b e : Entry} {line : Line} : e.rule = .loop → b.rule = .line ∨ b.rule = .jump →
      lines[e.pc]? = some line → line.Calls .loop →
      Follows lines (some b) e (if b.leaves lines.length then 0 else 1)
  | halt {before : Option Entry} {e : Entry} : e.rule = .halt → (∀ b ∈ before, b.rule ≠ .halt) →
      Follows lines before e 0

/-- Entries in order, each of which can follow the one before it, and the steps they count for. -/
inductive Path (lines : List Line) : List Entry → Nat → Prop where
  | start : Path lines [] 0
  | snoc {entries : List Entry} {n k : Nat} {e : Entry} :
      Path lines entries n → e.index = entries.length →
      Follows lines entries.getLast? e k → Path lines (entries ++ [e]) (n + k)

variable {lines : List Line} {entries : List Entry} {before : Option Entry}
  {b e : Entry} {n k : Nat}

theorem Follows.not_halt (follows : Follows lines before e k) : ∀ b ∈ before, b.rule ≠ .halt := by
  cases follows with
  | line _ going => exact going
  | halt _ going => exact going
  | jump _ rule =>
    rintro b ⟨⟩
    simp [rule]
  | loop _ rule =>
    rintro b ⟨⟩
    rcases rule with rule | rule <;> simp [rule]

/-- Where an entry that goes on leads past the program, it is one that leaves it. -/
theorem Follows.leaves (follows : Follows lines before e k) (going : e.rule ≠ .halt)
    (outside : lines.length ≤ e.onward) : e.leaves lines.length = true := by
  unfold Entry.onward at outside
  unfold Entry.leaves
  cases follows with
  | halt rule => exact absurd rule going
  | line rule _ _ found _ =>
    have inside := (List.getElem?_eq_some_iff.mp found).1
    simp only [rule, if_true] at outside ⊢
    exact decide_eq_true (by omega)
  | jump rule _ bound =>
    simp only [rule, reduceCtorEq, if_false] at outside ⊢
    exact decide_eq_true (by omega)
  | loop rule _ found _ =>
    have inside := (List.getElem?_eq_some_iff.mp found).1
    simp only [rule, reduceCtorEq, if_false] at outside
    omega

theorem zip_tail_append_singleton {α : Type} (items : List α) (a : α) :
    (items ++ [a]).zip (items ++ [a]).tail =
      items.zip items.tail ++ (items.getLast?.map fun b => (b, a)).toList := by
  induction items with
  | nil => rfl
  | cons b rest ih =>
    cases rest with
    | nil => rfl
    | cons c rest => simpa [List.getLast?_cons_cons] using ih

namespace Path

theorem numbered (path : Path lines entries n) (i : Nat) (e : Entry)
    (found : entries[i]? = some e) : e.index = i := by
  induction path with
  | start => simp at found
  | @snoc entries n k last path index _ ih =>
    rw [List.getElem?_append] at found
    split at found
    next old => exact ih found
    next new =>
      obtain ⟨place, rfl⟩ := List.getElem?_eq_some_iff.mp found
      rw [List.length_singleton] at place
      simp only [List.getElem_singleton, index]
      omega

/-- What an entry says does not change when others follow. -/
theorem follows (path : Path lines entries n) (member : e ∈ entries) :
    ∃ before k, Follows lines before e k := by
  induction path with
  | start => cases member
  | snoc path _ follows ih =>
    rcases List.mem_append.mp member with old | new
    · exact ih old
    · obtain rfl := List.mem_singleton.mp new
      exact ⟨_, _, follows⟩

theorem not_halt (path : Path lines entries n) (going : ∀ b ∈ entries.getLast?, b.rule ≠ .halt) :
    ∀ e ∈ entries, e.rule ≠ .halt := by
  induction path with
  | start => simp
  | snoc path _ follows ih =>
    intro e member
    rcases List.mem_append.mp member with old | new
    · exact ih follows.not_halt e old
    · obtain rfl := List.mem_singleton.mp new
      exact going e (by simp)

/-- Only the mark of the cap can stand in a log without lines. -/
theorem first (path : Path lines entries n) :
    (∀ e, (entries.find? fun e => e.rule = .line) = some e → e.pc = 0) ∧
      ((entries.find? fun e => e.rule = .line) = none →
        ∀ b ∈ entries.getLast?, b.rule = .halt) := by
  induction path with
  | start => simp
  | @snoc entries n k last path _ follows ih =>
    obtain ⟨first, without⟩ := ih
    rw [List.find?_append]
    cases earlier : entries.find? fun e => e.rule = .line with
    | some found =>
      refine ⟨?_, fun none_found => nomatch none_found⟩
      rintro e ⟨⟩
      exact first found earlier
    | none =>
      have ended := without earlier
      generalize entries.getLast? = before at follows ended
      cases follows with
      | line rule going here =>
        obtain rfl : before = none := by
          cases before with
          | none => rfl
          | some b => exact absurd (ended b rfl) (going b rfl)
        simpa [rule] using here
      | jump _ rule => simp [ended _ rfl] at rule
      | loop _ rule => simp [ended _ rfl] at rule
      | halt rule => simp [rule]

/-- A line is where the entry before it leads. -/
theorem successors (path : Path lines entries n) (e next : Entry)
    (pair : (e, next) ∈ entries.zip entries.tail) (rule : next.rule = .line) :
    next.pc = e.onward := by
  induction path with
  | start => simp at pair
  | snoc path _ follows ih =>
    rw [zip_tail_append_singleton] at pair
    rcases List.mem_append.mp pair with old | new
    · exact ih old
    · simp only [Option.mem_toList, Option.map_eq_some_iff, Prod.mk.injEq] at new
      obtain ⟨b, last, rfl, rfl⟩ := new
      rw [last] at follows
      cases follows with
      | line _ _ here => exact here
      | jump other | loop other | halt other => simp [rule] at other

theorem steps_eq (path : Path lines entries n) :
    n = (entries.countP fun e => e.rule = .line) +
      (entries.zip entries.tail).countP fun pair => pair.2.rule =
        .loop && !pair.1.leaves lines.length := by
  induction path with
  | start => rfl
  | @snoc entries n k last path _ follows ih =>
    rw [zip_tail_append_singleton, List.countP_append, List.countP_append]
    generalize entries.getLast? = before at follows ⊢
    cases follows with
    | line rule =>
      cases before <;> simp [rule] <;> omega
    | jump rule =>
      simp [rule]
      omega
    | @loop b _ _ rule =>
      cases leaves : b.leaves lines.length <;> simp [rule, leaves] <;> omega
    | halt rule =>
      cases before <;> simp [rule] <;> omega

theorem reads (path : Path lines entries n) :
    Rule.Reads (entries.getLast?.map Entry.rule) (entries.map Entry.rule) := by
  induction path with
  | start => exact .start
  | @snoc entries n k last path _ follows ih =>
    rw [List.getLast?_append, List.map_append]
    generalize entries.getLast? = before at follows ih
    cases follows with
    | line rule going =>
      simpa [rule] using Rule.Reads.line (ih.whole (by cases before <;> simp_all))
    | jump rule earlier =>
      simp only [Option.map_some, earlier] at ih
      generalize entries.map Entry.rule = rules at ih ⊢
      cases ih with
      | line visits => simpa [rule] using Rule.Reads.jump visits
    | loop rule earlier =>
      simpa [rule] using ih.again (by simpa using earlier)
    | halt rule going =>
      simpa [rule] using Rule.Reads.halt (ih.whole (by cases before <;> simp_all))

end Path

variable {t : Trace} {last : Option Entry} {result : Result}

theorem entries_record (t : Trace) (pc : Nat) (indent : Option Nat) (rule : Rule)
    (registers : Option Registers) :
    (t.record pc indent rule registers).entries =
      t.entries ++ [⟨t.next, pc, indent, rule, registers⟩] := by
  simp [Trace.entries, Trace.record]

/-- The log is a path of `n` steps with a given last entry. -/
structure Tells (lines : List Line) (n : Nat) (last : Option Entry) (t : Trace) : Prop where
  path : Path lines t.entries n
  next : t.next = t.entries.length
  ends : t.entries.getLast? = last

namespace Tells

theorem record {pc : Nat} {indent : Option Nat} {rule : Rule} {registers : Option Registers}
    (tells : t.Tells lines n last)
    (follows : Follows lines last ⟨t.next, pc, indent, rule, registers⟩ k) :
    (t.record pc indent rule registers).Tells lines (n + k)
      (some ⟨t.next, pc, indent, rule, registers⟩) := by
  obtain ⟨path, next, rfl⟩ := tells
  constructor
  · rw [entries_record]
    exact path.snoc next follows
  · rw [entries_record]
    simp [Trace.record, next]
  · rw [entries_record]
    simp

theorem follows (tells : t.Tells lines n (some b)) : ∃ before k, Follows lines before b k :=
  tells.path.follows (List.mem_of_getLast? tells.ends)

theorem faithful (tells : t.Tells lines result.steps last)
    (stopped : (∃ b ∈ last, b.rule = .halt) ↔ result.halted = true) : t.Faithful lines result := by
  obtain ⟨path, -, rfl⟩ := tells
  constructor
  · exact path.numbered
  · exact path.reads.mem_wholeRun
  · rw [← stopped]
    constructor
    · rintro ⟨e, member, rule⟩
      by_contra going
      exact path.not_halt (fun b last rule => going ⟨b, last, rule⟩) e member rule
    · rintro ⟨b, last, rule⟩
      exact ⟨b, List.mem_of_getLast? last, rule⟩
  · intro e member rule
    obtain ⟨before, k, follows⟩ := path.follows member
    cases follows with
    | line _ _ _ found indent => exact ⟨_, found, indent⟩
    | jump other | loop other | halt other => simp [rule] at other
  · exact path.first.1
  · exact path.successors
  · intro e member rule
    obtain ⟨before, k, follows⟩ := path.follows member
    cases follows with
    | loop _ _ found called => exact ⟨_, found, called⟩
    | line other | jump other | halt other => simp [rule] at other
  · intro e member rule
    obtain ⟨before, k, follows⟩ := path.follows member
    cases follows with
    | jump _ _ bound => exact bound
    | line other | loop other | halt other => simp [rule] at other
  · exact path.steps_eq

end Tells

end Trace

namespace Machine

variable {setup : Setup σ} {line : Line} {settled : Bool} {n : Nat}
  {last : Option Entry} {b : Entry} {s t u : Machine σ}

/-- The entry that a machine writes. -/
def entry (setup : Setup σ) (indent : Option Nat) (rule : Rule) (s : Machine σ) : Entry :=
  ⟨s.trace.next, s.pc, indent, rule, if setup.verbose then some s.registers else none⟩

theorem tells_log (tracing : setup.tracing = true) {indent : Option Nat} {rule : Rule} {k : Nat}
    (tells : s.trace.Tells setup.lines n last)
    (follows : Trace.Follows setup.lines last (entry setup indent rule s) k) :
    (log setup indent rule s).trace.Tells setup.lines (n + k)
      (some (entry setup indent rule s)) := by
  rw [log, if_pos tracing]
  exact tells.record follows

/-- The log of a machine in a run leads to where the machine is. Only after a line can the next one
be less indented than the line before. -/
structure Traced (lines : List Line) (n : Nat) (last : Option Entry) (s : Machine σ) : Prop where
  tells : s.trace.Tells lines n last
  going : ∀ b ∈ last, b.rule ≠ .halt
  here : s.pc = last.elim 0 Entry.onward
  dedents : ∀ i, dedents i s.previous = true → ∃ b, last = some b ∧ b.rule = .line

theorem reaches_of_after? (reached : after? setup n s = some t) : Reaches setup s t := by
  induction n generalizing s with
  | zero =>
    cases reached
    exact .refl
  | succ n ih =>
    obtain ⟨u, ticked, later⟩ := ticks_of_after? reached
    exact .head ticked (ih later)

/-- A loop that starts over is logged, and counts for a step unless the program has been left. -/
theorem restart_traced (tracing : setup.tracing = true) (indent : Option Nat)
    (tells : s.trace.Tells setup.lines n (some b)) (earlier : b.rule = .line ∨ b.rule = .jump)
    (calls : ∃ line, setup.lines[s.pc]? = some line ∧ line.Calls .loop) :
    ∃ last, Traced setup.lines (n + if b.leaves setup.lines.length then 0 else 1) last
      (restart setup indent s) := by
  obtain ⟨line, found, called⟩ := calls
  refine ⟨some (entry setup indent .loop { s with previous := none }), ?_, ?_, ?_, ?_⟩
  · exact tells_log tracing tells (.loop rfl earlier found called)
  · rintro _ ⟨⟩
    simp [entry]
  · simp [entry, Entry.onward]
  · intro i dedent
    simp [dedents_none] at dedent

theorem enter_traced (tracing : setup.tracing = true) (found : setup.lines[s.pc]? = some line)
    (indented : ∀ e ∈ line.calls, ∃ level, line.indent = some level)
    (orderly : Orderly setup.lines s.pc s.blocks) (tells : s.trace.Tells setup.lines n last)
    (going : ∀ b ∈ last, b.rule ≠ .halt) (here : s.pc = last.elim 0 Entry.onward)
    (entered : enter setup line settled s = (.ok (), t)) :
    ∃ last, Traced setup.lines (n + 1) last t := by
  obtain ⟨e, rule, place, written⟩ : ∃ e : Entry, e.rule = .line ∧ e.pc = s.pc ∧
      (log setup line.indent .line { s with settled := false }).trace.Tells setup.lines
        (n + 1) (some e) :=
    ⟨_, rfl, rfl, tells_log tracing tells (.line rfl going here found rfl)⟩
  have record := execute_keeps_record setup line settled
    (log setup line.indent .line { s with settled := false })
  have executing :
      Executing setup.lines s.pc (log setup line.indent .line { s with settled := false }) :=
    ⟨pc_log .., by rwa [blocks_log]⟩
  have moves := execute_keeps settled found indented executing
  obtain ⟨w, ran, rfl⟩ | ⟨w, ran, rfl⟩ := enter_cases entered
  · obtain ⟨-, -, trace⟩ := record.value _ _ ran
    obtain ⟨-, pc, -⟩ := moves.value _ _ ran
    rw [← trace] at written
    refine ⟨some e, written, ?_, ?_, ?_⟩
    · rintro _ ⟨⟩
      simp [rule]
    · simp [Entry.onward, rule, place, pc]
    · intro i _
      exact ⟨e, rfl, rule⟩
  · obtain ⟨-, trace⟩ := record.interrupt _ _ ran rfl
    obtain ⟨-, bound, -⟩ := moves.interrupt _ _ ran
    rw [← trace] at written
    refine ⟨some (entry setup line.indent .jump { w with previous := none }), ?_, ?_, ?_, ?_⟩
    · exact tells_log (n := n + 1) (s := { w with previous := none }) tracing written
        (.jump rfl rule bound)
    · rintro _ ⟨⟩
      simp [entry]
    · simp [entry, Entry.onward]
    · intro i dedent
      simp [dedents_none] at dedent

theorem stepLine_traced (tracing : setup.tracing = true) (found : setup.lines[s.pc]? = some line)
    (indented : ∀ e ∈ line.calls, ∃ level, line.indent = some level) (sound : Sound setup.lines s)
    (traced : Traced setup.lines n last s) (stepped : stepLine setup line s = (.ok (), t)) :
    ∃ last, Traced setup.lines (n + 1) last t := by
  obtain ⟨v, dedent, closed, step⟩ | ⟨settled, v, before, step⟩ := stepLine_cases setup line s
  · obtain ⟨-, rfl⟩ := Prod.mk.inj (step.symm.trans stepped)
    obtain ⟨b, rfl, rule⟩ := traced.dedents _ dedent
    have trace : v.trace = s.trace := by simpa [closed] using trace_close line.indent s
    have calls := (closesLoop_of_close closed).calls_loop sound.orderly
    -- The line before was not the last one, since the machine is on the line after it.
    have stays : b.leaves setup.lines.length = false := by
      have inside := sound.inside
      rw [traced.here] at inside
      simp only [Option.elim_some, Entry.onward, rule, if_true] at inside
      simp only [Entry.leaves, rule]
      exact decide_eq_false (by omega)
    have restarted := restart_traced (s := { v with settled := false }) tracing line.indent
      (trace ▸ traced.tells) (.inl rule) calls
    simpa [stays] using restarted
  · have same : v.pc = s.pc ∧ v.trace = s.trace ∧ Orderly setup.lines s.pc v.blocks := by
      rcases before with rfl | closed
      · exact ⟨rfl, rfl, sound.orderly⟩
      · obtain ⟨block, stack, -, -, same⟩ := close_done closed
        refine ⟨by rw [same], by rw [same], ?_⟩
        exact sound.orderly.sublist (stack ▸ List.sublist_cons_self block v.blocks)
    obtain ⟨pc, trace, orderly⟩ := same
    exact enter_traced tracing (pc ▸ found) indented (pc ▸ orderly) (trace ▸ traced.tells)
      traced.going (pc.trans traced.here) (step.symm.trans stepped)

theorem ticks_traced (tracing : setup.tracing = true)
    (indented : ∀ line ∈ setup.lines, ∀ e ∈ line.calls, ∃ level, line.indent = some level)
    (sound : Sound setup.lines s) (traced : Traced setup.lines s.steps last s)
    (ticked : Ticks setup s u) : ∃ last, Traced setup.lines u.steps last u := by
  rw [ticks_steps ticked]
  obtain ⟨line, t, found, stepped, next⟩ := ticks_cases ticked
  have calls := indented line (List.mem_of_getElem? found)
  obtain ⟨after, written⟩ := stepLine_traced tracing found calls sound traced stepped
  rcases next with ⟨inside, rfl⟩ | ⟨outside, v, closed, rfl⟩
  · exact ⟨after, written.tells, written.going, written.here, written.dedents⟩
  · have orderly : Orderly setup.lines t.pc t.blocks := by
      rcases stepLine_sound found calls sound stepped with ⟨inside, -⟩ | ⟨-, -, orderly⟩
      · exact absurd inside.inside (Nat.not_lt.mpr outside)
      · exact orderly
    have trace : v.trace = t.trace := by
      simpa [closed] using trace_close (some 0) { t with steps := t.steps + 1 }
    rw [written.here] at outside
    cases after with
    | none => exact absurd sound.inside (Nat.not_lt.mpr (outside.trans (Nat.zero_le _)))
    | some b =>
      -- The loop belongs to the step that has led out of the program.
      obtain ⟨before, k, follows⟩ := written.tells.follows
      have leaves := follows.leaves (written.going b rfl) outside
      have restarted := restart_traced (s := v) tracing (some 0) (trace ▸ written.tells)
        (Entry.rule_of_leaves leaves) ((closesLoop_of_close closed).calls_loop orderly)
      simpa [leaves] using restarted

theorem reaches_traced (tracing : setup.tracing = true)
    (indented : ∀ line ∈ setup.lines, ∀ e ∈ line.calls, ∃ level, line.indent = some level)
    (sound : Sound setup.lines s) (traced : Traced setup.lines s.steps last s)
    (path : Reaches setup s t) : ∃ last, Traced setup.lines t.steps last t := by
  induction path with
  | refl => exact ⟨last, traced⟩
  | tail earlier ticked ih =>
    obtain ⟨last, traced⟩ := ih
    exact ticks_traced tracing indented (reaches_sound indented sound earlier) traced ticked

/-- The log of a run that gives a result tells its path. -/
theorem loop_faithful (tracing : setup.tracing = true)
    (indented : ∀ line ∈ setup.lines, ∀ e ∈ line.calls, ∃ level, line.indent = some level)
    (sound : Sound setup.lines s) (traced : Traced setup.lines s.steps last s) {cap : Nat}
    {result : Result} (ran : loop setup cap s = (.ok result, u)) :
    u.trace.Faithful setup.lines result := by
  obtain ⟨t, reached, same⟩ | ⟨m, t, -, reached, ended⟩ := loop_cases ran
  · obtain ⟨rfl, rfl⟩ := Prod.mk.inj same
    obtain ⟨last, traced⟩ := reaches_traced tracing indented sound traced
      (reaches_of_after? reached)
    have written : (log setup none .halt t).trace.Tells setup.lines t.steps
        (some (entry setup none .halt t)) :=
      tells_log (n := t.steps) tracing traced.tells (.halt rfl traced.going)
    exact written.faithful ⟨fun _ => rfl, fun _ => ⟨_, rfl, rfl⟩⟩
  · obtain ⟨last, traced⟩ := reaches_traced tracing indented sound traced
      (reaches_of_after? reached)
    have inside := reaches_sound indented sound (reaches_of_after? reached)
    obtain ⟨line, v, found, stepped, -, rfl, -⟩ := tick_ends ended
    obtain rfl := tick_ends_steps ended
    have calls := indented line (List.mem_of_getElem? found)
    obtain ⟨after, written⟩ := stepLine_traced tracing found calls inside traced stepped
    rw [trace_close]
    refine Trace.Tells.faithful written.tells ?_
    constructor
    · rintro ⟨b, last, rule⟩
      exact absurd rule (written.going b last)
    · intro halted
      cases halted

end Machine

/-- The step log of a run is a faithful path: its entries are numbered from zero, their rules read
as lines with their jumps and loops and the mark of the cap at the end, each line is where the entry
before it leads, loops go back to loop keywords, and lines and loops add up to the steps. -/
theorem Session.trace_faithful (rows : List (List Term)) (content : rows ≠ []) (setup : Setup σ)
    (program : setup.lines = Program.ofTerms rows) (tracing : setup.tracing = true) (maxSteps : Int)
    (s : Session σ) (result : Result) (ran : (s.run setup maxSteps).1 = .ok result) :
    (s.run setup maxSteps).2.trace.Faithful setup.lines result := by
  have lines : setup.lines ≠ [] := by simpa [program, Program.ofTerms] using content
  have indented : ∀ line ∈ setup.lines, ∀ e ∈ line.calls, ∃ level, line.indent = some level := by
    intro line member e called
    exact Program.indented (program ▸ member) called
  have traced : Machine.Traced setup.lines (s.start setup).steps none (s.start setup) := by
    have empty : (s.start setup).trace = {} := by rw [start, if_pos tracing]
    refine ⟨?_, ?_, ?_, ?_⟩
    · rw [empty, start_steps]
      exact ⟨.start, rfl, rfl⟩
    · simp
    · simp
    · intro i dedent
      cases i <;> simp [Machine.dedents] at dedent
  rw [run_of_content setup lines] at ran ⊢
  exact Machine.loop_faithful tracing indented (start_sound lines s) traced (Prod.ext ran rfl)

/-- The countdown to its end, and stopped by the cap after the second call. -/
theorem Session.trace_faithful_countdown :
    (fromTwo.run .countdown 20).2.trace.Faithful Setup.countdown.lines ⟨8, false⟩ ∧
      (fromTwo.run .countdown 20).2.trace.entries.map Entry.rule =
        [.line, .line, .loop, .line, .line, .loop, .line, .jump, .line] ∧
      (fromTwo.run .countdown 5).2.trace.Faithful Setup.countdown.lines ⟨5, true⟩ ∧
      (fromTwo.run .countdown 5).2.trace.entries.map Entry.rule =
        [.line, .line, .loop, .line, .line, .halt] := by
  have finished : (fromTwo.run .countdown 20).1 = .ok ⟨8, false⟩ :=
    Except.eq_ok_of_toOption (by decide +kernel)
  have stopped : (fromTwo.run .countdown 5).1 = .ok ⟨5, true⟩ :=
    Except.eq_ok_of_toOption (by decide +kernel)
  refine ⟨?_, by decide +kernel, ?_, by decide +kernel⟩
  · exact trace_faithful _ (List.cons_ne_nil _ _) .countdown rfl rfl 20 fromTwo _ finished
  · exact trace_faithful _ (List.cons_ne_nil _ _) .countdown rfl rfl 5 fromTwo _ stopped

end Termwise
