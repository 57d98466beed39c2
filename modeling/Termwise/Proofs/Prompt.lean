import Mathlib.Data.List.TakeWhile
import Termwise.CommandLine.Repl
import Termwise.Proofs.Faults
import Termwise.Proofs.TokenRows
import Termwise.Proofs.Wildcards

/-! The prompt cuts its input into programs. What it runs is told by a grammar of the lines alone:
lines that only show something aside, a program is a line by itself or a block of lines that a blank
line ends, and a reset discards the block that is open. The programs are run in order on one
console, so registers last from each to the next. -/
namespace Termwise.CommandLine

/-- What the prompt does on a console. -/
inductive Action where
  | run (text : String)
  | reset
  /-- Uses digits up and does nothing else. A program that is only shown does so for its
  wildcards. -/
  | draw (count : Nat)

def Action.isDraw : Action → Bool
  | .draw _ => true
  | _ => false

namespace Console

/-- The console after so many digits more. -/
def after (c : Console) (count : Nat) : Console :=
  { c with session := { c.session with
      host := { c.session.host with chance := c.session.host.chance.after count } } }

theorem compile_after (c : Console) (text : String) :
    (c.compile text).2 = c.after ((Source.tokenize text).flatten.map Term.drawn).sum := by
  have drawn := Term.state_parseRows (Source.tokenize text) c.session.host.chance
  exact congrArg (fun chance =>
    { c with session := { c.session with host := { c.session.host with chance := chance } } })
    drawn

def perform (c : Console) : Action → Except Fault Unit × Console
  | .run text =>
    let (lines, c) := c.compile text
    let ran := c.session.run ⟨lines, c.bridge, c.tracing, c.verbose⟩ c.maxSteps
    (ran.1.map fun _ => (), { c with session := ran.2 })
  | .reset =>
    (.ok (),
      { c with session := { c.session with
        registers := .zeros c.session.registers.values.length } })
  | .draw count => (.ok (), c.after count)

/-- Performs actions in order, up to the first that fails. -/
def performAll : Console → List Action → Except Fault Unit × Console
  | c, [] => (.ok (), c)
  | c, action :: rest =>
    match c.perform action with
    | (.error f, c) => (.error f, c)
    | (.ok _, c) => c.performAll rest

theorem performAll_append (c : Console) (first second : List Action) :
    c.performAll (first ++ second) =
      match c.performAll first with
      | (.error f, c) => (.error f, c)
      | (.ok _, c) => c.performAll second := by
  induction first generalizing c with
  | nil => rfl
  | cons action rest ih =>
    rw [List.cons_append, performAll, performAll]
    rcases c.perform action with ⟨f | _, next⟩
    · rfl
    · exact ih next

theorem bridge_perform (c : Console) (action : Action) :
    (c.perform action).2.bridge = c.bridge := by
  cases action <;> rfl

/-- An action fails only where the host does, when a run uses it. -/
theorem perform_error {c next : Console} {action : Action} {f : Fault}
    (failed : c.perform action = (.error f, next)) :
    c.bridge.Ends (fun _ => True) (fun _ => True) f next.session.host := by
  cases action with
  | run text =>
    let compiled := (c.compile text).2
    let setup : Setup Host.World := ⟨(c.compile text).1, compiled.bridge, compiled.tracing,
      compiled.verbose⟩
    have program :
        setup.lines = Program.ofTerms
        (Term.parseRows (Source.tokenize text) c.session.host.chance).1 := rfl
    have performed : c.perform (.run text) =
        ((compiled.session.run setup compiled.maxSteps).1.map fun _ => (),
          { compiled with session := (compiled.session.run setup compiled.maxSteps).2 }) := rfl
    rcases outcome : compiled.session.run setup compiled.maxSteps with ⟨g | result, session⟩
    · rw [performed, outcome] at failed
      cases failed
      exact (Session.run_error program outcome).mono (fun _ _ => trivial) fun _ _ => trivial
    · rw [performed, outcome] at failed
      cases failed
  | reset => cases failed
  | draw count => cases failed

theorem performAll_ok {c : Console} (answers : c.bridge.Answers) (actions : List Action) :
    (c.performAll actions).1 = .ok () := by
  induction actions generalizing c with
  | nil => rfl
  | cons action rest ih =>
    have kept := c.bridge_perform action
    rw [performAll]
    rcases performed : c.perform action with ⟨f | _, next⟩
    · exact absurd (perform_error performed) answers.not_ends
    · rw [performed] at kept
      exact ih (kept ▸ answers)

end Console

namespace Repl

/-- A line of blanks alone. -/
def IsBlank (line : String) : Prop := ∀ c ∈ line.toList, Text.isBlank c = true

instance (line : String) : Decidable (IsBlank line) := List.decidableBAll _ _

/-- A line that is a command, apart from blanks around it. -/
def isCommand (command line : String) : Bool := String.ofList (Text.trim line.toList) == command

/-- The lines that show something and run nothing. -/
def shows (line : String) : Bool := isCommand ":registers" line || isCommand ":render" line

def resets (line : String) : Bool := isCommand ":reset" line

/-- A line that is indented, or whose first word is a flow keyword. -/
def Opens (line : String) : Prop :=
  line.toList.head? = some ' ' ∨ line.toList.head? = some '\t' ∨
    ∃ f : Flow, (Text.words line.toList).head? = some f.word.toList

/-- The lines of a block, up to the line that ends it. -/
structure IsBlock (block : List String) : Prop where
  opened : ∃ first rest, block = first :: rest ∧ Opens first
  content : ∀ line ∈ block, ¬IsBlank line ∧ resets line = false

/-- How lines, none of which shows something, are cut into what the prompt does: a blank line
outside a block is passed over, a line that opens no block is a program, and lines from one that
opens a block on are a program when a blank line follows; a reset, or the end of the input, leaves
them out. -/
inductive Segmented : List String → List Action → Prop where
  | done : Segmented [] []
  | blank {line : String} {rest : List String} {actions : List Action} (blank : IsBlank line)
    (later : Segmented rest actions) : Segmented (line :: rest) actions
  | single {line : String} {rest : List String} {actions : List Action} (content : ¬IsBlank line)
    (plain : resets line = false) (alone : ¬Opens line) (later : Segmented rest actions) :
    Segmented (line :: rest) (.run line :: actions)
  | block {block : List String} {line : String} {rest : List String} {actions : List Action}
      (lines : IsBlock block)
    (blank : IsBlank line) (later : Segmented rest actions) :
    Segmented (block ++ line :: rest) (.run ("\n".intercalate block) :: actions)
  | reset {line : String} {rest : List String} {actions : List Action} (reset : resets line = true)
    (later : Segmented rest actions) : Segmented (line :: rest) (.reset :: actions)
  | discarded {block : List String} {line : String} {rest : List String} {actions : List Action}
      (lines : IsBlock block)
    (reset : resets line = true) (later : Segmented rest actions) :
    Segmented (block ++ line :: rest) (.reset :: actions)
  | unfinished {block : List String} (lines : IsBlock block) : Segmented block []

section Requests

variable {line : String}

theorem trim_eq_nil_iff : Text.trim line.toList = [] ↔ IsBlank line := by
  rw [Text.trim, Text.trimBy, List.reverse_eq_nil_iff, List.dropWhile_eq_nil_iff]
  simp only [List.mem_reverse]
  constructor
  · intro rest c member
    rw [← List.takeWhile_append_dropWhile (p := Text.isBlank) (l := line.toList)] at member
    rcases List.mem_append.mp member with front | back
    · exact List.all_eq_true.mp List.all_takeWhile c front
    · exact rest c back
  · intro blank c member
    exact blank c ((List.dropWhile_suffix _).mem member)

/-- What a line asks for, command by command. -/
theorem request_eq (isOpen : Bool) (line : String) :
    request isOpen line =
      if isCommand ":registers" line then .showRegisters
      else if isCommand ":reset" line then .resetRegisters
      else if isCommand ":render" line then .renderBuffer
      else if Text.trim line.toList = [] then (if isOpen then .runBuffer else .ignore)
      else if isOpen || opensBlock line.toList then .collect
      else .runLine := by
  unfold request isCommand
  dsimp only
  split
  next same => simp [same]
  next same => simp [same]
  next same => simp [same]
  next noRegisters noReset noRender =>
    simp only [beq_iff_eq]
    rw [if_neg noRegisters, if_neg noReset, if_neg noRender]

theorem isCommand_of_other {command other : String} (here : isCommand command line = true)
    (differ : command ≠ other) : isCommand other line = false := by
  rw [isCommand, beq_iff_eq] at here
  rw [isCommand, here, beq_eq_false_iff_ne]
  exact differ

theorem isCommand_of_blank (blank : IsBlank line) {command : String} (content : command ≠ "") :
    isCommand command line = false := by
  rw [isCommand, trim_eq_nil_iff.mpr blank, beq_eq_false_iff_ne]
  exact content.symm

theorem request_shows (shown : shows line = true) (isOpen : Bool) :
    request isOpen line = if isCommand ":render" line then .renderBuffer else .showRegisters := by
  rw [request_eq]
  rcases Bool.or_eq_true_iff.mp shown with registers | render
  · simp [registers, isCommand_of_other registers]
  · simp [render, isCommand_of_other render]

theorem request_render_iff (isOpen : Bool) (line : String) :
    request isOpen line = .renderBuffer ↔ isCommand ":render" line = true := by
  constructor
  · intro asked
    rw [request_eq] at asked
    split at asked
    · cases asked
    split at asked
    · cases asked
    split at asked
    next render => exact render
    split at asked
    · split at asked <;> cases asked
    · split at asked <;> cases asked
  · intro render
    rw [request_shows (by simp [shows, render]), if_pos render]

theorem request_resets (reset : resets line = true) (isOpen : Bool) :
    request isOpen line = .resetRegisters := by
  have here : isCommand ":reset" line = true := reset
  simp [request_eq, here, isCommand_of_other here]

theorem request_blank (blank : IsBlank line) (isOpen : Bool) :
    request isOpen line = if isOpen then .runBuffer else .ignore := by
  simp [request_eq, isCommand_of_blank blank, trim_eq_nil_iff.mpr blank]

theorem words_ne_nil (content : ¬IsBlank line) : Text.words line.toList ≠ [] := by
  intro none
  have kept := Text.flatten_words line.toList
  rw [none] at kept
  apply content
  intro c member
  have hidden := List.filter_eq_nil_iff.mp kept.symm c member
  simpa using hidden

theorem isSome_ofWord?_iff {word : List Char} :
    (Flow.ofWord? (String.ofList word)).isSome = true ↔ ∃ f : Flow, word = f.word.toList := by
  rw [Flow.ofWord?, List.find?_isSome]
  constructor
  · rintro ⟨f, -, same⟩
    exact ⟨f, by rw [of_decide_eq_true same, String.toList_ofList]⟩
  · rintro ⟨f, rfl⟩
    exact ⟨f, by cases f <;> decide, by simp⟩

theorem opensBlock_iff (content : ¬IsBlank line) : opensBlock line.toList = true ↔ Opens line := by
  obtain ⟨first, rest, words⟩ := List.exists_cons_of_ne_nil (words_ne_nil content)
  simp [opensBlock, Opens, words, isSome_ofWord?_iff, or_assoc]

theorem request_content (silent : shows line = false) (plain : resets line = false)
    (content : ¬IsBlank line) (isOpen : Bool) :
    request isOpen line = if isOpen || opensBlock line.toList then .collect else .runLine := by
  obtain ⟨noRegisters, noRender⟩ := Bool.or_eq_false_iff.mp silent
  have noReset : isCommand ":reset" line = false := plain
  simp [request_eq, noRegisters, noReset, noRender, trim_eq_nil_iff, content]

end Requests

/-- What a request does on the console. -/
def Request.actions (block : List String) (line : String) : Request → List Action
  | .resetRegisters => [.reset]
  | .renderBuffer => [.draw ((Source.tokenize ("\n".intercalate block)).flatten.map Term.drawn).sum]
  | .runLine => [.run line]
  | .runBuffer => [.run ("\n".intercalate block)]
  | .showRegisters | .collect | .ignore => []

/-- The block that is open after a request. -/
def Request.left (block : List String) (line : String) : Request → List String
  | .resetRegisters | .runBuffer => []
  | .collect => block ++ [line]
  | .showRegisters | .renderBuffer | .runLine | .ignore => block

/-- What the prompt does with lines while a block is open. -/
def transcript : List String → List String → List Action
  | _, [] => []
  | block, line :: rest =>
    let asked := request (!block.isEmpty) line
    asked.actions block line ++ transcript (asked.left block line) rest

/-- How lines end for the prompt, without what is shown. -/
def outcome (result : Except Fault String × Repl) : Except Fault Unit × Console :=
  (result.1.map fun _ => (), result.2.console)

theorem run_once (c : Console) (lines : List Line) :
    c.run lines 1 =
      ((c.session.run ⟨lines, c.bridge, c.tracing, c.verbose⟩ c.maxSteps).1.map some,
        { c with session := (c.session.run ⟨lines, c.bridge, c.tracing, c.verbose⟩
          c.maxSteps).2 }) := by
  rcases ran : c.session.run ⟨lines, c.bridge, c.tracing, c.verbose⟩ c.maxSteps
    with ⟨f | result, session⟩ <;> simp only [Console.run, Session.runTimes, ran, Except.map]

theorem runText_performs (r : Repl) (text : String) :
    outcome (r.runText text) = r.console.performAll [.run text] ∧
      (r.runText text).2.buffer = r.buffer := by
  simp only [runText, run_once, Console.performAll, Console.perform]
  generalize Session.run _ _ _ = ran
  rcases ran with ⟨f | result, session⟩ <;> exact ⟨rfl, rfl⟩

theorem reset_eq_zeros (r : Registers) : r.reset = .zeros r.values.length := by
  rw [Registers.reset, Registers.zeros, Int.toNat_natCast, List.map_const']

/-- One line: the console changes by what the line asks for, and the block by what it leaves. -/
theorem feed_performs (r : Repl) (line : String) :
    outcome (r.feed line) = r.console.performAll ((request (!r.buffer.isEmpty) line).actions
      r.buffer line) ∧
      (r.feed line).2.buffer = (request (!r.buffer.isEmpty) line).left r.buffer line := by
  unfold feed
  cases request (!r.buffer.isEmpty) line <;> dsimp only [Request.actions, Request.left]
  case showRegisters => exact ⟨rfl, rfl⟩
  case resetRegisters =>
    have zeroed := reset_eq_zeros r.console.session.registers
    refine ⟨?_, rfl⟩
    simp only [outcome, Session.reset, zeroed]
    rfl
  case renderBuffer =>
    exact ⟨congrArg (Except.ok (), ·) (r.console.compile_after r.bufferText), rfl⟩
  case runLine => exact runText_performs r line
  case runBuffer => exact runText_performs { r with buffer := [] } r.bufferText
  case collect => exact ⟨rfl, rfl⟩
  case ignore => exact ⟨rfl, rfl⟩

/-- All lines, one after another. -/
theorem feedAll_performs (r : Repl) (lines : List String) :
    outcome (feedAll r lines) = r.console.performAll (transcript r.buffer lines) := by
  induction lines generalizing r with
  | nil => rfl
  | cons line rest ih =>
    obtain ⟨performed, left⟩ := feed_performs r line
    rw [transcript, Console.performAll_append, ← performed, ← left]
    rw [feedAll]
    rcases r.feed line with ⟨f | shown, next⟩
    · rfl
    · refine Eq.trans ?_ (ih next)
      dsimp only
      rcases feedAll next rest with ⟨f | text, last⟩ <;> rfl

theorem countP_actions (block : List String) (line : String) (asked : Request) :
    (asked.actions block line).countP Action.isDraw = if asked = .renderBuffer then 1 else 0 := by
  cases asked <;> rfl

theorem countP_transcript (block lines : List String) :
    (transcript block lines).countP Action.isDraw = lines.countP (isCommand ":render") := by
  induction lines generalizing block with
  | nil => rfl
  | cons line rest ih =>
    rw [transcript, List.countP_append, ih, List.countP_cons, Nat.add_comm, countP_actions]
    simp only [request_render_iff]

theorem filter_actions (block : List String) (line : String) {asked : Request}
    (other : asked ≠ .renderBuffer) :
    (asked.actions block line).filter (!·.isDraw) = asked.actions block line := by
  cases asked with
  | renderBuffer => exact absurd rfl other
  | _ => rfl

/-- Without the lines that show something, the prompt does the same, except that it draws no digits
for them. -/
theorem transcript_silent (block lines : List String) :
    transcript block (lines.filter (!shows ·)) = (transcript block lines).filter (!·.isDraw) := by
  induction lines generalizing block with
  | nil => rfl
  | cons line rest ih =>
    cases shown : shows line with
    | true =>
      rw [List.filter_cons_of_neg (by simp [shown]), ih, transcript, request_shows shown]
      split <;> rfl
    | false =>
      have other : request (!block.isEmpty) line ≠ .renderBuffer := by
        rw [ne_eq, request_render_iff, (Bool.or_eq_false_iff.mp shown).2]
        exact Bool.false_ne_true
      rw [List.filter_cons_of_pos (by simp [shown]), transcript, transcript, List.filter_append, ih,
        filter_actions _ _ other]

section Segments

variable {block lines rest : List String} {line : String} {actions : List Action}

theorem IsBlock.isEmpty (lines : IsBlock block) : block.isEmpty = false := by
  obtain ⟨first, more, rfl, -⟩ := lines.opened
  rfl

theorem transcript_reset (reset : resets line = true) (block rest : List String) :
    transcript block (line :: rest) = .reset :: transcript [] rest := by
  rw [transcript, request_resets reset]
  rfl

theorem transcript_blank (blank : IsBlank line) (rest : List String) :
    transcript [] (line :: rest) = transcript [] rest := by
  rw [transcript, request_blank blank]
  rfl

theorem transcript_ended (lines : IsBlock block) (blank : IsBlank line) (rest : List String) :
    transcript block (line :: rest) = .run ("\n".intercalate block) :: transcript [] rest := by
  rw [transcript, request_blank blank, lines.isEmpty]
  rfl

theorem transcript_single (silent : shows line = false) (plain : resets line = false)
    (content : ¬IsBlank line) (alone : ¬Opens line) (rest : List String) :
    transcript [] (line :: rest) = .run line :: transcript [] rest := by
  have closed : opensBlock line.toList = false :=
    Bool.eq_false_iff.mpr (mt (opensBlock_iff content).mp alone)
  rw [transcript, request_content silent plain content, closed]
  rfl

theorem transcript_opened (silent : shows line = false) (plain : resets line = false)
    (content : ¬IsBlank line) (opens : Opens line) (rest : List String) :
    transcript [] (line :: rest) = transcript [line] rest := by
  rw [transcript, request_content silent plain content, (opensBlock_iff content).mpr opens]
  rfl

theorem transcript_collected (silent : shows line = false) (plain : resets line = false)
    (content : ¬IsBlank line) (lines : IsBlock block) (rest : List String) :
    transcript block (line :: rest) = transcript (block ++ [line]) rest := by
  rw [transcript, request_content silent plain content, lines.isEmpty]
  rfl

theorem isBlock_singleton (plain : resets line = false) (content : ¬IsBlank line)
    (opens : Opens line) : IsBlock [line] where
  opened := ⟨line, [], rfl, opens⟩
  content := by simp [content, plain]

theorem IsBlock.snoc (lines : IsBlock block) (plain : resets line = false)
    (content : ¬IsBlank line) : IsBlock (block ++ [line]) where
  opened := by
    obtain ⟨first, more, rfl, opens⟩ := lines.opened
    exact ⟨first, more ++ [line], rfl, opens⟩
  content := by
    rw [List.forall_mem_append]
    exact ⟨lines.content, by simp [content, plain]⟩

/-- Every list of lines, also behind an open block, is cut as the prompt cuts it. -/
theorem segmented_transcript (silent : ∀ line ∈ lines, shows line = false) :
    Segmented lines (transcript [] lines) ∧
      ∀ block, IsBlock block → Segmented (block ++ lines) (transcript block lines) := by
  -- Both at once: a line may open a block or end one, so each half needs the other for the lines
  -- that follow.
  induction lines with
  | nil =>
    refine ⟨.done, fun block lines => ?_⟩
    rw [List.append_nil]
    exact .unfinished lines
  | cons line rest ih =>
    obtain ⟨here, later⟩ := List.forall_mem_cons.mp silent
    obtain ⟨outside, inside⟩ := ih later
    by_cases blank : IsBlank line
    · refine ⟨?_, fun block lines => ?_⟩
      · rw [transcript_blank blank]
        exact .blank blank outside
      · rw [transcript_ended lines blank]
        exact .block lines blank outside
    cases reset : resets line with
    | true =>
      refine ⟨?_, fun block lines => ?_⟩
      · rw [transcript_reset reset]
        exact .reset reset outside
      · rw [transcript_reset reset]
        exact .discarded lines reset outside
    | false =>
      refine ⟨?_, fun block lines => ?_⟩
      · by_cases opens : Opens line
        · rw [transcript_opened here reset blank opens]
          exact inside [line] (isBlock_singleton reset blank opens)
        · rw [transcript_single here reset blank opens]
          exact .single blank reset opens outside
      · rw [transcript_collected here reset blank lines, List.append_cons]
        exact inside _ (lines.snoc reset blank)

/-- Lines of a block behind its first ones are collected. -/
theorem transcript_append (lines : IsBlock block) {more : List String}
    (content : ∀ line ∈ more, ¬IsBlank line ∧ resets line = false)
    (silent : ∀ line ∈ more, shows line = false) (rest : List String) :
    transcript block (more ++ rest) = transcript (block ++ more) rest := by
  induction more generalizing block with
  | nil => rw [List.nil_append, List.append_nil]
  | cons line more ih =>
    obtain ⟨⟨visible, plain⟩, content⟩ := List.forall_mem_cons.mp content
    obtain ⟨here, silent⟩ := List.forall_mem_cons.mp silent
    rw [List.cons_append, transcript_collected here plain visible lines,
      ih (lines.snoc plain visible) content silent, List.append_assoc, List.singleton_append]

theorem transcript_block (lines : IsBlock block) (silent : ∀ line ∈ block, shows line = false)
    (rest : List String) : transcript [] (block ++ rest) = transcript block rest := by
  obtain ⟨⟨first, more, rfl, opens⟩, content⟩ := lines
  obtain ⟨⟨visible, plain⟩, content⟩ := List.forall_mem_cons.mp content
  obtain ⟨here, silent⟩ := List.forall_mem_cons.mp silent
  rw [List.cons_append, transcript_opened here plain visible opens,
    transcript_append (isBlock_singleton plain visible opens) content silent, List.singleton_append]

/-- Lines are cut in one way only. -/
theorem Segmented.eq_transcript (segmented : Segmented lines actions)
    (silent : ∀ line ∈ lines, shows line = false) : actions = transcript [] lines := by
  induction segmented with
  | done => rfl
  | blank blank _ ih => rw [transcript_blank blank, ih (List.forall_mem_cons.mp silent).2]
  | single content plain alone _ ih =>
    obtain ⟨here, silent⟩ := List.forall_mem_cons.mp silent
    rw [transcript_single here plain content alone, ih silent]
  | block lines blank _ ih =>
    obtain ⟨inBlock, silent⟩ := List.forall_mem_append.mp silent
    rw [transcript_block lines inBlock, transcript_ended lines blank,
      ih (List.forall_mem_cons.mp silent).2]
  | reset reset _ ih => rw [transcript_reset reset, ih (List.forall_mem_cons.mp silent).2]
  | discarded lines reset _ ih =>
    obtain ⟨inBlock, silent⟩ := List.forall_mem_append.mp silent
    rw [transcript_block lines inBlock, transcript_reset reset,
      ih (List.forall_mem_cons.mp silent).2]
  | @unfinished block lines =>
    have through := transcript_block lines silent []
    rw [List.append_nil] at through
    rw [through]
    rfl

end Segments

/-- The prompt runs the programs that the grammar cuts its lines into, the lines aside that show
something, and resets the registers where the grammar says so, all in order and on one console. A
rendering in between changes nothing but how many digits have been drawn. A run that faults ends the
input; none does when the host answers every call and every read with a number. -/
theorem feedAll_segments (c : Console) (lines : List String) :
    ∃ actions,
      (∀ programs, Segmented (lines.filter (!shows ·)) programs ↔
        programs = actions.filter (!·.isDraw)) ∧
      actions.countP Action.isDraw = lines.countP (isCommand ":render") ∧
      outcome (feedAll ⟨c, []⟩ lines) = c.performAll actions ∧
      (c.bridge.Answers → (c.performAll actions).1 = .ok ()) := by
  have silent : ∀ line ∈ lines.filter (!shows ·), shows line = false := by
    intro line member
    simpa using (List.mem_filter.mp member).2
  refine ⟨transcript [] lines, fun programs => ?_, countP_transcript [] lines,
    feedAll_performs ⟨c, []⟩ lines,
    fun answers => Console.performAll_ok answers _⟩
  rw [← transcript_silent]
  constructor
  · intro segmented
    exact segmented.eq_transcript silent
  · rintro rfl
    exact (segmented_transcript silent).1

/-- A block with a rendering inside it that a blank line ends, an indented line that a reset
discards, and a block that is open at the end. -/
theorem feedAll_segments_mixed :
    let c : Console := ⟨{}, 100, false, false, { registers := .zeros 2, host := default }⟩
    let lines := ["=V0 1", "while < V0 3", ":render", "  ++V0", "", "  =V1 5", " :reset", "",
      "if 1", "=V1 2"]
    ∃ actions,
      actions.filter (!·.isDraw) = [.run "=V0 1", .run "while < V0 3\n  ++V0", .reset] ∧
      actions.countP Action.isDraw = 1 ∧
      outcome (feedAll ⟨c, []⟩ lines) = c.performAll actions ∧
      (c.performAll actions).1 = .ok () := by
  intro c lines
  obtain ⟨actions, segments, draws, performed, sound⟩ := feedAll_segments c lines
  have looped : IsBlock ["while < V0 3", "  ++V0"] :=
    ⟨⟨_, _, rfl, .inr (.inr ⟨.loop, by decide +kernel⟩)⟩, by decide +kernel⟩
  have indented : IsBlock ["  =V1 5"] := ⟨⟨_, _, rfl, .inl rfl⟩, by decide +kernel⟩
  have opened : IsBlock ["if 1", "=V1 2"] :=
    ⟨⟨_, _, rfl, .inr (.inr ⟨.when, by decide +kernel⟩)⟩, by decide +kernel⟩
  have visible : ¬IsBlank "=V0 1" := by decide +kernel
  have alone : ¬Opens "=V0 1" := mt (opensBlock_iff visible).mpr (by decide +kernel)
  have cut : Segmented ["=V0 1", "while < V0 3", "  ++V0", "", "  =V1 5", " :reset", "",
      "if 1", "=V1 2"] [.run "=V0 1", .run "while < V0 3\n  ++V0", .reset] :=
    .single visible (by decide) alone (.block looped (by decide)
      (.discarded indented (by decide) (.blank (by decide) (.unfinished opened))))
  have kept : lines.filter (!shows ·) =
      ["=V0 1", "while < V0 3", "  ++V0", "", "  =V1 5", " :reset", "", "if 1", "=V1 2"] := by
      decide +kernel
  exact ⟨actions, ((segments _).mp (kept ▸ cut)).symm, draws.trans (by decide +kernel), performed,
    sound ⟨fun _ _ _ => ⟨_, rfl⟩, fun _ _ => ⟨_, rfl⟩⟩⟩

end Repl

end Termwise.CommandLine
