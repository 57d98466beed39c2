import Termwise.Source

/-! Cutting a text that was put together. A text of words between blanks, of lines between breaks or
of pieces between marks is cut where it was joined, so the tokenizer finds the rows that a text was
laid out from. -/
namespace Termwise

namespace Text

variable {mark c : Char} {cs w : List Char}

theorem splitAt_of_not_mem (absent : mark ∉ cs) : splitAt mark cs = [cs] := by
  induction cs with
  | nil => rfl
  | cons c rest ih =>
    rw [splitAt, if_neg (fun same => absent (by simp [same])),
      ih (fun later => absent (by simp [later]))]

theorem splitAt_append (absent : mark ∉ cs) (rest : List Char) :
    splitAt mark (cs ++ mark :: rest) = cs :: splitAt mark rest := by
  induction cs with
  | nil => rw [List.nil_append, splitAt, if_pos rfl]
  | cons c more ih =>
    rw [List.cons_append, splitAt, if_neg (fun same => absent (by simp [same])),
      ih (fun later => absent (by simp [later]))]

/-- Characters that are not blank, at least one. -/
def IsWord (cs : List Char) : Prop := cs ≠ [] ∧ ∀ c ∈ cs, isBlank c = false

theorem isBreak_of_not_isBlank (visible : isBlank c = false) : isBreak c = false := by
  simp only [isBlank, isBreak, Bool.or_eq_false_iff, Bool.and_eq_false_iff, decide_eq_false_iff_not,
    beq_eq_false_iff_ne] at visible ⊢
  omega

theorem words_cons_blank (blank : isBlank c = true) (rest : List Char) :
    words (c :: rest) = words rest := by
  rw [words.eq_def]
  simp only [blank, if_true]

theorem words_single (visible : isBlank c = false) : words [c] = [[c]] := by
  rw [words.eq_def]
  simp [visible]

theorem words_cons_space (visible : isBlank c = false) (rest : List Char) :
    words (c :: ' ' :: rest) = [c] :: words rest := by
  rw [words.eq_def]
  simp [visible, words_cons_blank (c := ' ') rfl, show isBlank ' ' = true from rfl]

theorem words_cons_cons {next : Char} {rest : List Char} {first : List Char}
    {more : List (List Char)} (visible : isBlank c = false) (follows : isBlank next = false)
    (later : words (next :: rest) = first :: more) :
    words (c :: next :: rest) = (c :: first) :: more := by
  rw [words.eq_def]
  simp [visible, follows, later]

theorem words_word (word : IsWord w) : words w = [w] := by
  obtain ⟨content, visible⟩ := word
  induction w with
  | nil => exact absurd rfl content
  | cons c rest ih =>
    cases rest with
    | nil => exact words_single (visible c (by simp))
    | cons next more =>
      have later := ih (by simp) fun d member => visible d (List.mem_cons_of_mem c member)
      exact words_cons_cons (visible c (by simp)) (visible next (by simp)) later

theorem words_append (word : IsWord w) (rest : List Char) :
    words (w ++ ' ' :: rest) = w :: words rest := by
  obtain ⟨content, visible⟩ := word
  induction w with
  | nil => exact absurd rfl content
  | cons c more ih =>
    cases more with
    | nil => exact words_cons_space (visible c (by simp)) rest
    | cons next more =>
      have later := ih (by simp) fun d member => visible d (List.mem_cons_of_mem c member)
      exact words_cons_cons (visible c (by simp)) (visible next (by simp)) later

theorem words_intercalate {ws : List (List Char)} (word : ∀ w ∈ ws, IsWord w) :
    words ([' '].intercalate ws) = ws := by
  induction ws with
  | nil => rfl
  | cons w rest ih =>
    cases rest with
    | nil => rw [List.intercalate_singleton, words_word (word w (by simp))]
    | cons next more =>
      rw [List.intercalate_cons_cons, List.append_assoc, List.singleton_append,
        words_append (word w (by simp)), ih fun v member => word v (List.mem_cons_of_mem w member)]

theorem mem_intercalate {sep : Char} {pieces : List (List Char)}
    (member : c ∈ [sep].intercalate pieces) : c = sep ∨ ∃ piece ∈ pieces, c ∈ piece := by
  induction pieces with
  | nil => cases member
  | cons piece rest ih =>
    cases rest with
    | nil =>
      rw [List.intercalate_singleton] at member
      exact .inr ⟨piece, by simp, member⟩
    | cons next more =>
      rw [List.intercalate_cons_cons, List.append_assoc, List.mem_append, List.singleton_append,
        List.mem_cons] at member
      rcases member with here | rfl | later
      · exact .inr ⟨piece, by simp, here⟩
      · exact .inl rfl
      · refine (ih later).imp_right ?_
        rintro ⟨found, among, inside⟩
        exact ⟨found, List.mem_cons_of_mem piece among, inside⟩

theorem intercalate_head (sep : List Char) (c : Char) (cs : List Char) (rest : List (List Char)) :
    ∃ more, sep.intercalate ((c :: cs) :: rest) = c :: more := by
  cases rest with
  | nil => exact ⟨cs, List.intercalate_singleton⟩
  | cons next rest => exact ⟨_, List.intercalate_cons_cons⟩

theorem lines_cons (unbroken : isBreak c = false) (rest : List Char) :
    lines (c :: rest) =
      match lines rest with
      | [] => [[c]]
      | line :: more => (c :: line) :: more := by
  rw [lines]
  · exact if_neg (by simp [unbroken])
  · rintro _ rfl -
    cases unbroken

theorem lines_append (unbroken : ∀ c ∈ cs, isBreak c = false) (rest : List Char) :
    lines (cs ++ '\n' :: rest) = cs :: lines rest := by
  induction cs with
  | nil => rfl
  | cons c more ih =>
    rw [List.cons_append, lines_cons (unbroken c (by simp)), ih fun d member => unbroken d
      (List.mem_cons_of_mem c member)]

theorem lines_line (content : cs ≠ []) (unbroken : ∀ c ∈ cs, isBreak c = false) :
    lines cs = [cs] := by
  induction cs with
  | nil => exact absurd rfl content
  | cons c rest ih =>
    rw [lines_cons (unbroken c (by simp))]
    cases rest with
    | nil => rfl
    | cons next more => rw [ih (by simp) fun d member => unbroken d (List.mem_cons_of_mem c member)]

theorem lines_intercalate {rows : List (List Char)} (content : ∀ row ∈ rows, row ≠ [])
    (unbroken : ∀ row ∈ rows, ∀ c ∈ row, isBreak c = false) :
    lines (['\n'].intercalate rows) = rows := by
  induction rows with
  | nil => rfl
  | cons row rest ih =>
    have later := ih (fun r member => content r (List.mem_cons_of_mem row member))
      fun r member => unbroken r (List.mem_cons_of_mem row member)
    cases rest with
    | nil =>
      rw [List.intercalate_singleton, lines_line (content row (by simp)) (unbroken row (by simp))]
    | cons next more =>
      rw [List.intercalate_cons_cons, List.append_assoc, List.singleton_append,
        lines_append (unbroken row (by simp)), later]

end Text

namespace Source

/-- What the tokenizer makes tokens of. -/
def IsToken (token : String) : Prop := Text.IsWord token.toList ∧ commentMark ∉ token.toList

/-- The characters that tokens are made of. -/
def isTokenChar (c : Char) : Bool := !Text.isBlank c && c != commentMark

theorem isToken_iff {token : String} :
    IsToken token ↔ token ≠ "" ∧ token.toList.all isTokenChar = true := by
  have chars : (∀ c ∈ token.toList, isTokenChar c = true) ↔
      (∀ c ∈ token.toList, Text.isBlank c = false) ∧ commentMark ∉ token.toList := by
    constructor
    · intro solid
      refine ⟨fun c member => ?_, fun member => ?_⟩
      · simpa using (Bool.and_eq_true_iff.mp (solid c member)).1
      · exact absurd (solid commentMark member) (by decide)
    · rintro ⟨visible, uncommented⟩ c member
      have other : c ≠ commentMark := by
        rintro rfl
        exact uncommented member
      simp [isTokenChar, visible c member, other]
  rw [IsToken, Text.IsWord, List.all_eq_true, chars, and_assoc, ne_eq, ne_eq,
    String.toList_eq_nil_iff]

instance (token : String) : Decidable (IsToken token) :=
  decidable_of_iff (token ≠ "" ∧ token.toList.all isTokenChar = true) isToken_iff.symm

/-- Blanks that stand for levels of indentation, whatever word follows them. -/
structure Margin (levels : Nat) (cs : List Char) : Prop where
  blank : ∀ c ∈ cs, c = ' ' ∨ c = '\t'
  reads : ∀ {c}, Text.isBlank c = false →
    ∀ rest, indentation 0 (cs ++ c :: rest) = (levels, c :: rest)

theorem margin_nil : Margin 0 [] where
  blank := nofun
  reads {c} visible rest := by
    have notTab : c ≠ '\t' := by
      rintro rfl
      cases visible
    have notSpace : c ≠ ' ' := by
      rintro rfl
      cases visible
    simp [indentation, notTab, notSpace]

theorem Margin.spaces {levels : Nat} {cs : List Char} (margin : Margin levels cs) :
    Margin (levels + 1) (' ' :: ' ' :: cs) where
  blank := by simpa using margin.blank
  reads {c} visible rest := by simp [indentation, indentWidth, margin.reads visible rest]

theorem Margin.tab {levels : Nat} {cs : List Char} (margin : Margin levels cs) :
    Margin (levels + 1) ('\t' :: cs) where
  blank := by simpa using margin.blank
  reads {c} visible rest := by simp [indentation, margin.reads visible rest]

theorem margin_spaces (levels : Nat) :
    Margin levels (List.replicate (indentWidth * levels) ' ') := by
  induction levels with
  | zero => exact margin_nil
  | succ levels ih => exact ih.spaces

theorem margin_tabs (levels : Nat) : Margin levels (List.replicate levels '\t') := by
  induction levels with
  | zero => exact margin_nil
  | succ levels ih => exact ih.tab

theorem before_of_not_mem {mark : Char} {cs : List Char} (absent : mark ∉ cs) :
    Text.before mark cs = cs := by
  induction cs with
  | nil => rfl
  | cons c rest ih =>
    obtain ⟨here, later⟩ := not_or.mp (mt List.mem_cons.mpr absent)
    rw [Text.before, List.takeWhile_cons_of_pos (by simp [Ne.symm here])]
    exact congrArg (c :: ·) (ih later)

/-- Tokens with single spaces between them. -/
def joined (tokens : List String) : List Char := [' '].intercalate (tokens.map String.toList)

/-- A line of tokens behind a margin. -/
def layout (row : Nat × List String) : List Char :=
  List.replicate (indentWidth * row.1) ' ' ++ [' '].intercalate (row.2.map String.toList)

section Behind

variable {levels : Nat} {margin : List Char} {tokens : List String}

theorem chars_behind (blanks : Margin levels margin) (valid : ∀ token ∈ tokens, IsToken token) :
    ∀ c ∈ margin ++ joined tokens, c ≠ commentMark ∧ Text.isBreak c = false := by
  intro c member
  rcases List.mem_append.mp member with inMargin | body
  · rcases blanks.blank c inMargin with rfl | rfl <;> decide
  · rcases Text.mem_intercalate body with rfl | ⟨word, among, inside⟩
    · decide
    · obtain ⟨token, found, rfl⟩ := List.mem_map.mp among
      obtain ⟨⟨-, visible⟩, uncommented⟩ := valid token found
      refine ⟨?_, Text.isBreak_of_not_isBlank (visible c inside)⟩
      rintro rfl
      exact uncommented inside

theorem joined_eq_cons (content : tokens ≠ []) (valid : ∀ token ∈ tokens, IsToken token) :
    ∃ c rest, Text.isBlank c = false ∧ joined tokens = c :: rest := by
  cases tokens with
  | nil => exact absurd rfl content
  | cons first more =>
    obtain ⟨⟨nonempty, visible⟩, -⟩ := valid first (by simp)
    cases chars : first.toList with
    | nil => exact absurd chars nonempty
    | cons c cs =>
      obtain ⟨rest, starts⟩ := Text.intercalate_head [' '] c cs (more.map String.toList)
      refine ⟨c, rest, visible c (by simp [chars]), ?_⟩
      rw [joined, List.map_cons, chars, starts]

theorem words_joined (valid : ∀ token ∈ tokens, IsToken token) :
    Text.words (joined tokens) = tokens.map String.toList := by
  refine Text.words_intercalate fun w member => ?_
  obtain ⟨token, found, rfl⟩ := List.mem_map.mp member
  exact (valid token found).1

theorem lineTokens_behind (blanks : Margin levels margin) (content : tokens ≠ [])
    (valid : ∀ token ∈ tokens, IsToken token) :
    lineTokens (margin ++ joined tokens) = List.replicate levels indentToken ++ tokens := by
  have uncommented : Text.before commentMark (margin ++ joined tokens) = margin ++ joined tokens :=
    before_of_not_mem fun member => (chars_behind blanks valid _ member).1 rfl
  obtain ⟨c, rest, visible, body⟩ := joined_eq_cons content valid
  have split : Text.words (c :: rest) = tokens.map String.toList := body ▸ words_joined valid
  have some_visible : (margin ++ joined tokens).all Text.isBlank = false := by
    simp [body, visible]
  unfold lineTokens
  rw [uncommented, if_neg (by simp [some_visible])]
  rw [body, blanks.reads visible]
  simp [split, Function.comp_def]

end Behind

/-- The tokenizer finds the tokens of each line of a text that was put together from lines. -/
theorem tokenize_lines {lines : List (List Char)}
    (valid : ∀ line ∈ lines, lineTokens line ≠ [] ∧ ∀ c ∈ line, Text.isBreak c = false)
    {text : String} (laidOut : text.toList = ['\n'].intercalate lines) :
    tokenize text = lines.map lineTokens := by
  have content : ∀ line ∈ lines, line ≠ [] := by
    rintro line member rfl
    exact (valid [] member).1 rfl
  unfold tokenize
  rw [laidOut, Text.lines_intercalate content fun line member => (valid line member).2]
  refine List.filter_eq_self.mpr fun tokens member => ?_
  obtain ⟨line, found, rfl⟩ := List.mem_map.mp member
  simp [(valid line found).1]

/-- The tokenizer finds the rows of a text that was laid out from them, with the levels of the
margins in front. -/
theorem tokenize_layout {rows : List (Nat × List String)}
    (valid : ∀ row ∈ rows, row.2 ≠ [] ∧ ∀ token ∈ row.2, IsToken token) {text : String}
    (laidOut : text.toList = ['\n'].intercalate (rows.map layout)) :
    tokenize text = rows.map fun row => List.replicate row.1 indentToken ++ row.2 := by
  have tokens : ∀ row ∈ rows, lineTokens (layout row) =
      List.replicate row.1 indentToken ++ row.2 := by
    intro row found
    exact lineTokens_behind (margin_spaces row.1) (valid row found).1 (valid row found).2
  rw [tokenize_lines ?_ laidOut, List.map_map]
  · exact List.map_congr_left tokens
  · intro line member
    obtain ⟨row, found, rfl⟩ := List.mem_map.mp member
    rw [tokens row found]
    refine ⟨by simp [(valid row found).1], fun c inside => ?_⟩
    exact (chars_behind (margin_spaces row.1) (valid row found).2 c inside).2

end Source

end Termwise
