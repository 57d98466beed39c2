import Mathlib.Data.List.Forall2
import Termwise.Proofs.Tokenization

/-! The rows that the tokenizer gives, and the texts that it gives them for. A row has tokens, and a
token has characters that are neither blank nor a comment mark; every such list of rows comes back
from each way of writing it down, whether the indentation in front of a row is spelled out or made
of spaces or tabs. -/
namespace Termwise

namespace Text

variable {c : Char} {cs w : List Char}

/-- Cutting a text into words loses its blanks and nothing else. -/
theorem flatten_words (cs : List Char) : (words cs).flatten = cs.filter fun c => !isBlank c := by
  fun_induction words cs with
  | case1 => rfl
  | case2 c rest blank ih => simp [blank, ih]
  | case3 c visible => simp [visible]
  | case4 c visible next more blank ih =>
    rw [List.filter_cons_of_pos (by simpa using visible), ← ih]
    rfl
  | case5 c visible next more follows none ih =>
    rw [none] at ih
    rw [none, List.filter_cons_of_pos (by simpa using visible), ← ih]
    rfl
  | case6 c visible next more follows word others found ih =>
    rw [found] at ih
    rw [found, List.filter_cons_of_pos (by simpa using visible), ← ih]
    rfl

theorem nil_not_mem_words (cs : List Char) : [] ∉ words cs := by
  fun_induction words cs with
  | case1 => simp
  | case2 c rest blank ih => exact ih
  | case3 c visible => simp
  | case4 c visible next more blank ih => simpa using ih
  | case5 c visible next more follows none ih => simp [none]
  | case6 c visible next more follows word others found ih =>
    rw [found] at ih ⊢
    simp only [List.mem_cons, not_or] at ih ⊢
    exact ⟨nofun, ih.2⟩

/-- The words of a text are words, and their characters are the text's. -/
theorem isWord_of_mem_words (member : w ∈ words cs) : IsWord w ∧ ∀ c ∈ w, c ∈ cs := by
  have chars : ∀ c ∈ w, c ∈ cs ∧ isBlank c = false := by
    intro c inside
    have kept : c ∈ (words cs).flatten := List.mem_flatten_of_mem member inside
    rw [flatten_words, List.mem_filter] at kept
    simpa using kept
  refine ⟨⟨?_, fun c inside => (chars c inside).2⟩, fun c inside => (chars c inside).1⟩
  rintro rfl
  exact nil_not_mem_words cs member

theorem not_mem_before (mark : Char) (cs : List Char) : mark ∉ before mark cs := by
  intro member
  have other := List.all_eq_true.mp List.all_takeWhile mark member
  simp at other

end Text

namespace Source

/-- Rows as the tokenizer gives them: each has tokens. -/
def IsRows (rows : List (List String)) : Prop :=
  ∀ row ∈ rows, row ≠ [] ∧ ∀ token ∈ row, IsToken token

instance (rows : List (List String)) : Decidable (IsRows rows) := List.decidableBAll _ _

theorem isToken_indentToken : IsToken indentToken := by decide +kernel

/-- Behind the margin stands the rest of the line as it is. -/
theorem indentation_suffix (pending : Nat) (cs : List Char) :
    (indentation pending cs).2 <:+ cs := by
  fun_induction indentation pending cs with
  | case1 pending => exact List.suffix_rfl
  | case2 pending rest levels body margin ih =>
    rw [margin] at ih
    exact ih.trans (List.suffix_cons _ _)
  | case3 pending rest full levels body margin _ ih =>
    rw [margin] at ih
    exact ih.trans (List.suffix_cons _ _)
  | case4 pending rest half _ ih => exact ih.trans (List.suffix_cons _ _)
  | case5 pending c rest => exact List.suffix_rfl

theorem isToken_of_mem_lineTokens {raw : List Char} {token : String}
    (member : token ∈ lineTokens raw) : IsToken token := by
  unfold lineTokens at member
  dsimp only at member
  split at member
  · cases member
  · rcases List.mem_append.mp member with margin | body
    · rw [List.eq_of_mem_replicate margin]
      exact isToken_indentToken
    · obtain ⟨w, found, rfl⟩ := List.mem_map.mp body
      obtain ⟨word, part⟩ := Text.isWord_of_mem_words found
      rw [IsToken, String.toList_ofList]
      refine ⟨word, fun inside => ?_⟩
      exact Text.not_mem_before commentMark raw ((indentation_suffix _ _).mem (part _ inside))

theorem isRows_tokenize (text : String) : IsRows (tokenize text) := by
  intro row member
  obtain ⟨among, content⟩ := List.mem_filter.mp member
  obtain ⟨raw, -, rfl⟩ := List.mem_map.mp among
  exact ⟨of_decide_eq_true content, fun token inside => isToken_of_mem_lineTokens inside⟩

/-- The ways to write a row down: its tokens with single spaces between them, or the first levels of
its indentation as pairs of spaces or as tabs, if a token is left to stand behind them. -/
inductive Written : List String → String → Prop where
  | plain (row : List String) : Written row (" ".intercalate row)
  | spaced (levels : Nat) {rest : List String} (content : rest ≠ []) :
    Written (List.replicate levels indentToken ++ rest)
      (String.ofList (List.replicate (2 * levels) ' ') ++ " ".intercalate rest)
  | tabbed (levels : Nat) {rest : List String} (content : rest ≠ []) :
    Written (List.replicate levels indentToken ++ rest)
      (String.ofList (List.replicate levels '\t') ++ " ".intercalate rest)

variable {row : List String} {line : String}

/-- Every way to write a row down is a margin with the tokens that are left behind it. -/
theorem Written.exists_margin (written : Written row line) (content : row ≠ []) :
    ∃ levels margin rest, Margin levels margin ∧ rest ≠ [] ∧
      row = List.replicate levels indentToken ++ rest ∧
      line.toList = margin ++ joined rest := by
  cases written with
  | plain => exact ⟨0, [], row, margin_nil, content, rfl, by rw [String.toList_intercalate]; rfl⟩
  | @spaced levels rest left =>
    refine ⟨levels, _, rest, margin_spaces levels, left, rfl, ?_⟩
    rw [String.toList_append, String.toList_ofList, String.toList_intercalate]
    rfl
  | @tabbed levels rest left =>
    refine ⟨levels, _, rest, margin_tabs levels, left, rfl, ?_⟩
    rw [String.toList_append, String.toList_ofList, String.toList_intercalate]
    rfl

theorem Written.lineTokens (written : Written row line) (content : row ≠ [])
    (valid : ∀ token ∈ row, IsToken token) :
    lineTokens line.toList = row ∧ ∀ c ∈ line.toList, Text.isBreak c = false := by
  obtain ⟨levels, margin, rest, blanks, left, rfl, chars⟩ := written.exists_margin content
  have valid : ∀ token ∈ rest, IsToken token :=
    fun token member => valid token (List.mem_append_right _ member)
  rw [chars]
  exact ⟨lineTokens_behind blanks left valid,
    fun c inside => (chars_behind blanks valid c inside).2⟩

section Lines

variable {rows : List (List String)} {lines : List String}

theorem map_lineTokens_written (valid : IsRows rows) (written : List.Forall₂ Written rows lines) :
    (lines.map String.toList).map lineTokens = rows ∧
      ∀ line ∈ lines, ∀ c ∈ line.toList, Text.isBreak c = false := by
  induction written with
  | nil => exact ⟨rfl, nofun⟩
  | cons first rest ih =>
    obtain ⟨⟨content, tokens⟩, later⟩ := List.forall_mem_cons.mp valid
    obtain ⟨read, unbroken⟩ := first.lineTokens content tokens
    obtain ⟨more, others⟩ := ih later
    refine ⟨?_, List.forall_mem_cons.mpr ⟨unbroken, others⟩⟩
    rw [List.map_cons, List.map_cons, read, more]

/-- Rows come back from every way of writing them down. -/
theorem tokenize_written (valid : IsRows rows) (written : List.Forall₂ Written rows lines) :
    tokenize ("\n".intercalate lines) = rows := by
  obtain ⟨read, unbroken⟩ := map_lineTokens_written valid written
  have laidOut : ("\n".intercalate lines).toList = ['\n'].intercalate (lines.map String.toList) :=
    String.toList_intercalate
  rw [tokenize_lines ?_ laidOut, read]
  intro chars member
  refine ⟨(valid _ (read ▸ List.mem_map_of_mem member)).1, ?_⟩
  obtain ⟨line, among, rfl⟩ := List.mem_map.mp member
  exact unbroken line among

end Lines

/-- The tokenizer gives rows of tokens only, every list of such rows is what it gives for each text
that writes them down, and so it gives the same rows again for a text that writes down what it
gave. -/
theorem tokenize_image_inverse :
    (∀ text, IsRows (tokenize text)) ∧
    (∀ rows lines, IsRows rows → List.Forall₂ Written rows lines →
      tokenize ("\n".intercalate lines) = rows) ∧
    ∀ text lines, List.Forall₂ Written (tokenize text) lines →
      tokenize ("\n".intercalate lines) = tokenize text :=
  ⟨isRows_tokenize, fun _ _ => tokenize_written, fun text _ => tokenize_written
    (isRows_tokenize text)⟩

/-- A row of indentation alone, one with a margin of spaces and an indentation token inside, and one
behind a tab. -/
theorem tokenize_image_inverse_margins :
    let rows := [["<IDT>", "<IDT>"], ["<IDT>", "<IDT>", "=V0", "<IDT>", "1"], ["<IDT>", "circle/1"]]
    IsRows rows ∧
      List.Forall₂ Written rows ["<IDT> <IDT>", "    =V0 <IDT> 1", "\tcircle/1"] ∧
      tokenize "<IDT> <IDT>\n    =V0 <IDT> 1\n\tcircle/1" = rows := by
  intro rows
  have valid : IsRows rows := by decide +kernel
  have written : List.Forall₂ Written rows ["<IDT> <IDT>", "    =V0 <IDT> 1", "\tcircle/1"] :=
    .cons (.plain _) (.cons (.spaced 2 (by simp)) (.cons (.tabbed 1 (by simp)) .nil))
  exact ⟨valid, written, tokenize_image_inverse.2.1 _ _ valid written⟩

end Source

end Termwise
