import Termwise.Proofs.Keywords
import Termwise.Proofs.Lines

/-! Programs that are one chain at the outermost level, with arbitrary deeper lines as the bodies of
its branches, and where the branches stand in them. -/
namespace Termwise

/-- The head of a branch, and its body as lines. -/
structure Branch where
  head : Line
  body : List Line

namespace Branch

def lines (branch : Branch) : List Line := branch.head :: branch.body

/-- The head holds the keyword at the outermost level. The body is not empty; its lines are deeper
and call neither of the keywords of loops. -/
structure Fits (branch : Branch) (keyword : Flow) : Prop where
  head : branch.head.Holds keyword 0
  content : branch.body ≠ []
  deeper : ∀ line ∈ branch.body, Indent.below (some 0) line.indent = true
  straight : ∀ line ∈ branch.body, ¬ line.Calls .loop ∧ ¬ line.Calls .leave

theorem Fits.level {branch : Branch} {keyword : Flow} {line : Line} (fits : branch.Fits keyword)
    (member : line ∈ branch.body) : ∃ level > 0, line.indent = some level := by
  have deeper := fits.deeper line member
  cases indent : line.indent with
  | none => simp [indent, Indent.below] at deeper
  | some level => exact ⟨level, by simpa [indent, Indent.below] using deeper, rfl⟩

/-- The last line calls no keyword, and no line before it is less deep. -/
def EndsPlainly (branch : Branch) : Prop :=
  ∃ front last, branch.body = front ++ [last] ∧ last.FlowFree ∧
    ∀ line ∈ front, Indent.below line.indent last.indent = false

end Branch

/-- A program that is one chain: a first branch, further branches with conditions, and a last
resort, if any. -/
structure FlatChain where
  first : Branch
  others : List Branch
  last : Option Branch
  first_fits : first.Fits .when
  others_fit : ∀ branch ∈ others, branch.Fits .orWhen
  last_fits : ∀ branch ∈ last, branch.Fits .otherwise

namespace FlatChain

variable {chain : FlatChain} {branch : Branch} {i j k pc : Nat}

def branches (chain : FlatChain) : List Branch := chain.first :: (chain.others ++ chain.last.toList)

def lines (chain : FlatChain) : List Line := chain.branches.flatMap Branch.lines

/-- The line at which a branch starts. -/
def start (chain : FlatChain) (k : Nat) : Nat :=
  ((chain.branches.take k).flatMap Branch.lines).length

def InBody (chain : FlatChain) (k pc : Nat) : Prop := chain.start k < pc ∧ pc < chain.start (k + 1)

instance (chain : FlatChain) (k pc : Nat) : Decidable (chain.InBody k pc) :=
  inferInstanceAs (Decidable (chain.start k < pc ∧ pc < chain.start (k + 1)))

/-- The first branch has one keyword, the last resort another, and all other branches a third
one. -/
theorem fits (found : chain.branches[k]? = some branch) :
    ∃ keyword, branch.Fits keyword ∧
      (keyword = .when ∧ k = 0 ∨ (keyword = .orWhen ∨ keyword = .otherwise) ∧ 0 < k) ∧
      (keyword ≠ .otherwise → chain.last.isSome → k + 1 < chain.branches.length) := by
  have length : chain.branches.length = 1 + chain.others.length + chain.last.toList.length := by
    rw [branches, List.length_cons, List.length_append]
    omega
  have resort (some : chain.last.isSome) : chain.last.toList.length = 1 := by
    obtain ⟨last, same⟩ := Option.isSome_iff_exists.mp some
    rw [same]
    rfl
  cases k with
  | zero =>
    obtain rfl : chain.first = branch := by simpa [branches] using found
    refine ⟨.when, chain.first_fits, .inl ⟨rfl, rfl⟩, fun _ some => ?_⟩
    rw [length, resort some]
    omega
  | succ k =>
    simp only [branches, List.getElem?_cons_succ, List.getElem?_append] at found
    split at found
    next before =>
      have member := List.mem_of_getElem? found
      refine ⟨.orWhen, chain.others_fit _ member, .inr ⟨.inl rfl, Nat.succ_pos k⟩, fun _ some => ?_⟩
      rw [length, resort some]
      omega
    next =>
      have member := List.mem_of_getElem? found
      refine ⟨.otherwise, chain.last_fits _ (by simpa using member),
        .inr ⟨.inr rfl, Nat.succ_pos k⟩, ?_⟩
      exact fun other => absurd rfl other

theorem drop_start (found : chain.branches[k]? = some branch) :
    chain.lines.drop (chain.start k) =
      branch.head :: (branch.body ++ (chain.branches.drop (k + 1)).flatMap Branch.lines) := by
  obtain ⟨bound, rfl⟩ := List.getElem?_eq_some_iff.mp found
  have split : chain.branches =
      chain.branches.take k ++ chain.branches[k] :: chain.branches.drop (k + 1) := by
    rw [List.getElem_cons_drop, List.take_append_drop]
  have lines : chain.lines = (chain.branches.take k).flatMap Branch.lines ++
      (chain.branches[k].lines ++ (chain.branches.drop (k + 1)).flatMap Branch.lines) := by
    rw [FlatChain.lines]
    conv => lhs; rw [split]
    rw [List.flatMap_append, List.flatMap_cons]
  rw [lines, start, List.drop_left]
  rfl

theorem start_succ (found : chain.branches[k]? = some branch) :
    chain.start (k + 1) = chain.start k + 1 + branch.body.length := by
  rw [start, List.take_add_one, found]
  simp [start, Branch.lines]
  omega

theorem start_of_length_le (past : chain.branches.length ≤ k) :
    chain.start k = chain.lines.length := by
  rw [start, List.take_of_length_le past, lines]

theorem start_le_succ (chain : FlatChain) (k : Nat) : chain.start k ≤ chain.start (k + 1) := by
  cases found : chain.branches[k]? with
  | none =>
    have past := List.getElem?_eq_none_iff.mp found
    exact Nat.le_of_eq ((start_of_length_le past).trans
      (start_of_length_le (Nat.le_succ_of_le past)).symm)
  | some branch =>
    rw [start_succ found]
    omega

theorem start_mono (chain : FlatChain) (order : i ≤ j) : chain.start i ≤ chain.start j := by
  induction order with
  | refl => exact Nat.le_refl _
  | step _ ih => exact Nat.le_trans ih (chain.start_le_succ _)

theorem start_le_length (chain : FlatChain) (k : Nat) : chain.start k ≤ chain.lines.length := by
  have bound := chain.start_mono (Nat.le_max_left k chain.branches.length)
  rwa [start_of_length_le (Nat.le_max_right ..)] at bound

theorem head_at (found : chain.branches[k]? = some branch) :
    chain.lines[chain.start k]? = some branch.head :=
  (drop_cons (drop_start found)).1

/-- Nothing but heads and the end of the program stands where branches start. -/
theorem branch_at_start {line : Line} (found : chain.lines[chain.start k]? = some line) :
    ∃ branch, chain.branches[k]? = some branch ∧ branch.head = line := by
  cases position : chain.branches[k]? with
  | none =>
    rw [start_of_length_le (List.getElem?_eq_none_iff.mp position)] at found
    simp at found
  | some branch => exact ⟨branch, rfl, by simpa [head_at position] using found⟩

theorem indent_at_start {line : Line} (found : chain.lines[chain.start k]? = some line) :
    line.indent = some 0 := by
  obtain ⟨branch, position, rfl⟩ := branch_at_start found
  obtain ⟨keyword, fits, -⟩ := fits position
  exact fits.head.indent

theorem InBody.ne_start (inside : chain.InBody i pc) (j : Nat) : pc ≠ chain.start j := by
  obtain ⟨low, high⟩ := inside
  rintro rfl
  have above : i < j := by
    apply Nat.lt_of_not_le
    intro reverse
    have order := chain.start_mono reverse
    omega
  have order := chain.start_mono (show i + 1 ≤ j from above)
  omega

theorem InBody.unique (first : chain.InBody i pc) (second : chain.InBody j pc) : i = j := by
  obtain ⟨low, high⟩ := first
  obtain ⟨low', high'⟩ := second
  rcases Nat.lt_trichotomy i j with before | same | after
  · have order := chain.start_mono (show i + 1 ≤ j from before)
    omega
  · exact same
  · have order := chain.start_mono (show j + 1 ≤ i from after)
    omega

theorem InBody.exists_branch (inside : chain.InBody k pc) :
    ∃ branch, chain.branches[k]? = some branch := by
  obtain ⟨low, high⟩ := inside
  cases found : chain.branches[k]? with
  | some branch => exact ⟨branch, rfl⟩
  | none =>
    have past := List.getElem?_eq_none_iff.mp found
    rw [start_of_length_le past] at low
    rw [start_of_length_le (Nat.le_succ_of_le past)] at high
    omega

theorem InBody.getElem? (inside : chain.InBody k pc) (found : chain.branches[k]? = some branch) :
    chain.lines[pc]? = branch.body[pc - (chain.start k + 1)]? ∧
      pc - (chain.start k + 1) < branch.body.length := by
  obtain ⟨low, high⟩ := inside
  rw [start_succ found] at high
  have place := (drop_cons (drop_start found)).2
  have within : pc - (chain.start k + 1) < branch.body.length := by omega
  refine ⟨?_, within⟩
  rw [← List.getElem?_append_left within, ← place, List.getElem?_drop]
  congr 1
  omega

/-- No skip passes the start of a branch. -/
theorem skipBlock_le_start (chain : FlatChain) (level : Nat) (before : pc < chain.start k) :
    skipBlock chain.lines (some level) pc ≤ chain.start k := by
  cases found : chain.lines[chain.start k]? with
  | none =>
    have past := List.getElem?_eq_none_iff.mp found
    have bound : pc < chain.lines.length := Nat.lt_of_lt_of_le before (chain.start_le_length k)
    exact Nat.le_trans (skipBlock_le_length bound) past
  | some line =>
    refine skipBlock_le_of_stops before found ?_
    rw [indent_at_start found]
    exact decide_eq_false (Nat.not_lt_zero level)

theorem skipBlock_head (position : chain.branches[k]? = some branch) :
    skipBlock chain.lines (some 0) (chain.start k) = chain.start (k + 1) := by
  obtain ⟨keyword, fits, -⟩ := fits position
  have place := (drop_cons (drop_start position)).2
  have following := drop_append place
  rw [start_succ position]
  refine skipBlock_of_drop place fits.deeper (fun line first => ?_) (Nat.le_refl _) (by omega)
  rw [← following, List.head?_drop, ← start_succ position] at first
  rw [indent_at_start first]
  rfl

end FlatChain

end Termwise
