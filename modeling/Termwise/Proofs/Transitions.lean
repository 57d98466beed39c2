import Mathlib
import Termwise.Proofs.Fitting
import Termwise.Proofs.WholeNumbers

/-! What the counts of a fitted model say. Each is the number of steps from one token to another, so
a row and a column both add up to the occurrences of their token, and all together to the steps
there are. Floating counts are the same numbers as long as they are below `2 ^ 53`, where they
stop. -/
namespace Termwise.Model

variable {κ : Type}

/-- The index sequence of a row between two carriage returns, where all its tokens are known. -/
def path? (m : Model κ) (row : List String) : Option (List Int) :=
  (row.mapM m.indices.find?).map fun indices => endIndex :: (indices ++ [endIndex])

def count? (m : Model κ) (i j : Nat) : Option κ := m.counts[i]?.bind (·[j]?)

def rowSum (m : Model Nat) (i : Nat) : Nat := (m.counts.getD i []).sum

def columnSum (m : Model Nat) (j : Nat) : Nat := (m.counts.map fun row => row.getD j 0).sum

/-- Exact counts of the steps in rows. -/
structure CountsSteps (m : Model Nat) (rows : List (List String)) : Prop where
  /-- A count is the number of adjacent pairs of its two indices in the sequences of the rows. -/
  cells : ∃ paths, rows.mapM m.path? = some paths ∧ ∀ i j, i < m.vocabSize → j < m.vocabSize →
    m.count? i j = some ((paths.flatMap pairs).count ((i : Int), (j : Int)))
  rowSum_token : ∀ i, 0 < i → i < m.vocabSize → m.rowSum i = rows.flatten.count (m.word i)
  columnSum_token : ∀ i, 0 < i → i < m.vocabSize → m.columnSum i = rows.flatten.count (m.word i)
  rowSum_end : m.rowSum 0 = rows.length + rows.flatten.count returnToken
  columnSum_end : m.columnSum 0 = rows.length + rows.flatten.count returnToken
  total : m.counts.flatten.sum = (rows.map fun row => row.length + 1).sum

theorem tally_nat (n : Nat) : (tally n : Nat) = n := by
  induction n with
  | zero => rfl
  | succ n ih => rw [tally, ih]

theorem isWhole_tally (n : Nat) : Number.IsWhole (tally n) (min n (2 ^ 53)) := by
  induction n with
  | zero => exact .zero rfl
  | succ n ih =>
    rw [tally]
    by_cases small : n < 2 ^ 53
    · rw [Nat.min_eq_left small.le] at ih
      rw [Nat.min_eq_left small]
      exact ih.add_one small
    · rw [Nat.min_eq_right (not_lt.mp small)] at ih
      rw [Nat.min_eq_right (by omega)]
      exact ih.add_one_stays

section Sums

variable {α : Type} [DecidableEq α] {keys : List α}

theorem sum_map_count (nodup : keys.Nodup) {list : List α} (inside : ∀ x ∈ list, x ∈ keys) :
    (keys.map fun key => list.count key).sum = list.length := by
  have within : ∀ x ∈ (list : Multiset α), x ∈ keys.toFinset :=
    fun x member => List.mem_toFinset.mpr (inside x member)
  rw [← List.sum_toFinset _ nodup, ← Multiset.coe_card, ← Multiset.sum_count_eq_card within]
  simp only [Multiset.coe_count]

/-- The pairs that start with an item, told apart by how they go on. -/
theorem sum_map_count_pair (nodup : keys.Nodup) {pairs : List (α × α)}
    (inside : ∀ pair ∈ pairs, pair.2 ∈ keys) (x : α) :
    (keys.map fun y => pairs.count (x, y)).sum = (pairs.map Prod.fst).count x := by
  have seconds : ∀ y, pairs.count (x, y) =
      ((pairs.filter fun pair => pair.1 = x).map Prod.snd).count y := by
    intro y
    rw [List.count, List.count, List.countP_map, List.countP_filter]
    apply List.countP_congr
    intro pair _
    simp [Prod.ext_iff, and_comm]
  have rest : ∀ y ∈ (pairs.filter fun pair => pair.1 = x).map Prod.snd, y ∈ keys := by
    simp only [List.mem_map, List.mem_filter]
    rintro y ⟨pair, ⟨member, -⟩, rfl⟩
    exact inside pair member
  simp only [seconds]
  rw [sum_map_count nodup rest, List.length_map, ← List.countP_eq_length_filter, List.count,
    List.countP_map]
  apply List.countP_congr
  intro pair _
  simp

theorem sum_map_count_swap (nodup : keys.Nodup) {pairs : List (α × α)}
    (inside : ∀ pair ∈ pairs, pair.1 ∈ keys) (y : α) :
    (keys.map fun x => pairs.count (x, y)).sum = (pairs.map Prod.snd).count y := by
  have turned : ∀ x, pairs.count (x, y) = (pairs.map Prod.swap).count (y, x) := fun x =>
    (List.count_map_of_injective pairs Prod.swap Prod.swap_injective (x, y)).symm
  have inside : ∀ pair ∈ pairs.map Prod.swap, pair.2 ∈ keys := by
    simp only [List.mem_map]
    rintro _ ⟨pair, member, rfl⟩
    exact inside pair member
  simp only [turned]
  rw [sum_map_count_pair nodup inside, List.map_map]
  rfl

end Sums

section Steps

variable (rows : List (List String))

theorem fst_transitions :
    (transitions rows).map Prod.fst = rows.flatMap fun row => returnToken :: row := by
  rw [transitions, List.map_flatMap]
  congr 1
  funext row
  have shorter : (between row).zip (between row).tail =
      (returnToken :: row).zip (row ++ [returnToken]) := by
    rw [List.zip_eq_zip_take_min]
    simp [between, List.take_of_length_le]
  rw [shorter, List.map_fst_zip (by simp)]

theorem snd_transitions :
    (transitions rows).map Prod.snd = rows.flatMap fun row => row ++ [returnToken] := by
  rw [transitions, List.map_flatMap]
  congr 1
  funext row
  rw [List.map_snd_zip (by simp)]
  rfl

theorem count_fst_transitions (token : String) :
    ((transitions rows).map Prod.fst).count token =
      rows.flatten.count token + if token = returnToken then rows.length else 0 := by
  rw [fst_transitions]
  induction rows with
  | nil => simp
  | cons row rest ih =>
    rw [List.flatMap_cons, List.count_append, ih, List.flatten_cons, List.count_append,
      List.count_cons]
    by_cases same : token = returnToken
    · simp [same]; omega
    · simp [same, Ne.symm same]

theorem count_snd_transitions (token : String) :
    ((transitions rows).map Prod.snd).count token =
      rows.flatten.count token + if token = returnToken then rows.length else 0 := by
  rw [← count_fst_transitions, fst_transitions, snd_transitions]
  apply List.Perm.count_eq
  apply List.Perm.flatMap_left
  intro row _
  exact List.perm_append_singleton _ _

theorem length_transitions :
    (transitions rows).length = (rows.map fun row => row.length + 1).sum := by
  rw [← List.length_map Prod.fst, fst_transitions, List.length_flatMap]
  rfl

end Steps

section Known

variable {smoothing temperature : Float} {rows : List (List String)} [OfNat κ 0] [OfNat κ 1] [Add κ]

theorem path?_ofRows {row : List String} (member : row ∈ rows) :
    (ofRows smoothing temperature rows : Model κ).path? row =
      some ((between row).map (indexIn (vocabulary rows))) := by
  have found : ∀ token ∈ row, (ofRows smoothing temperature rows : Model κ).indices.find? token =
      pure (indexIn (vocabulary rows) token) := by
    intro token here
    have known : token ∈ vocabulary rows :=
      mem_vocabulary.mpr (.inr (List.mem_flatten.mpr ⟨row, member, here⟩))
    exact (find?_swap_numbering _ _).trans (if_pos known)
  have ends : indexIn (vocabulary rows) returnToken = endIndex := indexIn_returnToken rfl
  rw [path?, mapM_of_pure found, between, List.map_cons, List.map_append, List.map_singleton, ends]
  rfl

theorem indexIn_eq_iff {tokens : List String} (nodup : tokens.Nodup) {token : String}
    (known : token ∈ tokens) {i : Nat} (inside : i < tokens.length) :
    indexIn tokens token = i ↔ token = tokens[i] := by
  rw [indexIn, Int.ofNat_inj]
  constructor
  · rintro rfl
    exact (List.getElem_idxOf inside).symm
  · rintro rfl
    exact nodup.idxOf_getElem i inside

/-- The pairs of two indices are the steps between their tokens. -/
theorem count_transitions_indexIn {i j : Nat} (first : i < (vocabulary rows).length)
    (second : j < (vocabulary rows).length) :
    ((transitions rows).map (Prod.map (indexIn (vocabulary rows))
      (indexIn (vocabulary rows)))).count ((i : Int), (j : Int)) =
        (transitions rows).count ((vocabulary rows)[i], (vocabulary rows)[j]) := by
  have nodup := nodup_vocabulary rows
  rw [List.count, List.count, List.countP_map]
  apply List.countP_congr
  intro step taken
  obtain ⟨left, right⟩ := mem_vocabulary_of_transition taken
  simp only [Function.comp_apply, beq_iff_eq, Prod.ext_iff, Prod.map_fst, Prod.map_snd,
    indexIn_eq_iff nodup left first, indexIn_eq_iff nodup right second]

theorem count?_ofRows {i j : Nat} (first : i < (vocabulary rows).length)
    (second : j < (vocabulary rows).length) :
    (ofRows smoothing temperature rows : Model κ).count? i j =
      some (tally ((transitions rows).count ((vocabulary rows)[i], (vocabulary rows)[j]))) := by
  simp [count?, ofRows, tallied, first, second]

end Known

section Exact

variable (smoothing temperature : Float) (rows : List (List String)) {i : Nat}

theorem rowSum_ofRows (inside : i < (vocabulary rows).length) :
    (ofRows smoothing temperature rows : Model Nat).rowSum i =
      rows.flatten.count (vocabulary rows)[i] + if (vocabulary rows)[i] =
        returnToken then rows.length else 0 := by
  have row : (ofRows smoothing temperature rows : Model Nat).counts.getD i [] =
      (vocabulary rows).map fun next => (transitions rows).count ((vocabulary rows)[i], next) := by
    simp [ofRows, tallied, tally_nat, inside]
  rw [rowSum, row, sum_map_count_pair (nodup_vocabulary rows) fun step taken =>
    (mem_vocabulary_of_transition taken).2, count_fst_transitions]

theorem columnSum_ofRows (inside : i < (vocabulary rows).length) :
    (ofRows smoothing temperature rows : Model Nat).columnSum i =
      rows.flatten.count (vocabulary rows)[i] + if (vocabulary rows)[i] =
        returnToken then rows.length else 0 := by
  have column :
      ((ofRows smoothing temperature rows : Model Nat).counts.map fun row => row.getD i 0) =
      (vocabulary rows).map fun previous => (transitions rows).count
      (previous, (vocabulary rows)[i]) := by
    simp [ofRows, tallied, tally_nat, inside]
  rw [columnSum, column,
    sum_map_count_swap (nodup_vocabulary rows) fun step taken =>
    (mem_vocabulary_of_transition taken).1, count_snd_transitions]

theorem total_ofRows :
    (ofRows smoothing temperature rows : Model Nat).counts.flatten.sum =
      (rows.map fun row => row.length + 1).sum := by
  have nodup := nodup_vocabulary rows
  have rowSums : (ofRows smoothing temperature rows : Model Nat).counts.map List.sum =
      (vocabulary rows).map fun previous => ((transitions rows).map Prod.fst).count previous := by
    rw [ofRows, tallied, List.map_map]
    apply List.map_congr_left
    intro previous _
    simp only [Function.comp_apply, tally_nat]
    exact sum_map_count_pair nodup (fun step taken => (mem_vocabulary_of_transition taken).2)
      previous
  have firsts : ∀ token ∈ (transitions rows).map Prod.fst, token ∈ vocabulary rows := by
    simp only [List.mem_map]
    rintro _ ⟨step, taken, rfl⟩
    exact (mem_vocabulary_of_transition taken).1
  rw [List.sum_flatten, rowSums, sum_map_count nodup firsts, List.length_map, length_transitions]

theorem countsSteps_ofRows : (ofRows smoothing temperature rows : Model Nat).CountsSteps rows where
  cells := by
    refine ⟨_, mapM_of_pure fun row member => path?_ofRows member, ?_⟩
    intro i j first second
    rw [vocabSize_ofRows] at first second
    rw [count?_ofRows first second, tally_nat, flatMap_pairs_between,
      count_transitions_indexIn first second]
  rowSum_token := by
    intro i positive inside
    rw [vocabSize_ofRows] at inside
    rw [rowSum_ofRows smoothing temperature rows inside, word_ofRows inside,
      if_neg (getElem_vocabulary_ne positive inside), Nat.add_zero]
  columnSum_token := by
    intro i positive inside
    rw [vocabSize_ofRows] at inside
    rw [columnSum_ofRows smoothing temperature rows inside, word_ofRows inside,
      if_neg (getElem_vocabulary_ne positive inside), Nat.add_zero]
  rowSum_end := by
    have inside := length_vocabulary_pos rows
    rw [rowSum_ofRows smoothing temperature rows inside, getElem_zero_vocabulary inside, if_pos rfl,
      Nat.add_comm]
  columnSum_end := by
    have inside := length_vocabulary_pos rows
    rw [columnSum_ofRows smoothing temperature rows inside, getElem_zero_vocabulary inside,
      if_pos rfl, Nat.add_comm]
  total := total_ofRows smoothing temperature rows

end Exact

/-- Floating counts read as integers are the exact ones, up to where they stop. -/
theorem whole?_counts_ofRows (smoothing temperature : Float) (rows : List (List String)) :
    (ofRows smoothing temperature rows : Model Float).counts.map (·.map Number.whole?) =
      (ofRows smoothing temperature rows : Model Nat).counts.map
        (·.map fun n => some ((min n (2 ^ 53) : Nat) : Int)) := by
  simp only [ofRows, tallied, List.map_map]
  apply List.map_congr_left
  intro previous _
  simp only [Function.comp_apply, List.map_map]
  apply List.map_congr_left
  intro next _
  rw [Function.comp_apply, Function.comp_apply, (isWhole_tally _).read, tally_nat]

/-- The counts are exactly the transitions. All calls on a new model succeed; with exact counts,
each is the number of adjacent pairs of its indices in the rows fitted so far, and the sums follow;
and the floating counts, over the same vocabulary, are these integers, or `2 ^ 53` where these are
larger. -/
theorem counts_transitions (smoothing temperature : Float) (calls : List (List (List String))) :
    ∃ (exact : Model Nat) (m : Model Float), (new smoothing temperature).fitAll calls =
      (.ok (), exact) ∧
      (new smoothing temperature).fitAll calls = (.ok (), m) ∧ exact.CountsSteps calls.flatten ∧
      m.words = exact.words ∧ m.indices = exact.indices ∧
      m.counts.map (·.map Number.whole?) =
        exact.counts.map (·.map fun n => some ((min n (2 ^ 53) : Nat) : Int)) :=
  ⟨_, _, fitAll_new smoothing temperature calls, fitAll_new smoothing temperature calls,
    countsSteps_ofRows smoothing temperature calls.flatten, rfl, rfl,
    whole?_counts_ofRows smoothing temperature calls.flatten⟩

end Termwise.Model
