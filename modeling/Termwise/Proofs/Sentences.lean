import Mathlib.Data.List.GetD
import Termwise.Proofs.Execution
import Termwise.Proofs.Fitting

/-! What a fitted model can say. Every weight list has one weight for each token, so whatever is
chosen is the index of a token; a carriage return ends a sentence, and a sentence without one is as
long as it may be. -/
namespace Termwise.Model

/-- What is chosen is the place of a weight. -/
def InRange (choose : Chooser) : Prop :=
  ∀ weights chance i later, (choose weights).run chance = (.ok i, later) → i < weights.length

/-- Something is chosen where there are weights, whatever they are. -/
def Decides (choose : Chooser) : Prop :=
  ∀ weights chance, weights ≠ [] → ∃ i later, (choose weights).run chance = (.ok i, later)

/-- Indices of a vocabulary of a size, at most so many, which end with the carriage return or are as
many as may be. -/
structure Sentence (size : Nat) (limit : Int) (indices : List Int) : Prop where
  length_le : indices.length ≤ max limit 0
  inside : ∀ i ∈ indices, 0 ≤ i ∧ i < size
  interior : endIndex ∉ indices.dropLast
  ends : indices.length < limit → indices.getLast? = some endIndex

namespace Sentence

variable {size : Nat} {limit : Int} {indices : List Int}

theorem nil (size : Nat) : Sentence size 0 [] where
  length_le := by simp
  inside := by simp
  interior := by simp
  ends := by simp

theorem stop (positive : 0 < size) (nonneg : 0 ≤ limit) : Sentence size (limit + 1) [endIndex] where
  length_le := by simp; omega
  inside := by simp [endIndex, positive]
  interior := by simp
  ends := by simp

theorem cons {i : Int} (rest : Sentence size limit indices) (nonneg : 0 ≤ limit)
    (inside : 0 ≤ i ∧ i < size) (going : i ≠ endIndex) :
    Sentence size (limit + 1) (i :: indices) where
  length_le := by
    have := rest.length_le
    simp only [List.length_cons]
    omega
  inside := List.forall_mem_cons.mpr ⟨inside, rest.inside⟩
  interior := by
    cases indices with
    | nil => simp
    | cons j more =>
      rw [List.dropLast_cons_cons, List.mem_cons, not_or]
      exact ⟨Ne.symm going, rest.interior⟩
  ends := by
    intro short
    have last := rest.ends (by simp only [List.length_cons] at short; omega)
    rw [List.getLast?_cons, last]
    rfl

end Sentence

/-- A count for every two tokens of a vocabulary, which has one at least. -/
structure Square {κ : Type} (m : Model κ) : Prop where
  positive : 0 < m.vocabSize
  rows : m.counts.length = m.vocabSize
  columns : ∀ row ∈ m.counts, row.length = m.vocabSize

theorem square_ofRows {κ : Type} [OfNat κ 0] [OfNat κ 1] [Add κ] (smoothing temperature : Float)
    (rows : List (List String)) : (ofRows smoothing temperature rows : Model κ).Square where
  positive := by
    rw [vocabSize_ofRows]
    exact length_vocabulary_pos rows
  rows := by rw [vocabSize_ofRows, ofRows, tallied, List.length_map]
  columns := by
    intro row member
    obtain ⟨previous, -, rfl⟩ := List.mem_map.mp member
    rw [vocabSize_ofRows, List.length_map]

section Sampling

variable {m : Model Float} {choose : Chooser}

theorem length_weights {list : List Float} (content : list ≠ []) (temperature : Float) :
    ∃ result, weights list temperature = .ok result ∧ result.length = list.length := by
  obtain ⟨first, rest, rfl⟩ := List.exists_cons_of_ne_nil content
  unfold weights
  split
  · exact ⟨_, rfl, by simp⟩
  · exact ⟨_, rfl, by simp⟩

theorem Square.logProbs (square : m.Square) {previous : Int} (nonneg : 0 ≤ previous)
    (inside : previous < m.vocabSize) :
    ∃ list, m.logProbs previous = .ok list ∧ list.length = m.vocabSize := by
  have small : previous.toNat < m.counts.length := by
    have := square.rows
    omega
  have found : m.counts.getD previous.toNat [] ∈ m.counts := by
    rw [List.getD_eq_getElem _ _ small]
    exact List.getElem_mem small
  rw [Model.logProbs, square.rows, place?_eq_some nonneg inside]
  exact ⟨_, rfl, by rw [List.length_map, List.length_map, square.columns _ found]⟩

/-- Whatever the history, a weight for each token is offered, and nothing but the choice decides. -/
theorem Square.predictTerm (square : m.Square) (choose : Chooser) (history : List Int)
    (temperature : Option Float) :
    ∃ list : List Float, list.length = m.vocabSize ∧
      m.predictTerm choose history temperature = (choose list >>= fun i => pure (i : Int)) := by
  have previous : ∀ last : Int, 0 ≤ (if 0 ≤ last ∧ last < m.vocabSize then last else endIndex) ∧
      (if 0 ≤ last ∧ last < m.vocabSize then last else endIndex) < m.vocabSize := by
    intro last
    split
    next inside => exact inside
    next => exact ⟨Int.le_refl 0, Int.ofNat_lt.mpr square.positive⟩
  obtain ⟨nonneg, inside⟩ := previous (history.getLast?.getD endIndex)
  obtain ⟨logs, found, many⟩ := square.logProbs nonneg inside
  have content : logs ≠ [] := List.length_pos_iff.mp (many ▸ square.positive)
  obtain ⟨list, offered, length⟩ := length_weights content (temperature.getD m.temperature)
  refine ⟨list, length.trans many, ?_⟩
  rw [Model.predictTerm, found]
  dsimp only [predictTerm.liftExcept]
  rw [pure_bind, offered]
  rfl

/-- One index, and what follows it. -/
theorem Square.predictFrom_succ_iff (square : m.Square) (choose : Chooser) (count : Nat)
    (history : List Int) :
    ∃ list : List Float, list.length = m.vocabSize ∧ ∀ chance indices later,
      (m.predictFrom choose (count + 1) history).run chance = (.ok indices, later) ↔
        ∃ (i : Nat) (middle : Chance), (choose list).run chance = (.ok i, middle) ∧
          if (i : Int) = endIndex then indices = [endIndex] ∧ later = middle
          else ∃ rest, (m.predictFrom choose count [(i : Int)]).run middle = (.ok rest, later) ∧
            indices = (i : Int) :: rest := by
  obtain ⟨list, length, term⟩ := square.predictTerm choose history none
  refine ⟨list, length, ?_⟩
  intro chance indices later
  rw [predictFrom, term, Exec.run_bind_ok_iff]
  constructor
  · rintro ⟨index, middle, drawn, said⟩
    obtain ⟨i, _, chosen, done⟩ := Exec.run_bind_ok_iff.mp drawn
    cases done
    refine ⟨i, middle, chosen, ?_⟩
    split at said
    next stop =>
      cases said
      rw [if_pos stop]
      exact ⟨by rw [stop], rfl⟩
    next going =>
      obtain ⟨rest, _, followed, done⟩ := Exec.run_bind_ok_iff.mp said
      cases done
      rw [if_neg going]
      exact ⟨rest, followed, rfl⟩
  · rintro ⟨i, middle, chosen, said⟩
    refine ⟨(i : Int), middle, Exec.run_bind_ok_iff.mpr ⟨i, middle, chosen, rfl⟩, ?_⟩
    split at said
    next stop =>
      obtain ⟨rfl, rfl⟩ := said
      rw [if_pos stop, stop]
      rfl
    next going =>
      obtain ⟨rest, followed, rfl⟩ := said
      rw [if_neg going]
      exact Exec.run_bind_ok_iff.mpr ⟨rest, later, followed, rfl⟩

theorem predictFrom_sentence (square : m.Square) (inRange : InRange choose) {count : Nat}
    {history indices : List Int} {chance later : Chance}
    (said : (m.predictFrom choose count history).run chance = (.ok indices, later)) :
    Sentence m.vocabSize count indices := by
  induction count generalizing history indices chance with
  | zero =>
    cases said
    exact .nil _
  | succ count ih =>
    obtain ⟨list, length, step⟩ := square.predictFrom_succ_iff choose count history
    obtain ⟨i, middle, chosen, rest⟩ := (step _ _ _).mp said
    have nonneg : 0 ≤ (count : Int) := Int.natCast_nonneg count
    have small : i < m.vocabSize := length ▸ inRange _ _ _ _ chosen
    split at rest
    next stop =>
      obtain ⟨rfl, -⟩ := rest
      exact .stop square.positive nonneg
    next going =>
      obtain ⟨rest, followed, rfl⟩ := rest
      exact (ih followed).cons nonneg ⟨Int.natCast_nonneg i, Int.ofNat_lt.mpr small⟩ going

theorem predictFrom_decided (square : m.Square) (decides : Decides choose) (count : Nat)
    (history : List Int) (chance : Chance) :
    ∃ indices later, (m.predictFrom choose count history).run chance = (.ok indices, later) := by
  induction count generalizing history chance with
  | zero => exact ⟨[], chance, rfl⟩
  | succ count ih =>
    obtain ⟨list, length, step⟩ := square.predictFrom_succ_iff choose count history
    have content : list ≠ [] := List.length_pos_iff.mp (length ▸ square.positive)
    obtain ⟨i, middle, chosen⟩ := decides list chance content
    by_cases stop : (i : Int) = endIndex
    · refine ⟨_, _, (step chance [endIndex] middle).mpr ⟨i, middle, chosen, ?_⟩⟩
      rw [if_pos stop]
      exact ⟨rfl, rfl⟩
    · obtain ⟨rest, later, followed⟩ := ih [(i : Int)] middle
      refine ⟨_, _, (step chance ((i : Int) :: rest) later).mpr ⟨i, middle, chosen, ?_⟩⟩
      rw [if_neg stop]
      exact ⟨rest, followed, rfl⟩

theorem predict_sentence (square : m.Square) (inRange : InRange choose) {maxTerms : Int}
    {indices : List Int} {chance later : Chance}
    (said : (m.predict choose maxTerms).run chance = (.ok indices, later)) :
    Sentence m.vocabSize maxTerms indices := by
  obtain ⟨length_le, inside, interior, ends⟩ := predictFrom_sentence square inRange said
  exact ⟨by omega, inside, interior, fun short => ends (by omega)⟩

theorem generateRows_succ_iff {maxTerms : Int} {count : Nat} {rows : List (List String)}
    {chance later : Chance} :
    (m.generateRows choose maxTerms (count + 1)).run chance = (.ok rows, later) ↔
      ∃ indices middle rest, (m.predict choose maxTerms).run chance = (.ok indices, middle) ∧
        (m.generateRows choose maxTerms count).run middle = (.ok rest, later) ∧
        rows = (indices.filter (· ≠ endIndex)).map m.word :: rest := by
  rw [generateRows, Exec.run_bind_ok_iff]
  constructor
  · rintro ⟨indices, middle, said, made⟩
    obtain ⟨rest, _, followed, done⟩ := Exec.run_bind_ok_iff.mp made
    cases done
    exact ⟨indices, middle, rest, said, followed, rfl⟩
  · rintro ⟨indices, middle, rest, said, followed, rfl⟩
    exact ⟨indices, middle, said, Exec.run_bind_ok_iff.mpr ⟨rest, later, followed, rfl⟩⟩

/-- Rows are made one by one, each of a sentence without its carriage return. -/
theorem generateRows_forall (square : m.Square) (inRange : InRange choose) {maxTerms : Int}
    {count : Nat} {rows : List (List String)} {chance later : Chance}
    (made : (m.generateRows choose maxTerms count).run chance = (.ok rows, later)) :
    rows.length = count ∧ ∀ row ∈ rows, ∃ indices, Sentence m.vocabSize maxTerms indices ∧
      row = (indices.filter (· ≠ endIndex)).map m.word := by
  induction count generalizing rows chance with
  | zero =>
    cases made
    exact ⟨rfl, by simp⟩
  | succ count ih =>
    obtain ⟨indices, middle, rest, said, followed, rfl⟩ := generateRows_succ_iff.mp made
    obtain ⟨length, others⟩ := ih followed
    refine ⟨by rw [List.length_cons, length], List.forall_mem_cons.mpr ⟨?_, others⟩⟩
    exact ⟨indices, predict_sentence square inRange said, rfl⟩

theorem generateRows_decided (square : m.Square) (decides : Decides choose) (maxTerms : Int)
    (count : Nat) (chance : Chance) :
    ∃ rows later, (m.generateRows choose maxTerms count).run chance = (.ok rows, later) := by
  induction count generalizing chance with
  | zero => exact ⟨[], chance, rfl⟩
  | succ count ih =>
    obtain ⟨indices, middle, said⟩ := predictFrom_decided square decides maxTerms.toNat [] chance
    obtain ⟨rest, later, followed⟩ := ih middle
    exact ⟨_, later, generateRows_succ_iff.mpr ⟨indices, middle, rest, said, followed, rfl⟩⟩

end Sampling

/-- The words of the indices other than the carriage return are those of the rows. -/
theorem word_ofRows_mem {κ : Type} [OfNat κ 0] [OfNat κ 1] [Add κ] {smoothing temperature : Float}
    {rows : List (List String)} {i : Int} (nonneg : 0 ≤ i)
    (inside : i < (ofRows smoothing temperature rows : Model κ).vocabSize) (going : i ≠ endIndex) :
    (ofRows smoothing temperature rows : Model κ).word i ∈ rows.flatten ∧
      (ofRows smoothing temperature rows : Model κ).word i ≠ returnToken := by
  obtain ⟨n, rfl⟩ := Int.eq_ofNat_of_zero_le nonneg
  have positive : 0 < n := Nat.pos_of_ne_zero fun zero => going (by rw [zero]; rfl)
  rw [vocabSize_ofRows, Int.ofNat_lt] at inside
  have differs := getElem_vocabulary_ne positive inside
  rw [word_ofRows inside]
  exact ⟨(mem_vocabulary.mp (List.getElem_mem inside)).resolve_left differs, differs⟩

/-- What a fitted model says is well formed: with a choice that stays in range, a prediction is a
sentence, and a generated row has tokens of the fitted rows only and no carriage return. Nothing but
the choice can fail. -/
theorem samples_wellFormed {choose : Chooser} (inRange : InRange choose)
    (smoothing temperature : Float) (calls : List (List (List String))) :
    ∃ m : Model Float, (new smoothing temperature).fitAll calls = (.ok (), m) ∧
      (∀ maxTerms chance indices later,
        (m.predict choose maxTerms).run chance = (.ok indices, later) →
        Sentence m.vocabSize maxTerms indices) ∧
      (∀ maxTerms count chance rows later,
        (m.generateRows choose maxTerms count).run chance = (.ok rows, later) →
        rows.length = count ∧
          ∀ row ∈ rows, ∀ token ∈ row, token ∈ calls.flatten.flatten ∧ token ≠ returnToken) ∧
      (Decides choose → ∀ maxTerms count chance,
        (∃ indices later, (m.predict choose maxTerms).run chance = (.ok indices, later)) ∧
        ∃ rows later, (m.generateRows choose maxTerms count).run chance = (.ok rows, later)) := by
  have square : (ofRows smoothing temperature calls.flatten : Model Float).Square :=
    square_ofRows _ _ _
  refine ⟨_, fitAll_new smoothing temperature calls, ?_, ?_, ?_⟩
  · intro maxTerms chance indices later said
    exact predict_sentence square inRange said
  · intro maxTerms count chance rows later made
    obtain ⟨length, all⟩ := generateRows_forall square inRange made
    refine ⟨length, ?_⟩
    intro row member token here
    obtain ⟨indices, sentence, rfl⟩ := all row member
    obtain ⟨i, kept, rfl⟩ := List.mem_map.mp here
    obtain ⟨said, going⟩ := List.mem_filter.mp kept
    obtain ⟨nonneg, inside⟩ := sentence.inside i said
    exact word_ofRows_mem nonneg inside (of_decide_eq_true going)
  · intro decides maxTerms count chance
    exact ⟨predictFrom_decided square decides _ _ _, generateRows_decided square decides _ _ _⟩

theorem firstPast_lt (u total : Float) {weights : List Float} (content : weights ≠ []) :
    firstPast u total weights < weights.length := by
  fun_induction firstPast u total weights with
  | case1 => exact absurd rfl content
  | case2 => exact Nat.one_pos
  | case3 => exact Nat.succ_pos _
  | case4 total w rest more _ ih => exact Nat.succ_lt_succ (ih more)

theorem inRange_pick : InRange Chance.pick := by
  intro weights chance i later chosen
  rw [Chance.pick] at chosen
  split at chosen
  next => cases chosen
  next usable =>
    cases chosen
    apply firstPast_lt
    rintro rfl
    exact usable rfl

/-- Chooses by the next digit, round the weights. -/
def byDigit : Chooser := fun weights =>
  if weights = [] then throw .weights
  else do
    let digits ← (Chance.takeDigits 1 : StateM Chance (List Nat))
    return digits.headD 0 % weights.length

theorem inRange_byDigit : InRange byDigit := by
  intro weights chance i later chosen
  cases weights with
  | nil => cases chosen
  | cons w rest =>
    cases chosen
    exact Nat.mod_lt _ (Nat.succ_pos _)

theorem decides_byDigit : Decides byDigit := by
  intro weights chance content
  rw [byDigit, if_neg content]
  exact ⟨_, _, rfl⟩

/-- Two calls, one of them with a carriage return inside a row. -/
def twoCalls : List (List (List String)) := [[["a", "b"]], [["b", "<CR>", "c"], []]]

/-- The digits name three words and then the carriage return: a sentence that it ends, and two rows,
of which the first is as long as it may be. The choice by running totals stays in range as well. -/
theorem samples_wellFormed_digits :
    InRange Chance.pick ∧ InRange byDigit ∧ Decides byDigit ∧
      ∃ m : Model Float, (new defaultSmoothing 0.5).fitAll twoCalls = (.ok (), m) ∧
        ((m.predict byDigit 5).run (Chance.ofLists [1, 2, 3, 4] [])).1 = .ok [1, 2, 3, 0] ∧
        Sentence m.vocabSize 5 [1, 2, 3, 0] ∧
        ((m.generateRows byDigit 3 2).run (Chance.ofLists [1, 2, 3, 4] [])).1 =
          .ok [["a", "b", "c"], []] ∧
        ∀ token ∈ ["a", "b", "c"], token ∈ twoCalls.flatten.flatten ∧ token ≠ returnToken := by
  obtain ⟨m, fitted, sentence, tokens, -⟩ := samples_wellFormed inRange_byDigit defaultSmoothing
    0.5 twoCalls
  have known : m = ofRows defaultSmoothing 0.5 twoCalls.flatten := by
    rw [fitAll_new] at fitted
    cases fitted
    rfl
  have said : ((m.predict byDigit 5).run (Chance.ofLists [1, 2, 3, 4] [])).1 =
      .ok [1, 2, 3, 0] := by
    subst known
    rfl
  have made : ((m.generateRows byDigit 3 2).run (Chance.ofLists [1, 2, 3, 4] [])).1 =
      .ok [["a", "b", "c"], []] := by
    subst known
    rfl
  refine ⟨inRange_pick, inRange_byDigit, decides_byDigit, m, fitted, said, ?_, made, ?_⟩
  · exact sentence 5 _ _ _ (Prod.ext said rfl)
  · exact (tokens 3 2 _ _ _ (Prod.ext made rfl)).2 _ List.mem_cons_self

end Termwise.Model
