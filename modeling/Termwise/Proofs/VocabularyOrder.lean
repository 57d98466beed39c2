import Termwise.Proofs.Fitting
import Termwise.Proofs.Persistence
import Termwise.Proofs.Sentences

/-! The vocabulary of a fitted model. Its two tables are one numbering read in both directions, from
zero without a gap and in the order in which the tokens first occur, and the counts have a row and a
column for each number. More rows only go on with the numbering, in the middle of a call as well as
from call to call. -/
namespace Termwise

/-- Where no key is repeated, looking a key up finds the entry that is there. -/
theorem Table.find?_eq_some_iff {κ β : Type} [DecidableEq κ] {table : Table κ β}
    (nodup : table.keys.Nodup) {key : κ} {value : β} :
    table.find? key = some value ↔ (key, value) ∈ table := by
  induction table with
  | nil => simp [find?]
  | cons entry rest ih =>
    obtain ⟨absent, nodup⟩ := List.nodup_cons.mp nodup
    by_cases here : entry.1 = key
    · subst here
      have other : (entry.1, value) ∉ rest := fun later =>
        absent (List.mem_map.mpr ⟨_, later, rfl⟩)
      simp [find?, other, Prod.ext_iff, eq_comm]
    · have later : Table.find? (entry :: rest) key = Table.find? rest key := by simp [find?, here]
      rw [later, ih nodup, List.mem_cons]
      constructor
      · exact .inr
      · rintro (rfl | member)
        · exact absurd rfl here
        · exact member

section FirstOccurrences

variable {α : Type} [DecidableEq α] {seen : List α} {x y : α}

/-- A new item comes after all that has been seen. -/
theorem idxOf_lt_of_fresh (known : x ∈ seen) (fresh : y ∉ seen) :
    (seen ++ [y]).idxOf x < (seen ++ [y]).idxOf y := by
  rw [List.idxOf_append_of_mem known, List.idxOf_append_of_notMem fresh]
  exact Nat.lt_add_right _ (List.idxOf_lt_length_of_mem known)

/-- What is left without the repetitions stands in the order in which it first occurs. -/
theorem idxOf_eraseDups_lt_iff {list : List α} (left : x ∈ list) (right : y ∈ list) :
    list.eraseDups.idxOf x < list.eraseDups.idxOf y ↔ list.idxOf x < list.idxOf y := by
  induction list using List.reverseRecOn with
  | nil => cases left
  | append_singleton seen z ih =>
    have last : ∀ {w}, w ∈ seen ++ [z] → w ∉ seen → w = z := by
      intro w member fresh
      simpa [fresh] using member
    have after : ∀ {w}, w ∈ seen → z ∉ seen →
        (seen ++ [z]).eraseDups.idxOf w < (seen ++ [z]).eraseDups.idxOf z := by
      intro w known fresh
      rw [eraseDups_of_not_mem fresh]
      exact idxOf_lt_of_fresh (List.mem_eraseDups.mpr known) (mt List.mem_eraseDups.mp fresh)
    by_cases first : x ∈ seen <;> by_cases second : y ∈ seen
    · rw [idxOf_eraseDups_append first, idxOf_eraseDups_append second,
        List.idxOf_append_of_mem first, List.idxOf_append_of_mem second]
      exact ih first second
    · obtain rfl := last right second
      exact iff_of_true (after first second) (idxOf_lt_of_fresh first second)
    · obtain rfl := last left first
      exact iff_of_false (after second first).asymm (idxOf_lt_of_fresh second first).asymm
    · obtain rfl := last left first
      obtain rfl := last right second
      exact iff_of_false (Nat.lt_irrefl _) (Nat.lt_irrefl _)

end FirstOccurrences

namespace Model

variable {κ : Type}

/-- The vocabulary numbers the tokens that have been seen, without a gap and in the order in which
they first were, and there is a count for every two of them. -/
structure Numbers (m : Model κ) (seen : List String) : Prop where
  keys : m.words.keys = (List.range m.vocabSize).map fun (i : Nat) => (i : Int)
  inverse : ∀ i token, m.words.find? i = some token ↔ m.indices.find? token = some i
  start : m.words.find? endIndex = some returnToken
  known : ∀ token, (∃ i, m.indices.find? token = some i) ↔ token ∈ seen
  order : ∀ token other i j, m.indices.find? token = some i → m.indices.find? other = some j →
    (i < j ↔ seen.idxOf token < seen.idxOf other)
  square : m.Square

/-- The other model has the same index for every token that has one here. -/
def KeptBy (m n : Model κ) : Prop :=
  ∀ token i, m.indices.find? token = some i → n.indices.find? token = some i

section Fitted

variable [OfNat κ 0] [OfNat κ 1] [Add κ] {smoothing temperature : Float} {rows : List (List String)}

theorem find?_indices_ofRows_iff {token : String} {i : Int} :
    (ofRows smoothing temperature rows : Model κ).indices.find? token = some i ↔
      token ∈ vocabulary rows ∧ indexIn (vocabulary rows) token = i := by
  rw [ofRows, find?_swap_numbering]
  split
  case isTrue known => simp [known]
  case isFalse unknown => simp [unknown]

theorem numbers_ofRows :
    (ofRows smoothing temperature rows : Model κ).Numbers (returnToken :: rows.flatten) where
  keys := by
    rw [vocabSize_ofRows]
    exact keys_numbering (vocabulary rows)
  inverse := by
    intro i token
    have distinct : Table.keys ((numbering (vocabulary rows)).map Prod.swap) |>.Nodup :=
      (keys_swap_numbering (vocabulary rows)).symm ▸ nodup_vocabulary rows
    calc (numbering (vocabulary rows)).find? i = some token
        ↔ (i, token) ∈ numbering (vocabulary rows) :=
        Table.find?_eq_some_iff (nodup_keys_numbering _)
      _ ↔ (token, i) ∈ (numbering (vocabulary rows)).map Prod.swap := by simp
      _ ↔ Table.find? ((numbering (vocabulary rows)).map Prod.swap) token = some i :=
        (Table.find?_eq_some_iff distinct).symm
  start := by
    have first := List.getElem?_eq_getElem (length_vocabulary_pos rows)
    rw [getElem_zero_vocabulary] at first
    exact (find?_numbering (vocabulary rows) 0).trans first
  known := by
    intro token
    simp only [find?_indices_ofRows_iff, exists_and_left, exists_eq', and_true, vocabulary,
      List.mem_eraseDups]
  order := by
    intro token other i j first second
    obtain ⟨left, rfl⟩ := find?_indices_ofRows_iff.mp first
    obtain ⟨right, rfl⟩ := find?_indices_ofRows_iff.mp second
    exact Int.ofNat_lt.trans (idxOf_eraseDups_lt_iff (List.mem_eraseDups.mp left)
      (List.mem_eraseDups.mp right))
  square := square_ofRows smoothing temperature rows

theorem keptBy_ofRows (more : List (List String)) :
    (ofRows smoothing temperature rows : Model κ).KeptBy
      (ofRows smoothing temperature (rows ++ more)) := by
  intro token i found
  obtain ⟨known, rfl⟩ := find?_indices_ofRows_iff.mp found
  obtain ⟨new, extended⟩ := vocabulary_append rows more
  apply find?_indices_ofRows_iff.mpr
  rw [extended]
  exact ⟨List.mem_append_left _ known, by rw [indexIn, indexIn, List.idxOf_append_of_mem known]⟩

theorem word_indexIn {token : String} (known : token ∈ vocabulary rows) :
    (ofRows smoothing temperature rows : Model κ).word (indexIn (vocabulary rows) token) =
      token := by
  have inside := List.idxOf_lt_length_of_mem known
  exact (word_ofRows inside).trans (List.getElem_idxOf inside)

/-- The indices that are given one after another in the course of a call are those of the vocabulary
in the end. -/
theorem word_sequences_ofRows (more : List (List String)) :
    ((ofRows smoothing temperature rows : Model κ).sequences more).1.map
      (List.map (ofRows smoothing temperature (rows ++ more) : Model κ).word) =
        more.map between := by
  rw [sequences_ofRows, List.map_map]
  apply List.map_congr_left
  intro row member
  have back : ∀ token ∈ between row,
      (ofRows smoothing temperature (rows ++ more) : Model κ).word
      (indexIn (vocabulary (rows ++ more)) token) =
        token := fun token here => word_indexIn
        (mem_vocabulary_of_between (List.mem_append_right _ member) here)
  rw [Function.comp_apply, List.map_map]
  exact (List.map_congr_left back).trans (List.map_id _)

end Fitted

/-- The vocabulary is always in order. All calls on a new model succeed and leave a numbering of the
carriage return and the tokens so far; no further calls renumber a token, and within a call the
index that a token is given is the one it has after the call. -/
theorem vocabulary_numbered [OfNat κ 0] [OfNat κ 1] [Add κ] (smoothing temperature : Float)
    (calls : List (List (List String))) :
    ∃ m : Model κ, (new smoothing temperature).fitAll calls = (.ok (), m) ∧
      m.Numbers (returnToken :: calls.flatten.flatten) ∧
      (∀ later, ∃ n, m.fitAll later = (.ok (), n) ∧ m.KeptBy n ∧
        n.Numbers (returnToken :: (calls ++ later).flatten.flatten)) ∧
      ∀ rows, ∃ n, m.fit rows = (.ok (), n) ∧
        (m.sequences rows).1.map (List.map n.word) = rows.map between := by
  refine ⟨_, fitAll_new smoothing temperature calls, numbers_ofRows, ?_, ?_⟩
  · intro later
    refine ⟨_, fitAll_ofRows smoothing temperature _ later, keptBy_ofRows _, ?_⟩
    rw [List.flatten_append]
    exact numbers_ofRows
  · intro rows
    exact ⟨_, fit_ofRows smoothing temperature _ rows, word_sequences_ofRows rows⟩

end Model

end Termwise
