import Mathlib.Data.List.Basic
import Mathlib.Data.List.Induction
import Mathlib.Data.List.Nodup
import Termwise.Model.Basic
import Termwise.Proofs.Editing
import Termwise.Proofs.Registration

/-! Fitting depends on the rows alone. However many calls they came in, the vocabulary is the tokens
in the order in which they first occur, after the carriage return, and each count has gone up by one
for every transition between its two tokens. -/
namespace Termwise

theorem Table.insert_of_not_mem {κ β : Type} [DecidableEq κ] {table : Table κ β} {key : κ}
    (free : key ∉ table.keys) (value : β) : table.insert key value = table ++ [(key, value)] := by
  induction table with
  | nil => rfl
  | cons entry rest ih =>
    rw [keys, List.map_cons, List.mem_cons, not_or] at free
    rw [insert, if_neg (Ne.symm free.1), ih free.2, List.cons_append]

theorem mapM_of_pure {m : Type → Type} [Monad m] [LawfulMonad m] {α β : Type} {f : α → m β}
    {g : α → β} {items : List α} (same : ∀ a ∈ items, f a = pure (g a)) :
    items.mapM f = pure (items.map g) := by
  induction items with
  | nil => rfl
  | cons a rest ih =>
    obtain ⟨first, others⟩ := List.forall_mem_cons.mp same
    simp [List.mapM_cons, first, ih others]

section FirstOccurrences

variable {α : Type} [DecidableEq α] {seen : List α} {x : α}

theorem eraseDups_of_mem (known : x ∈ seen) : (seen ++ [x]).eraseDups = seen.eraseDups := by
  rw [List.eraseDups_append]
  simp [List.removeAll, known]

theorem eraseDups_of_not_mem (fresh : x ∉ seen) :
    (seen ++ [x]).eraseDups = seen.eraseDups ++ [x] := by
  rw [List.eraseDups_append]
  simp [List.removeAll, fresh, List.eraseDups_cons]

theorem nodup_eraseDups (list : List α) : list.eraseDups.Nodup := by
  induction list using List.reverseRecOn with
  | nil => exact List.nodup_nil
  | append_singleton seen x ih =>
    by_cases known : x ∈ seen
    · rwa [eraseDups_of_mem known]
    · rw [eraseDups_of_not_mem known, List.nodup_append]
      refine ⟨ih, by simp, ?_⟩
      rintro y before _ last rfl
      obtain rfl := List.mem_singleton.mp last
      exact known (List.mem_eraseDups.mp before)

/-- The place of what has been seen is final. -/
theorem idxOf_eraseDups_append (known : x ∈ seen) (more : List α) :
    (seen ++ more).eraseDups.idxOf x = seen.eraseDups.idxOf x := by
  rw [List.eraseDups_append, List.idxOf_append_of_mem (List.mem_eraseDups.mpr known)]

/-- A change to the item of one key, in a list of the items of different keys. -/
theorem modify_map_idxOf {β : Type} {keys : List α} (nodup : keys.Nodup) (f : α → β) (g : β → β)
    (x : α) :
    (keys.map f).modify (keys.idxOf x) g =
      keys.map fun key => if key = x then g (f key) else f key := by
  induction keys with
  | nil => rfl
  | cons key rest ih =>
    obtain ⟨absent, nodup⟩ := List.nodup_cons.mp nodup
    by_cases here : key = x
    · subst here
      rw [List.idxOf_cons_self, List.map_cons, List.map_cons, List.modify_zero_cons, if_pos rfl]
      congr 1
      apply List.map_congr_left
      intro other member
      rw [if_neg]
      rintro rfl
      exact absent member
    · rw [List.idxOf_cons_ne rest here, List.map_cons, List.map_cons, List.modify_succ_cons,
        ih nodup, if_neg here]

end FirstOccurrences

namespace Model

variable {κ : Type}

/-- Tokens under their indices. -/
def numbering (tokens : List String) : Table Int String :=
  tokens.zipIdx.map fun entry => ((entry.2 : Int), entry.1)

/-- The index of a token in a vocabulary. -/
def indexIn (tokens : List String) (token : String) : Int := (tokens.idxOf token : Nat)

section Numbering

variable (tokens : List String)

@[simp] theorem length_numbering : (numbering tokens).length = tokens.length := by
  rw [numbering, List.length_map, List.length_zipIdx]

theorem numbering_append (token : String) :
    numbering (tokens ++ [token]) = numbering tokens ++ [((tokens.length : Int), token)] := by
  simp [numbering, List.zipIdx_append]

theorem find?_numbering (i : Nat) : (numbering tokens).find? (i : Int) = tokens[i]? := by
  induction tokens using List.reverseRecOn with
  | nil => rfl
  | append_singleton tokens token ih =>
    rw [numbering_append, Table.find?_append, ih]
    rcases Nat.lt_trichotomy i tokens.length with inside | rfl | outside
    · rw [List.getElem?_append_left inside, List.getElem?_eq_getElem inside, Option.some_or]
    · simp [Table.find?]
    · have differ : (tokens.length : Int) ≠ i := by omega
      rw [List.getElem?_eq_none (by omega), List.getElem?_eq_none (by simp; omega)]
      simp [Table.find?, differ]

theorem keys_swap_numbering : Table.keys ((numbering tokens).map Prod.swap) = tokens := by
  rw [Table.keys, numbering, List.map_map, List.map_map]
  exact List.zipIdx_map_fst 0 tokens

theorem find?_swap_numbering (token : String) :
    Table.find? ((numbering tokens).map Prod.swap) token =
      if token ∈ tokens then some (indexIn tokens token) else none := by
  unfold indexIn
  induction tokens using List.reverseRecOn with
  | nil => rfl
  | append_singleton tokens last ih =>
    rw [numbering_append, List.map_append, Table.find?_append, ih]
    by_cases known : token ∈ tokens
    · rw [if_pos known, if_pos (List.mem_append_left _ known), Option.some_or,
        List.idxOf_append_of_mem known]
    · rw [if_neg known, Option.none_or]
      by_cases same : last = token
      · subst same
        simp [Table.find?, List.idxOf_append_of_notMem known]
      · simp [Table.find?, same, known, Ne.symm same]

end Numbering

/-- The model with a vocabulary for its own. -/
def numbered (m : Model κ) (tokens : List String) : Model κ :=
  { m with words := numbering tokens, indices := (numbering tokens).map Prod.swap }

section Indexing

variable {seen : List String}

theorem indexIn_append {token : String} (known : token ∈ seen) (more : List String) :
    indexIn (seen ++ more).eraseDups token = indexIn seen.eraseDups token := by
  rw [indexIn, indexIn, idxOf_eraseDups_append known]

theorem indexIn_returnToken (start : seen.head? = some returnToken) :
    indexIn seen.eraseDups returnToken = endIndex := by
  obtain ⟨rest, rfl⟩ := List.head?_eq_some_iff.mp start
  rw [indexIn, List.eraseDups_cons, List.idxOf_cons_self]
  rfl

/-- Looking a token up adds it to what has been seen. -/
theorem indexFor_numbered (m : Model κ) (seen : List String) (token : String) :
    (m.numbered seen.eraseDups).indexFor token =
      (indexIn (seen ++ [token]).eraseDups token, m.numbered (seen ++ [token]).eraseDups) := by
  have found := find?_swap_numbering seen.eraseDups token
  by_cases known : token ∈ seen
  · rw [if_pos (List.mem_eraseDups.mpr known)] at found
    rw [eraseDups_of_mem known, indexFor, numbered, found]
  · have absent : token ∉ seen.eraseDups := mt List.mem_eraseDups.mp known
    rw [if_neg absent] at found
    have newIndex : ((seen.eraseDups.length : Nat) : Int) ∉ (numbering seen.eraseDups).keys := by
      rw [← Table.find?_eq_none_iff, find?_numbering, List.getElem?_eq_none (Nat.le_refl _)]
    have newToken : token ∉ Table.keys ((numbering seen.eraseDups).map Prod.swap) := by
      rwa [keys_swap_numbering]
    rw [eraseDups_of_not_mem known, indexFor, numbered, found]
    simp only [length_numbering, Table.insert_of_not_mem newIndex, Table.insert_of_not_mem newToken,
      numbered, indexIn,
      numbering_append, List.map_append, List.idxOf_append_of_notMem absent, List.idxOf_cons_self,
      Nat.add_zero]
    rfl

theorem rowIndices_numbered (m : Model κ) (seen row : List String) :
    (m.numbered seen.eraseDups).rowIndices row =
      (row.map (indexIn (seen ++ row).eraseDups), m.numbered (seen ++ row).eraseDups) := by
  induction row generalizing seen with
  | nil =>
    rw [List.append_nil]
    rfl
  | cons token rest ih =>
    have place := indexIn_append (show token ∈ seen ++ [token] by simp) rest
    rw [List.append_cons, rowIndices, indexFor_numbered]
    simp only [ih, List.map_cons, place]

/-- A row as it is counted. -/
def between (row : List String) : List String := returnToken :: (row ++ [returnToken])

theorem mem_of_mem_between {row : List String} {token : String}
    (start : seen.head? = some returnToken) (member : token ∈ between row) :
    token ∈ seen ++ row := by
  obtain ⟨rest, rfl⟩ := List.head?_eq_some_iff.mp start
  simp only [between, List.mem_cons, List.mem_append] at member ⊢
  tauto

theorem sequences_numbered (m : Model κ) (start : seen.head? = some returnToken)
    (rows : List (List String)) :
    (m.numbered seen.eraseDups).sequences rows =
      (rows.map fun row => (between row).map (indexIn (seen ++ rows.flatten).eraseDups),
        m.numbered (seen ++ rows.flatten).eraseDups) := by
  induction rows generalizing seen with
  | nil =>
    rw [List.flatten_nil, List.append_nil]
    rfl
  | cons row rest ih =>
    have begun : (seen ++ row).head? = some returnToken := by
      rw [List.head?_append, start, Option.some_or]
    -- The row has its indices from the tokens up to its end, and they are those of the whole
    -- vocabulary.
    have indexed : (between row).map (indexIn (seen ++ row ++ rest.flatten).eraseDups) =
        endIndex :: (row.map (indexIn (seen ++ row).eraseDups) ++ [endIndex]) := by
      rw [← indexIn_returnToken begun]
      calc (between row).map (indexIn (seen ++ row ++ rest.flatten).eraseDups)
          = (between row).map (indexIn (seen ++ row).eraseDups) :=
            List.map_congr_left fun token member => indexIn_append
              (mem_of_mem_between start member) _
        _ = _ := by rw [between, List.map_cons, List.map_append, List.map_singleton]
    rw [List.flatten_cons, ← List.append_assoc]
    rw [sequences, rowIndices_numbered]
    simp only [ih begun, List.map_cons, indexed]

end Indexing

/-- The steps from token to token in rows, each row from a carriage return to a carriage return. -/
def transitions (rows : List (List String)) : List (String × String) :=
  rows.flatMap fun row => (between row).zip (between row).tail

theorem flatMap_pairs_between (index : String → Int) (rows : List (List String)) :
    (rows.map fun row => (between row).map index).flatMap pairs =
      (transitions rows).map (Prod.map index index) := by
  rw [List.flatMap_map, transitions, List.map_flatMap]
  congr 1
  funext row
  rw [pairs, ← List.map_tail, List.zip_map]

section Counting

variable [OfNat κ 0] [OfNat κ 1] [Add κ]

/-- Counted up from zero. -/
def tally : Nat → κ
  | 0 => 0
  | n + 1 => tally n + 1

/-- For every two tokens, how often a step goes from the first to the second. -/
def tallied (tokens : List String) (steps : List (String × String)) : List (List κ) :=
  tokens.map fun previous => tokens.map fun next => tally (steps.count (previous, next))

variable {tokens more : List String} {steps : List (String × String)}

theorem width_tallied (tokens : List String) (steps : List (String × String)) :
    width (tallied tokens steps : List (List κ)) = tokens.length := by
  cases tokens with
  | nil => rfl
  | cons token rest => simp [width, tallied]

theorem place?_indexIn {token : String} (known : token ∈ tokens) :
    place? tokens.length (indexIn tokens token) = some (tokens.idxOf token) := by
  have nonneg : 0 ≤ indexIn tokens token := Int.natCast_nonneg _
  have inside : indexIn tokens token < tokens.length :=
    Int.ofNat_lt.mpr (List.idxOf_lt_length_of_mem known)
  exact place?_eq_some nonneg inside

theorem tally_count_append (steps : List (String × String)) (step pair : String × String) :
    (tally ((steps ++ [step]).count pair) : κ) =
      if pair = step then tally (steps.count pair) + 1 else tally (steps.count pair) := by
  rw [List.count_append, List.count_singleton]
  by_cases same : pair = step
  · rw [if_pos same, if_pos (by simp [same]), tally]
  · rw [if_neg same, if_neg (by simp [Ne.symm same]), Nat.add_zero]

/-- One more step. -/
theorem countPair_tallied (nodup : tokens.Nodup) {step : String × String} (first : step.1 ∈ tokens)
    (second : step.2 ∈ tokens) :
    countPair (tallied tokens steps : List (List κ)) (step.map (indexIn tokens) (indexIn tokens)) =
      .ok (tallied tokens (steps ++ [step])) := by
  have rows : (tallied tokens steps : List (List κ)).length = tokens.length := by
    rw [tallied, List.length_map]
  rw [countPair, rows, width_tallied, Prod.map_fst, Prod.map_snd, place?_indexIn first,
    place?_indexIn second]
  dsimp only
  rw [tallied, tallied, modify_map_idxOf nodup]
  congr 1
  apply List.map_congr_left
  intro previous _
  by_cases here : previous = step.1
  · rw [if_pos here, modify_map_idxOf nodup]
    apply List.map_congr_left
    intro next _
    rw [tally_count_append]
    exact if_congr (by simp [Prod.ext_iff, here]) rfl rfl
  · rw [if_neg here]
    apply List.map_congr_left
    intro next _
    rw [tally_count_append, if_neg fun same => here (congrArg Prod.fst same)]

/-- All steps between known tokens, one after another. -/
theorem foldlM_countPair_tallied (nodup : tokens.Nodup) (new : List (String × String))
    (inside : ∀ step ∈ new, step.1 ∈ tokens ∧ step.2 ∈ tokens) :
    (new.map (Prod.map (indexIn tokens) (indexIn tokens))).foldlM countPair
      (tallied tokens steps : List (List κ)) = .ok (tallied tokens (steps ++ new)) := by
  induction new generalizing steps with
  | nil =>
    rw [List.append_nil]
    rfl
  | cons step rest ih =>
    obtain ⟨first, second⟩ := inside step List.mem_cons_self
    rw [List.map_cons, List.foldlM_cons, countPair_tallied nodup first second,
      List.append_cons steps step rest]
    exact ih fun later member => inside later (List.mem_cons_of_mem _ member)

theorem stretch_of_length {α : Type} {size : Nat} {items : List α} (length : items.length = size) :
    stretch size items = items := by
  subst length
  unfold stretch
  split <;> rfl

theorem tally_count_of_outside (inside : ∀ step ∈ steps, step.1 ∈ tokens ∧ step.2 ∈ tokens)
    {previous next : String} (outside : previous ∉ tokens ∨ next ∉ tokens) :
    (tally (steps.count (previous, next)) : κ) = 0 := by
  rw [List.count_eq_zero.mpr, tally]
  intro member
  obtain ⟨first, second⟩ := inside _ member
  exact outside.elim (absurd first) (absurd second)

/-- Room for new tokens, from and to which there have been no steps. -/
theorem grown_tallied (nodup : (tokens ++ more).Nodup)
    (inside : ∀ step ∈ steps, step.1 ∈ tokens ∧ step.2 ∈ tokens) :
    grown (tokens ++ more).length (tallied tokens steps : List (List κ)) =
      .ok (tallied (tokens ++ more) steps) := by
  have fresh : ∀ token ∈ more, token ∉ tokens := fun token new known =>
    (List.nodup_append.mp nodup).2.2 token known token new rfl
  have rows : (tallied tokens steps : List (List κ)).length = tokens.length := by
    rw [tallied, List.length_map]
  have corner : min tokens.length (tokens ++ more).length = tokens.length := by simp
  have rest : (tokens ++ more).length - tokens.length = more.length := by simp
  have zeros : List.replicate more.length (0 : κ) = more.map fun _ => 0 := List.map_const'.symm
  have kept : ∀ previous ∈ tokens,
      stretch tokens.length (tokens.map fun next => (tally (steps.count (previous, next)) : κ)) ++
        List.replicate more.length 0 = (tokens ++ more).map fun next =>
        tally (steps.count (previous, next)) := by
    intro previous _
    rw [stretch_of_length (List.length_map _), List.map_append, zeros]
    congr 1
    apply List.map_congr_left
    intro next new
    rw [tally_count_of_outside inside (.inr (fresh next new))]
  have added : ∀ previous ∈ more, List.replicate (tokens ++ more).length (0 : κ) =
      (tokens ++ more).map fun next => tally (steps.count (previous, next)) := by
    intro previous new
    rw [← List.map_const']
    apply List.map_congr_left
    intro next _
    rw [tally_count_of_outside inside (.inl (fresh previous new))]
  rw [grown, rows, corner, width_tallied, rest, if_pos (.inr ⟨by simp [fits], by simp [fits]⟩),
    stretch_of_length rows]
  dsimp only
  rw [tallied, tallied, List.map_append, List.map_map]
  congr 2
  · exact List.map_congr_left kept
  · rw [← List.map_const']
    exact List.map_congr_left added

end Counting

/-- The tokens of rows in the order in which they first occur, the carriage return before them. -/
def vocabulary (rows : List (List String)) : List String := (returnToken :: rows.flatten).eraseDups

theorem transitions_append (rows more : List (List String)) :
    transitions (rows ++ more) = transitions rows ++ transitions more := by
  rw [transitions, List.flatMap_append]
  rfl

theorem vocabulary_append (rows more : List (List String)) :
    ∃ new, vocabulary (rows ++ more) = vocabulary rows ++ new := by
  rw [vocabulary, List.flatten_append, ← List.cons_append, List.eraseDups_append]
  exact ⟨_, rfl⟩

theorem nodup_vocabulary (rows : List (List String)) : (vocabulary rows).Nodup := nodup_eraseDups _

theorem mem_vocabulary {rows : List (List String)} {token : String} :
    token ∈ vocabulary rows ↔ token = returnToken ∨ token ∈ rows.flatten := by
  rw [vocabulary, List.mem_eraseDups, List.mem_cons]

theorem length_vocabulary_pos (rows : List (List String)) : 0 < (vocabulary rows).length :=
  List.length_pos_of_mem (mem_vocabulary.mpr (.inl rfl))

theorem getElem_zero_vocabulary {rows : List (List String)}
    (inside : 0 < (vocabulary rows).length) : (vocabulary rows)[0] = returnToken := by
  simp only [vocabulary, List.eraseDups_cons, List.getElem_cons_zero]

theorem getElem_vocabulary_ne {rows : List (List String)} {i : Nat} (positive : 0 < i)
    (inside : i < (vocabulary rows).length) : (vocabulary rows)[i] ≠ returnToken := by
  rw [← getElem_zero_vocabulary (length_vocabulary_pos rows)]
  intro same
  exact Nat.ne_of_gt positive ((nodup_vocabulary rows).getElem_inj_iff.mp same)

theorem mem_vocabulary_of_between {rows : List (List String)} {row : List String} {token : String}
    (member : row ∈ rows) (here : token ∈ between row) : token ∈ vocabulary rows := by
  have here : token ∈ [returnToken] ++ row := mem_of_mem_between rfl here
  rcases List.mem_cons.mp here with rfl | inRow
  · exact mem_vocabulary.mpr (.inl rfl)
  · exact mem_vocabulary.mpr (.inr (List.mem_flatten.mpr ⟨row, member, inRow⟩))

theorem mem_vocabulary_of_transition {rows : List (List String)} {step : String × String}
    (taken : step ∈ transitions rows) : step.1 ∈ vocabulary rows ∧ step.2 ∈ vocabulary rows := by
  obtain ⟨row, member, taken⟩ := List.mem_flatMap.mp taken
  obtain ⟨first, second⟩ := List.of_mem_zip taken
  exact ⟨mem_vocabulary_of_between member first, mem_vocabulary_of_between member
    (List.mem_of_mem_tail second)⟩

section Fitting

variable [OfNat κ 0] [OfNat κ 1] [Add κ]

/-- The model of rows: their vocabulary, and how often each step is taken. -/
def ofRows (smoothing temperature : Float) (rows : List (List String)) : Model κ where
  smoothing := smoothing
  temperature := temperature
  words := numbering (vocabulary rows)
  indices := (numbering (vocabulary rows)).map Prod.swap
  counts := tallied (vocabulary rows) (transitions rows)

section Known

variable {smoothing temperature : Float} {rows : List (List String)}

@[simp] theorem vocabSize_ofRows :
    (ofRows smoothing temperature rows : Model κ).vocabSize = (vocabulary rows).length :=
  length_numbering _

theorem word_ofRows {i : Nat} (inside : i < (vocabulary rows).length) :
    (ofRows smoothing temperature rows : Model κ).word i = (vocabulary rows)[i] := by
  rw [word, ofRows, find?_numbering, List.getElem?_eq_getElem inside, Option.getD_some]

end Known

theorem new_eq_ofRows (smoothing temperature : Float) :
    (new smoothing temperature : Model κ) = ofRows smoothing temperature [] := rfl

theorem sequences_ofRows (smoothing temperature : Float) (rows more : List (List String)) :
    (ofRows smoothing temperature rows : Model κ).sequences more =
      (more.map fun row => (between row).map (indexIn (vocabulary (rows ++ more))),
        (ofRows smoothing temperature rows : Model κ).numbered (vocabulary (rows ++ more))) := by
  have seen : vocabulary (rows ++ more) =
      (returnToken :: rows.flatten ++ more.flatten).eraseDups := by
    rw [vocabulary, List.flatten_append, List.cons_append]
  have start : (returnToken :: rows.flatten).head? = some returnToken := rfl
  rw [seen]
  exact sequences_numbered (ofRows smoothing temperature rows : Model κ) start more

/-- Fitting the model of rows to more rows gives the model of all of them. -/
theorem fit_ofRows (smoothing temperature : Float) (rows more : List (List String)) :
    (ofRows smoothing temperature rows : Model κ).fit more =
      (.ok (), ofRows smoothing temperature (rows ++ more)) := by
  obtain ⟨new, extended⟩ := vocabulary_append rows more
  have nodup := nodup_vocabulary (rows ++ more)
  have inside : ∀ step ∈ transitions more, step.1 ∈ vocabulary (rows ++ more) ∧
      step.2 ∈ vocabulary (rows ++ more) := by
    intro step taken
    apply mem_vocabulary_of_transition
    rw [transitions_append]
    exact List.mem_append_right _ taken
  have room : grown (vocabulary (rows ++ more)).length
      (tallied (vocabulary rows) (transitions rows) : List (List κ)) =
      .ok (tallied (vocabulary (rows ++ more)) (transitions rows)) := by
    rw [extended] at nodup ⊢
    exact grown_tallied nodup fun step taken => mem_vocabulary_of_transition taken
  rw [fit, sequences_ofRows]
  dsimp only
  rw [flatMap_pairs_between, vocabSize, numbered, length_numbering]
  simp only [ofRows, room, bind, Except.bind]
  rw [foldlM_countPair_tallied nodup _ inside, ← transitions_append]

/-- Fits row lists one after another, up to the first that fails. -/
def fitAll : Model κ → List (List (List String)) → Except ModelError Unit × Model κ
  | m, [] => (.ok (), m)
  | m, rows :: rest =>
    match m.fit rows with
    | (.ok _, m) => fitAll m rest
    | (.error e, m) => (.error e, m)

theorem fitAll_ofRows (smoothing temperature : Float) (rows : List (List String))
    (calls : List (List (List String))) :
    (ofRows smoothing temperature rows : Model κ).fitAll calls =
      (.ok (), ofRows smoothing temperature (rows ++ calls.flatten)) := by
  induction calls generalizing rows with
  | nil => rw [List.flatten_nil, List.append_nil, fitAll]
  | cons more rest ih =>
    rw [fitAll, fit_ofRows]
    dsimp only
    rw [ih, List.flatten_cons, List.append_assoc]

/-- However many calls the rows come in, they all succeed, and the model is that of all rows. -/
theorem fitAll_new (smoothing temperature : Float) (calls : List (List (List String))) :
    (new smoothing temperature : Model κ).fitAll calls =
      (.ok (), ofRows smoothing temperature calls.flatten) := by
  rw [new_eq_ofRows, fitAll_ofRows, List.nil_append]

/-- Fitting is incremental. After any earlier calls, two row lists in turn give the same model as
both at once, which is that of all rows so far. -/
theorem fit_incremental (smoothing temperature : Float) (earlier : List (List (List String)))
    (a b : List (List String)) :
    ∃ m first : Model κ, (new smoothing temperature).fitAll earlier = (.ok (), m) ∧
      m.fit a = (.ok (), first) ∧
      first.fit b = (.ok (), ofRows smoothing temperature (earlier.flatten ++ (a ++ b))) ∧
      m.fit (a ++ b) = (.ok (), ofRows smoothing temperature (earlier.flatten ++ (a ++ b))) := by
  refine ⟨_, _, fitAll_new smoothing temperature earlier, fit_ofRows _ _ _ a, ?_,
    fit_ofRows _ _ _ _⟩
  rw [fit_ofRows, List.append_assoc]

end Fitting

end Model

end Termwise
