import Termwise.Model.Sampling
import Termwise.Model.Saved
import Termwise.Proofs.Fitting
import Termwise.Proofs.Numerals
import Termwise.Proofs.Sentences

/-! Saving loses nothing. The vocabulary of a fitted model has each index and each token once, so
the table of words determines the table of indices, and its keys come back from their decimal texts.
Loading a saved model gives the model itself, and a session in which models are saved and loaded
again is the session without that. -/
namespace Termwise

/-- Entries with different keys are a table as they stand. -/
theorem Table.ofList_of_nodup {κ β : Type} [DecidableEq κ] {entries : List (κ × β)}
    (nodup : (Table.keys entries).Nodup) : Table.ofList entries = entries := by
  induction entries using List.reverseRecOn with
  | nil => rfl
  | append_singleton entries last ih =>
    rw [keys, List.map_append, List.nodup_append] at nodup
    obtain ⟨nodup, -, apart⟩ := nodup
    have free : last.1 ∉ Table.keys entries := fun member => apart _ member _ (by simp) rfl
    rw [ofList, List.foldl_append, ← ofList, ih nodup, List.foldl_cons, List.foldl_nil,
      insert_of_not_mem free]

namespace Number

theorem toList_toString_natCast (n : Nat) : (toString (n : Int)).toList = Nat.toDigits 10 n := by
  rw [Int.toString_eq_repr, Int.repr_eq_if]
  simp [Nat.repr]

theorem signOff_of_digits {cs : List Char} (digits : Text.Digits cs) :
    signOff cs = (false, cs) := by
  obtain ⟨first, rest, rfl⟩ := List.exists_cons_of_ne_nil digits.content
  have plain := signOff_withSign (digits.digits first List.mem_cons_self) false rest
  simpa [withSign] using plain

/-- A natural number comes back from its decimal text. -/
theorem intOfString?_natCast (n : Nat) : intOfString? (toString (n : Int)) = some (n : Int) := by
  have digits := Text.digits_toDigits n
  have absent : '_' ∉ Nat.toDigits 10 n := fun member =>
    absurd ((numeric_of_digits digits).chars '_' member) (by decide)
  have kept : withoutLowLines? ' ' (Nat.toDigits 10 n) = some (Nat.toDigits 10 n) :=
    withoutLowLines?_eq (by decide) absent
  rw [intOfString?, readInt?, toList_toString_natCast, normalized?_eq (numeric_of_digits digits)]
  simp only [Option.bind_eq_bind, Option.bind_some, signOff_of_digits digits, kept,
    Text.natural?_toDigits]
  rfl

end Number

namespace Model

theorem keys_numbering (tokens : List String) :
    (numbering tokens).keys = (List.range tokens.length).map fun (i : Nat) => (i : Int) := by
  rw [Table.keys, numbering, List.map_map, List.range_eq_range', ← List.zipIdx_map_snd 0 tokens,
    List.map_map]
  rfl

theorem nodup_keys_numbering (tokens : List String) : (numbering tokens).keys.Nodup := by
  rw [keys_numbering]
  exact List.nodup_range.map Int.ofNat_injective

theorem mapM_map_ok {α β : Type} {write : α → β} {read : β → Except ModelError α} {items : List α}
    (back : ∀ a ∈ items, read (write a) = .ok a) : (items.map write).mapM read = .ok items := by
  have same : ∀ a ∈ items, (read ∘ write) a = pure (id a) := back
  rw [List.mapM_map, mapM_of_pure same, List.map_id]
  rfl

/-- The words come back from the texts of their indices. -/
theorem mapM_entry_numbering (tokens : List String) :
    ((numbering tokens).map fun (i, word) => (toString i, Json.string word)).mapM entry =
      .ok (numbering tokens) := by
  apply mapM_map_ok
  intro pair member
  obtain ⟨⟨token, i⟩, -, rfl⟩ := List.mem_map.mp member
  simp only [entry, Number.intOfString?_natCast]
  rfl

theorem countsMatrix_map_float {counts : List (List Float)} {size : Nat}
    (columns : ∀ row ∈ counts, row.length = size) :
    countsMatrix (counts.map fun row => row.map Json.float) = .ok counts := by
  have row : ∀ row ∈ counts, countsRow (row.map Json.float) = .ok row :=
    fun _ _ => mapM_map_ok fun _ _ => rfl
  have all := mapM_map_ok row
  cases counts with
  | nil => rfl
  | cons first rest =>
    obtain ⟨width, others⟩ := List.forall_mem_cons.mp columns
    have even : (rest.map fun row => row.map Json.float).all fun row => row.length =
        (first.map Json.float).length := by
      simpa [width] using others
    rw [List.map_cons, countsMatrix, if_pos even]
    exact all

variable {smoothing temperature : Float} {rows : List (List String)}

theorem load_save_ofRows :
    load (ofRows smoothing temperature rows : Model Float).save =
      .ok (ofRows smoothing temperature rows) := by
  have words := Table.ofList_of_nodup (nodup_keys_numbering (vocabulary rows))
  -- No token has two indices, so turning the table round loses none of them.
  have indices : Table.ofList ((numbering (vocabulary rows)).map fun (i, word) => (word, i)) =
      (numbering (vocabulary rows)).map Prod.swap := by
    apply Table.ofList_of_nodup
    exact (keys_swap_numbering (vocabulary rows)).symm ▸ nodup_vocabulary rows
  have counts := countsMatrix_map_float (square_ofRows smoothing temperature rows).columns
  rw [ofRows] at counts ⊢
  simp only [load, save, numberOr, number, orFail, mapM_entry_numbering, bind, Except.bind, words,
    indices, counts]
  rfl

/-- What can be done with a model. -/
inductive Use where
  | fit (rows : List (List String))
  | predict (maxTerms : Int)
  | generate (maxTerms : Int) (count : Nat)
  | reload
deriving DecidableEq

/-- What comes of it. -/
inductive Answer where
  | fitted (result : Except ModelError Unit)
  | predicted (result : Except ModelError (List Int))
  | generated (result : Except ModelError (List (List String)))

/-- One use of a model. Its failure is an answer, but a model that cannot be loaded again ends the
session. -/
def use (choose : Chooser) (m : Model Float) : Use → Sampling (List Answer × Model Float)
  | .fit rows =>
    let (result, m) := m.fit rows
    return ([.fitted result], m)
  | .predict maxTerms => do
    let result ← ExceptT.lift (m.predict choose maxTerms).run
    return ([.predicted result], m)
  | .generate maxTerms count => do
    let result ← ExceptT.lift (m.generateRows choose maxTerms count).run
    return ([.generated result], m)
  | .reload => do
    let m ← MonadExcept.ofExcept (load m.save)
    return ([], m)

/-- A session: the answers in order, and the model in the end. -/
def useAll (choose : Chooser) : Model Float → List Use → Sampling (List Answer × Model Float)
  | m, [] => return ([], m)
  | m, u :: rest => do
    let (answers, m) ← m.use choose u
    let (more, m) ← useAll choose m rest
    return (answers ++ more, m)

theorem use_reload (choose : Chooser) :
    (ofRows smoothing temperature rows).use choose .reload =
      pure ([], ofRows smoothing temperature rows) := by
  simp only [use, load_save_ofRows, MonadExcept.ofExcept, pure_bind]

/-- Whatever is done with the model of rows, it stays the model of rows. -/
theorem use_ofRows (choose : Chooser) (u : Use) :
    ∃ (answers : Sampling (List Answer)) (more : List (List String)),
      (ofRows smoothing temperature rows).use choose u =
      answers >>= fun made => pure (made, ofRows smoothing temperature (rows ++ more)) := by
  cases u with
  | fit more =>
    refine ⟨pure [.fitted (.ok ())], more, ?_⟩
    rw [use, fit_ofRows, pure_bind]
  | predict maxTerms =>
    let said := (predict choose (ofRows smoothing temperature rows) maxTerms).run
    refine ⟨(fun result => [.predicted result]) <$> ExceptT.lift said, [], ?_⟩
    rw [use, List.append_nil, bind_map_left]
  | generate maxTerms count =>
    let made := (generateRows choose (ofRows smoothing temperature rows) maxTerms count).run
    refine ⟨(fun result => [.generated result]) <$> ExceptT.lift made, [], ?_⟩
    rw [use, List.append_nil, bind_map_left]
  | reload =>
    refine ⟨pure [], [], ?_⟩
    rw [use_reload, pure_bind, List.append_nil]

/-- A session with the model of rows goes on as if nothing had been saved and loaded again. -/
theorem useAll_ofRows (choose : Chooser) (uses : List Use) :
    (ofRows smoothing temperature rows).useAll choose uses =
      (ofRows smoothing temperature rows).useAll choose (uses.filter (· ≠ .reload)) := by
  induction uses generalizing rows with
  | nil => rfl
  | cons u rest ih =>
    by_cases reloads : u = .reload
    · rw [List.filter_cons_of_neg (by simp [reloads]), ← ih, useAll, reloads, use_reload, pure_bind]
      exact bind_pure _
    · obtain ⟨answers, more, used⟩ := use_ofRows choose u
      rw [List.filter_cons_of_pos (by simp [reloads]), useAll, useAll, used]
      simp only [bind_assoc, pure_bind, ih]

/-- Persistence is lossless. A fitted model that is saved and loaded again is the same model, and so
it answers every later use as if it had not been saved, with the same chances; nor does it matter
how often it is saved and loaded in between. -/
theorem load_save_lossless (smoothing temperature : Float) (calls : List (List (List String))) :
    ∃ m loaded : Model Float, (new smoothing temperature).fitAll calls = (.ok (), m) ∧
      load m.save = .ok loaded ∧
      loaded = m ∧ ∀ choose uses, loaded.useAll choose uses =
        m.useAll choose (uses.filter (· ≠ .reload)) :=
  ⟨_, _, fitAll_new smoothing temperature calls, load_save_ofRows, rfl,
    fun choose uses => useAll_ofRows choose uses⟩

end Model

end Termwise
