import Termwise.Proofs.Spelling

/-! Reading with wildcards is substitution. A token that is left to the reader of numbers uses one
digit for each of its wildcards and reads as the token with those digits written into it; any other
token uses none. So the digits of a source go to the wildcards of a program in the order in which
they are written. -/
namespace Termwise

theorem Text.length_splitAt (mark : Char) (cs : List Char) :
    (splitAt mark cs).length = cs.count mark + 1 := by
  induction cs with
  | nil => rfl
  | cons c rest ih =>
    rw [splitAt, List.count_cons]
    split
    case isTrue same => simp [same, ih]
    case isFalse other =>
      split
      next none => exact absurd none (splitAt_ne_nil mark rest)
      next piece more pieces =>
        rw [pieces] at ih
        simpa [other] using ih

/-- The source after so many digits more. -/
def Chance.after (chance : Chance) (count : Nat) : Chance :=
  { chance with digitsUsed := chance.digitsUsed + count }

theorem Chance.after_after (chance : Chance) (first second : Nat) :
    (chance.after first).after second = chance.after (first + second) := by
  simp [after, Nat.add_assoc]

/-- Items that each use a known number of digits use them one after another. -/
theorem mapM_after {α β : Type} {read : α → StateM Chance β} {cost : α → Nat}
    (step : ∀ a chance, (read a chance).2 = chance.after (cost a)) (items : List α)
    (chance : Chance) :
    items.mapM read chance =
      (items.mapIdx fun i a => (read a (chance.after ((items.take i).map cost).sum)).1,
        chance.after (items.map cost).sum) := by
  induction items generalizing chance with
  | nil => rfl
  | cons a items ih =>
    rw [List.mapM_cons, List.mapIdx_cons]
    show ((read a chance).1 :: (items.mapM read (read a chance).2).1,
      (items.mapM read (read a chance).2).2) = _
    rw [step, ih]
    simp only [Chance.after_after, List.take_succ_cons, List.map_cons, List.sum_cons,
      List.take_zero, List.map_nil, List.sum_nil]
    rfl

namespace Term

/-- No rule before the one for numbers takes the token: it is no word of the language, it does not
start as a register or an assignment does, and it has no slash or more than one. -/
structure Unclaimed (token : String) : Prop where
  word : token ∉ fixedWords
  leadless : ∀ lead ∈ leads, ¬lead.toList <+: token.toList
  slashes : token.toList.count '/' ≠ 1

instance (token : String) : Decidable (Unclaimed token) :=
  decidable_of_iff (token ∉ fixedWords ∧ (∀ lead ∈ leads, ¬lead.toList <+: token.toList) ∧
    token.toList.count '/' ≠ 1) ⟨fun ⟨word, leadless, slashes⟩ => ⟨word, leadless, slashes⟩,
      fun ⟨word, leadless, slashes⟩ => ⟨word, leadless, slashes⟩⟩

theorem callRule_eq_none_iff {token : List Char} : callRule token = none ↔ token.count '/' ≠ 1 := by
  have length := Text.length_splitAt '/' token
  unfold callRule
  split
  next name count pieces =>
    rw [pieces] at length
    refine iff_of_false ?_ ?_
    · split <;> simp
    · simpa using length.symm
  next other =>
    refine iff_of_true rfl ?_
    intro single
    rw [single] at length
    obtain ⟨name, count, pieces⟩ := List.length_eq_two.mp length
    exact other name count pieces

theorem classify_eq_none_iff {token : String} : classify token = none ↔ Unclaimed token := by
  constructor
  · intro unclassified
    have known : ∀ word ∈ fixedWords, (classify word).isSome = true := by decide +kernel
    have word : token ∉ fixedWords := by
      intro member
      have := known token member
      rw [unclassified] at this
      cases this
    rw [classify_of_not_fixed word, Option.or_eq_none_iff, Option.or_eq_none_iff] at unclassified
    obtain ⟨noRegister, noAssignment, noCall⟩ := unclassified
    exact ⟨word, leadless_of_rules noRegister noAssignment, callRule_eq_none_iff.mp noCall⟩
  · rintro ⟨word, leadless, slashes⟩
    obtain ⟨noRegister, noAssignment⟩ := rules_of_leadless leadless
    rw [classify_of_not_fixed word, noRegister, noAssignment, callRule_eq_none_iff.mpr slashes]
    rfl

/-- How many digits reading a token uses. -/
def drawn (token : String) : Nat := if Unclaimed token then wildcards token else 0

/-- Writes digits over the wildcards: over each one the digit whose number is that of the wildcards
before it. -/
def overwrite (digits : Nat → Nat) (cs : List Char) : List Char :=
  cs.mapIdx fun place c =>
    if c = wildcard then Nat.digitChar (digits ((cs.take place).count wildcard)) else c

/-- The token with its wildcards overwritten. -/
def substitute (digits : Nat → Nat) (token : String) : String :=
  String.ofList (overwrite digits token.toList)

variable {digits : Nat → Nat} {cs : List Char}

theorem toList_substitute (digits : Nat → Nat) (token : String) :
    (substitute digits token).toList = overwrite digits token.toList :=
  String.toList_ofList

theorem overwrite_wildcard (digits : Nat → Nat) (cs : List Char) :
    overwrite digits (wildcard :: cs) =
      Nat.digitChar (digits 0) :: overwrite (fun k => digits (k + 1)) cs := by
  simp [overwrite, List.mapIdx_cons]

theorem overwrite_other {c : Char} (other : c ≠ wildcard) (digits : Nat → Nat) (cs : List Char) :
    overwrite digits (c :: cs) = c :: overwrite digits cs := by
  simp [overwrite, List.mapIdx_cons, other]

theorem length_overwrite (digits : Nat → Nat) (cs : List Char) :
    (overwrite digits cs).length = cs.length :=
  List.length_mapIdx

/-- The digits that are drawn are written over the wildcards in order. -/
theorem fill_eq_overwrite (decimal : ∀ k, digits k < 10) (cs : List Char) :
    fill cs ((List.range (cs.count wildcard)).map digits) = overwrite digits cs := by
  have single : ∀ d < 10, (toString d).toList = [Nat.digitChar d] := by decide
  induction cs generalizing digits with
  | nil => rfl
  | cons c cs ih =>
    by_cases same : c = wildcard
    · subst same
      rw [overwrite_wildcard, List.count_cons_self, List.range_succ_eq_map, List.map_cons,
        List.map_map, fill, if_pos rfl, single _ (decimal 0), ← ih fun k => decimal (k + 1)]
      rfl
    · rw [overwrite_other same, List.count_cons_of_ne same, ← ih decimal, fill.eq_def]
      simp only [if_neg same]

theorem isDigit_digitChar (decimal : ∀ k, digits k < 10) (k : Nat) :
    Text.isDigit (Nat.digitChar (digits k)) = true := by
  have all : ∀ d < 10, Text.isDigit (Nat.digitChar d) = true := by decide
  exact all _ (decimal k)

/-- A start without digits of a token that was overwritten is a start of the token itself. -/
theorem prefix_of_prefix_overwrite (decimal : ∀ k, digits k < 10) {start : List Char}
    (plain : start.any Text.isDigit = false) (part : start <+: overwrite digits cs) :
    start <+: cs := by
  induction cs generalizing digits start with
  | nil => exact part
  | cons c cs ih =>
    cases start with
    | nil => exact List.nil_prefix
    | cons first start =>
      obtain ⟨here, plain⟩ := Bool.or_eq_false_iff.mp (List.any_cons.symm.trans plain)
      by_cases same : c = wildcard
      · rw [same, overwrite_wildcard] at part
        obtain ⟨rfl, -⟩ := List.cons_prefix_cons.mp part
        rw [isDigit_digitChar decimal] at here
        cases here
      · rw [overwrite_other same] at part
        obtain ⟨rfl, rest⟩ := List.cons_prefix_cons.mp part
        exact List.cons_prefix_cons.mpr ⟨rfl, ih decimal plain rest⟩

/-- Digits come and wildcards go; any other character occurs as often as before. -/
theorem count_overwrite (decimal : ∀ k, digits k < 10) {c : Char} (other : Text.isDigit c = false)
    (cs : List Char) : (overwrite digits cs).count c = if c = wildcard then 0 else cs.count c := by
  have fresh (k : Nat) : Nat.digitChar (digits k) ≠ c := by
    intro same
    rw [← same, isDigit_digitChar decimal] at other
    cases other
  induction cs generalizing digits with
  | nil => simp [overwrite]
  | cons first cs ih =>
    by_cases same : first = wildcard
    · rw [same, overwrite_wildcard, List.count_cons_of_ne (fresh 0),
        ih (fun k => decimal (k + 1)) fun k => fresh (k + 1)]
      split
      case isTrue => rfl
      case isFalse another => rw [List.count_cons_of_ne (Ne.symm another)]
    · rw [overwrite_other same, List.count_cons, ih decimal fresh, List.count_cons]
      split
      case isTrue gone => simp [gone, same]
      case isFalse => rfl

/-- With digits in the place of its wildcards, a token is still left to the reader of numbers. -/
theorem Unclaimed.substitute {token : String} (unclaimed : Unclaimed token)
    (decimal : ∀ k, digits k < 10) : Unclaimed (substitute digits token) := by
  have plainLeads : ∀ lead ∈ leads, lead.toList.any Text.isDigit = false := by decide
  have plainWords : ∀ word ∈ fixedWords, word.toList.any Text.isDigit = false := by decide
  have chars := toList_substitute digits token
  constructor
  · intro member
    have part : (Term.substitute digits token).toList <+: token.toList :=
      prefix_of_prefix_overwrite decimal (plainWords _ member) (chars ▸ List.prefix_refl _)
    have same : Term.substitute digits token = token :=
      String.toList_injective (part.eq_of_length (by rw [chars, length_overwrite]))
    exact unclaimed.word (same ▸ member)
  · intro lead member part
    rw [chars] at part
    exact unclaimed.leadless lead member
      (prefix_of_prefix_overwrite decimal (plainLeads lead member) part)
  · rw [chars, count_overwrite decimal (by decide), if_neg (by decide)]
    exact unclaimed.slashes

section Parse

variable {token : String}

/-- A token that some rule takes reads the same from every source, and uses no digit. -/
theorem parse_of_claimed (claimed : ¬Unclaimed token) :
    ∃ t, ∀ chance, parse token chance = (t, chance) := by
  cases classified : classify token with
  | none => exact absurd (classify_eq_none_iff.mp classified) claimed
  | some t =>
    refine ⟨t, fun chance => ?_⟩
    rw [parse, classified]
    rfl

/-- A token that is left to the reader of numbers is filled with the next digits of the source. -/
theorem parse_fill (unclaimed : Unclaimed token) (chance : Chance) :
    parse token chance =
      (numeral (String.ofList (fill token.toList
        ((List.range (wildcards token)).map fun k => chance.digits (chance.digitsUsed + k)))),
        chance.after (wildcards token)) := by
  rw [parse, classify_eq_none_iff.mpr unclaimed]
  rfl

theorem state_parse (token : String) (chance : Chance) :
    (parse token chance).2 = chance.after (drawn token) := by
  unfold drawn
  split
  case isTrue unclaimed => rw [parse_fill unclaimed]
  case isFalse claimed =>
    obtain ⟨t, same⟩ := parse_of_claimed claimed
    rw [same]
    rfl

/-- The token with its digits written in reads from every source as the token does from the source
of the digits. -/
theorem parse_substitute (unclaimed : Unclaimed token) (chance : Chance)
    (decimal : ∀ k, chance.digits k < 10) (other : Chance) :
    parse (substitute (fun k => chance.digits (chance.digitsUsed + k)) token) other =
      ((parse token chance).1, other) := by
  have shifted (k : Nat) : chance.digits (chance.digitsUsed + k) < 10 := decimal _
  let text := substitute (fun k => chance.digits (chance.digitsUsed + k)) token
  have filled : (parse token chance).1 = numeral text := by
    rw [parse_fill unclaimed, wildcards, fill_eq_overwrite shifted]
    dsimp only [text, substitute]
  have still : Unclaimed text := unclaimed.substitute shifted
  have none : wildcard ∉ text.toList := by
    rw [← List.count_eq_zero, toList_substitute, count_overwrite shifted (by decide), if_pos rfl]
  -- No wildcard is left, so the other source has nothing to fill in.
  rw [filled, parse_fill still, fill_of_not_mem none, String.ofList_toList, wildcards,
    List.count_eq_zero_of_not_mem none]
  rfl

end Parse

section Rows

theorem parseRow_eq (row : List String) (chance : Chance) :
    parseRow row chance =
      (row.mapIdx fun j token => (parse token (chance.after ((row.take j).map drawn).sum)).1,
        chance.after (row.map drawn).sum) :=
  mapM_after state_parse row chance

theorem parseRows_eq (rows : List (List String)) (chance : Chance) :
    parseRows rows chance =
      (rows.mapIdx fun i row =>
        (parseRow row (chance.after ((rows.take i).map fun row => (row.map drawn).sum).sum)).1,
        chance.after (rows.map fun row => (row.map drawn).sum).sum) :=
  mapM_after (fun row chance => by rw [parseRow_eq]) rows chance

theorem sum_drawn_flatten (rows : List (List String)) :
    (rows.map fun row => (row.map drawn).sum).sum = (rows.flatten.map drawn).sum := by
  rw [List.map_flatten, List.sum_flatten, List.map_map]
  rfl

theorem state_parseRows (rows : List (List String)) (chance : Chance) :
    (parseRows rows chance).2 = chance.after (rows.flatten.map drawn).sum := by
  rw [parseRows_eq, sum_drawn_flatten]

/-- How many digits the tokens before a place use, row after row and from left to right. -/
def drawnBefore (rows : List (List String)) (i j : Nat) : Nat :=
  (((rows.take i).flatten ++ (rows.getD i []).take j).map drawn).sum

variable {rows : List (List String)} {chance : Chance}

theorem length_parseRow (row : List String) (chance : Chance) :
    (parseRow row chance).1.length = row.length := by
  rw [parseRow_eq, List.length_mapIdx]

/-- Each token is read from the source as the tokens before it leave it. -/
theorem getElem?_parseRows {i j : Nat} {token : String}
    (found : (rows.getD i [])[j]? = some token) :
    (((parseRows rows chance).1.getD i []))[j]? =
      some (parse token (chance.after (drawnBefore rows i j))).1 := by
  cases here : rows[i]? with
  | none => simp [List.getD_eq_getElem?_getD, here] at found
  | some row =>
    have same : rows.getD i [] = row := by simp [List.getD_eq_getElem?_getD, here]
    rw [same] at found
    have before : ((rows.take i).map fun row => (row.map drawn).sum).sum +
        ((row.take j).map drawn).sum = drawnBefore rows i j := by
      rw [sum_drawn_flatten, drawnBefore, same, List.map_append, List.sum_append]
    rw [parseRows_eq, List.getD_eq_getElem?_getD, List.getElem?_mapIdx, here, Option.map_some,
      Option.getD_some,
      parseRow_eq, List.getElem?_mapIdx, found, Option.map_some, Chance.after_after, before]

end Rows

/-- Reading rows gives each wildcard of a token that is left to the reader of numbers the next digit
of the source, in the order in which the rows are written. The term of such a token is that of the
token with its digits written in, from whatever source; any other token uses no digit, and its term
is the same from every source. -/
theorem parseRows_substitutes (rows : List (List String)) (chance : Chance)
    (decimal : ∀ k, chance.digits k < 10) :
    ∃ terms, parseRows rows chance = (terms, chance.after (rows.flatten.map drawn).sum) ∧
      terms.map List.length = rows.map List.length ∧
      ∀ i j token, (rows.getD i [])[j]? = some token →
        ∃ term, (terms.getD i [])[j]? = some term ∧
          (Unclaimed token → ∀ other,
            parse (substitute
              (fun k => chance.digits (chance.digitsUsed + drawnBefore rows i j + k)) token) other =
                (term, other)) ∧
          (¬Unclaimed token → ∀ other, parse token other = (term, other)) := by
  refine ⟨(parseRows rows chance).1, ?_, ?_, ?_⟩
  · exact Prod.ext rfl (state_parseRows rows chance)
  · rw [parseRows_eq]
    refine List.ext_getElem? fun i => ?_
    simp [List.getElem?_map, List.getElem?_mapIdx, Function.comp_def, length_parseRow]
  · intro i j token found
    refine ⟨_, getElem?_parseRows found, fun unclaimed => ?_, fun claimed other => ?_⟩
    · exact parse_substitute unclaimed (chance.after (drawnBefore rows i j)) decimal
    · obtain ⟨t, same⟩ := parse_of_claimed claimed
      rw [same, same]

/-- Digits for the wildcards of a number and of a token without effect, and for those of a number in
the next row; none for a reserved name, a call and an assignment between them. -/
theorem parseRows_substitutes_counting :
    let chance : Chance := { digits := fun k => k % 9, uniforms := fun _ => 0.0, digitsUsed := 7 }
    let rows := [["1D.D", "QUADS", "D/2", "xDy", "=VD"], ["<IDT>", "DeD"]]
    (∀ k, chance.digits k < 10) ∧ Unclaimed "DeD" ∧ ¬Unclaimed "QUADS" ∧
      ∃ terms, parseRows rows chance = (terms, chance.after 5) ∧
        (∃ term, (terms.getD 0 [])[0]? = some term ∧ ∀ other, parse "17.8" other = (term, other)) ∧
        (∃ term, (terms.getD 0 [])[1]? = some term ∧ ∀ other, parse "QUADS" other = (term, other)) ∧
        ∃ term, (terms.getD 1 [])[1]? = some term ∧ ∀ other, parse "1e2" other = (term, other) := by
  intro chance rows
  have decimal : ∀ k, chance.digits k < 10 :=
    fun k => Nat.lt_trans (Nat.mod_lt k (by decide)) (by decide)
  have last : Unclaimed "DeD" := by decide +kernel
  have claimed : ¬Unclaimed "QUADS" := by decide +kernel
  have first : substitute (fun k => chance.digits (chance.digitsUsed + drawnBefore rows 0 0 + k))
      "1D.D" = "17.8" := by
    decide +kernel
  have second : substitute (fun k => chance.digits (chance.digitsUsed + drawnBefore rows 1 1 + k))
      "DeD" = "1e2" := by
    decide +kernel
  have used : (rows.flatten.map drawn).sum = 5 := by decide +kernel
  obtain ⟨terms, read, -, each⟩ := parseRows_substitutes rows chance decimal
  obtain ⟨number, found, same, -⟩ := each 0 0 "1D.D" rfl
  obtain ⟨name, named, -, fixed⟩ := each 0 1 "QUADS" rfl
  obtain ⟨power, behind, later, -⟩ := each 1 1 "DeD" rfl
  rw [first] at same
  rw [second] at later
  rw [used] at read
  exact ⟨decimal, last, claimed, terms, read, ⟨number, found, same (by decide +kernel)⟩,
    ⟨name, named, fixed claimed⟩, power, behind, later last⟩

end Term

end Termwise
