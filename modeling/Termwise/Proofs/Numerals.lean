import Mathlib.Data.Nat.Digits.Defs
import Termwise.Proofs.Decimals

/-! The texts of numbers. A number is written in decimal notation, as an integer or with the fewest
digits, and reading the text gives the number back. -/
namespace Termwise

namespace Text

variable {cs : List Char}

/-- Digits, at least one. -/
structure Digits (cs : List Char) : Prop where
  content : cs ≠ []
  digits : ∀ c ∈ cs, isDigit c = true

theorem digits_toDigits (n : Nat) : Digits (Nat.toDigits 10 n) :=
  ⟨Nat.toDigits_ne_nil, fun _ => Nat.isDigit_of_mem_toDigits (by decide) (by decide)⟩

theorem digits_zero : Digits ['0'] := digits_toDigits 0

theorem Digits.natural? (digits : Digits cs) : natural? cs = some (digitsValue cs) :=
  if_pos ⟨digits.content, List.all_eq_true.mpr digits.digits⟩

theorem digitsValue_toDigits (n : Nat) : digitsValue (Nat.toDigits 10 n) = n :=
  Nat.ofDigitChars_ten_toDigits

theorem natural?_toDigits (n : Nat) : Text.natural? (Nat.toDigits 10 n) = some n := by
  rw [(digits_toDigits n).natural?, digitsValue_toDigits]

/-- Digits, with the number that they stand for in decimal notation. -/
structure Numeral (cs : List Char) (n : Nat) : Prop extends Digits cs where
  value : n = Nat.ofDigits 10 (cs.reverse.map fun c => c.toNat - '0'.toNat)

theorem digitsValue_eq_ofDigits (cs : List Char) :
    digitsValue cs = Nat.ofDigits 10 (cs.reverse.map fun c => c.toNat - '0'.toNat) := by
  induction cs using List.reverseRecOn with
  | nil => rfl
  | append_singleton cs c ih =>
    rw [List.reverse_concat, List.map_cons, Nat.ofDigits_cons, ← ih, digitsValue, List.foldl_concat,
      Nat.add_comm]
    rfl

theorem natural?_eq_some_iff {n : Nat} : natural? cs = some n ↔ Numeral cs n := by
  constructor
  · intro found
    obtain ⟨⟨content, digits⟩, value⟩ := Option.ite_none_right_eq_some.mp found
    exact ⟨⟨content, List.all_eq_true.mp digits⟩, (Option.some.inj value).symm.trans
      (digitsValue_eq_ofDigits cs)⟩
  · rintro ⟨digits, value⟩
    rw [digits.natural?, value, digitsValue_eq_ofDigits]

theorem numeral_toDigits (n : Nat) : Numeral (Nat.toDigits 10 n) n :=
  natural?_eq_some_iff.mp (natural?_toDigits n)

theorem Digits.cons_zero (digits : Digits cs) : Digits ('0' :: cs) := by
  refine ⟨by simp, ?_⟩
  intro c member
  rcases List.mem_cons.mp member with rfl | later
  · decide
  · exact digits.digits c later

theorem isDigit_of_mem_zeros {k : Nat} {c : Char} (member : c ∈ List.replicate k '0') :
    isDigit c = true := by
  rw [List.eq_of_mem_replicate member]
  decide

def EndsInDigit (cs : List Char) : Prop := ∃ init d, cs = init ++ [d] ∧ isDigit d = true

theorem EndsInDigit.append (ends : EndsInDigit cs) (before : List Char) :
    EndsInDigit (before ++ cs) := by
  obtain ⟨init, d, rfl, digit⟩ := ends
  exact ⟨before ++ init, d, by simp, digit⟩

theorem Digits.endsInDigit (digits : Digits cs) : EndsInDigit cs :=
  ⟨cs.dropLast, cs.getLast digits.content, (List.dropLast_concat_getLast digits.content).symm,
    digits.digits _ (List.getLast_mem digits.content)⟩

end Text

namespace Number

open Text (Digits)

/-- The characters of decimal notation. -/
def alphabet : List Char := "0123456789-+.e".toList

theorem mem_alphabet_of_isDigit {c : Char} (digit : Text.isDigit c = true) : c ∈ alphabet := by
  have digits : ∀ n < 58, Text.isDigit (Char.ofNat n) = true → Char.ofNat n ∈ alphabet := by decide
  have small : c ≤ '9' := by simp_all [Text.isDigit]
  rw [← Char.ofNat_toNat c]
  apply digits c.toNat (Nat.lt_succ_of_le small)
  rw [Char.ofNat_toNat, digit]

/-- Decimal notation by its characters, with a digit at the end. -/
structure Numeric (cs : List Char) : Prop where
  chars : ∀ c ∈ cs, c ∈ alphabet
  ends : Text.EndsInDigit cs

variable {cs : List Char}

theorem numeric_of_digits (digits : Digits cs) : Numeric cs :=
  ⟨fun c member => mem_alphabet_of_isDigit (digits.digits c member), digits.endsInDigit⟩

theorem Numeric.append {before : List Char} (numeric : Numeric cs)
    (chars : ∀ c ∈ before, c ∈ alphabet) : Numeric (before ++ cs) := by
  refine ⟨?_, numeric.ends.append before⟩
  intro c member
  rcases List.mem_append.mp member with first | later
  · exact chars c first
  · exact numeric.chars c later

theorem Numeric.cons (numeric : Numeric cs) {c : Char} (char : c ∈ alphabet) :
    Numeric (c :: cs) := by
  apply numeric.append (show ∀ d ∈ [c], _ from ?_)
  simpa using char

namespace Decimal

theorem digits_trimZeros (digits : Digits cs) : Digits (trimZeros cs) := by
  unfold trimZeros
  split
  next => exact Text.digits_zero
  next trimmed content =>
    refine ⟨content, fun c member => digits.digits c ?_⟩
    have kept := (List.dropWhile_sublist (fun c => decide (c = '0'))).subset
      (List.mem_reverse.mp member)
    exact List.mem_reverse.mp kept

theorem digits_ofScaled (n : Nat) (exponent : Int) : Digits (ofScaled n exponent).digits :=
  digits_trimZeros (Text.digits_toDigits n)

theorem digits_shortestFrom (b : Binary) (point : Int) (fuel count : Nat) :
    Digits (shortestFrom b point fuel count).digits := by
  induction fuel generalizing count with
  | zero => exact digits_ofScaled _ _
  | succ fuel ih =>
    rw [shortestFrom]
    split
    next d found =>
      obtain ⟨n, -, rfl⟩ := readsBack?_eq found
      exact digits_ofScaled _ _
    next => exact ih (count + 1)

theorem digits_shortest (b : Binary) : Digits (shortest b).digits := by
  unfold shortest
  split
  · exact Text.digits_zero
  · exact digits_shortestFrom b _ 17 1

end Decimal

/-- Decimal notation taken apart: digits, the places after a point, and an exponent. -/
structure Parts where
  whole : List Char
  places : List Char
  exponent : Option Int

/-- The magnitude that was read. -/
def Scanned.value (s : Scanned) : ℚ := Text.digitsValue s.digits * 10 ^ s.exponent

namespace Parts

variable {p : Parts}

structure Valid (p : Parts) : Prop where
  whole : Digits p.whole
  places : ∀ c ∈ p.places, Text.isDigit c = true

/-- The exponent as it is written. -/
def tail (p : Parts) : List Char := (p.exponent.map Layout.exponentPart).getD []

def text (p : Parts) : List Char :=
  p.whole ++ ((if p.places = [] then [] else '.' :: p.places) ++ p.tail)

/-- What reading the notation gives. -/
def scanned (p : Parts) : Scanned := ⟨p.whole ++ p.places, p.exponent.getD 0 - p.places.length⟩

theorem exponentPart_eq (e : Int) : ∃ ds, Digits ds ∧ Text.digitsValue ds = e.natAbs ∧
    Layout.exponentPart e = 'e' :: (if e < 0 then '-' else '+') :: ds := by
  have digits := Text.digits_toDigits e.natAbs
  have value := Text.digitsValue_toDigits e.natAbs
  by_cases short : (Nat.toDigits 10 e.natAbs).length < 2
  · exact ⟨_, digits.cons_zero, value, by simp only [Layout.exponentPart, if_pos short]⟩
  · exact ⟨_, digits, value, by simp only [Layout.exponentPart, if_neg short]⟩

theorem exponent?_tail (p : Parts) : exponent? p.tail = some (p.exponent.getD 0) := by
  unfold tail
  cases p.exponent with
  | none => rfl
  | some e =>
    obtain ⟨ds, digits, value, written⟩ := exponentPart_eq e
    rw [Option.map_some, Option.getD_some, Option.getD_some, written]
    by_cases negative : e < 0
    · have magnitude : -(e.natAbs : Int) = e := by omega
      simp only [negative, if_true, exponent?, true_or, signOff, digits.natural?, value]
      exact congrArg some magnitude
    · have magnitude : (e.natAbs : Int) = e := by omega
      simp only [negative, if_false, if_true, exponent?, true_or, signOff, digits.natural?, value]
      exact congrArg some magnitude

/-- No digit follows the places. -/
theorem tail_cases (p : Parts) : p.tail = [] ∨ ∃ rest, p.tail = 'e' :: rest := by
  unfold tail
  cases p.exponent with
  | none => exact .inl rfl
  | some e => exact .inr ⟨_, rfl⟩

theorem numeric_text (valid : p.Valid) : Numeric p.text := by
  have whole : ∀ c ∈ p.whole, c ∈ alphabet := fun c member =>
    mem_alphabet_of_isDigit (valid.whole.digits c member)
  have places : ∀ c ∈ if p.places = [] then [] else '.' :: p.places, c ∈ alphabet := by
    intro c member
    split at member
    · cases member
    · rcases List.mem_cons.mp member with rfl | place
      · decide
      · exact mem_alphabet_of_isDigit (valid.places c place)
  unfold text tail
  cases p.exponent with
  | none =>
    rw [Option.map_none, Option.getD_none, List.append_nil]
    split
    next => simpa using numeric_of_digits valid.whole
    next content =>
      exact ((numeric_of_digits ⟨content, valid.places⟩).cons (by decide)).append whole
  | some e =>
    obtain ⟨ds, digits, -, written⟩ := exponentPart_eq e
    rw [Option.map_some, Option.getD_some, written]
    have signed : Numeric ((if e < 0 then '-' else '+') :: ds) := by
      apply (numeric_of_digits digits).cons
      split <;> decide
    exact ((signed.cons (by decide)).append places).append whole

theorem scan?_text (valid : p.Valid) : scan? p.text = some p.scanned := by
  have exponent := exponent?_tail p
  have content := valid.whole.content
  unfold scan? text scanned
  rw [List.takeWhile_append_of_pos valid.whole.digits,
    List.dropWhile_append_of_pos valid.whole.digits]
  by_cases places : p.places = []
  · rcases p.tail_cases with nothing | ⟨rest, mark⟩
    · rw [nothing] at exponent
      simp [places, nothing, content, exponent]
    · rw [mark] at exponent
      simp [places, mark, content, exponent, show Text.isDigit 'e' = false from rfl]
  · have noDigit : p.tail.takeWhile Text.isDigit = [] ∧ p.tail.dropWhile Text.isDigit = p.tail := by
      rcases p.tail_cases with nothing | ⟨rest, mark⟩
      · simp [nothing]
      · simp [mark, show Text.isDigit 'e' = false from rfl]
    rw [if_neg places, List.cons_append, List.takeWhile_cons_of_neg (by decide),
      List.dropWhile_cons_of_neg (by decide), List.append_nil]
    simp only [List.takeWhile_append_of_pos valid.places, List.dropWhile_append_of_pos valid.places,
      noDigit]
    simp [content, exponent]

end Parts

theorem digitsValue_zeros_append (k : Nat) (cs : List Char) :
    Text.digitsValue (List.replicate k '0' ++ cs) = Text.digitsValue cs := by
  rw [Decimal.digitsValue_append, Decimal.digitsValue_zeros, Nat.zero_mul, Nat.zero_add]

theorem digitsValue_append_zeros (k : Nat) (cs : List Char) :
    Text.digitsValue (cs ++ List.replicate k '0') = Text.digitsValue cs * 10 ^ k := by
  rw [Decimal.digitsValue_append, Decimal.digitsValue_zeros, List.length_replicate, Nat.add_zero]

variable {d : Decimal}

/-- A decimal below one, with zeros between the point and its digits. -/
theorem fraction_parts (digits : Digits d.digits) (small : d.point ≤ 0) :
    ∃ p : Parts, p.Valid ∧ Layout.positional true d = p.text ∧ p.scanned.value = d.value := by
  refine ⟨⟨['0'], List.replicate (-d.point).toNat '0' ++ d.digits, none⟩,
    ⟨Text.digits_zero, ?_⟩, ?_, ?_⟩
  · intro c member
    rcases List.mem_append.mp member with zero | digit
    · exact Text.isDigit_of_mem_zeros zero
    · exact digits.digits c digit
  · rw [Layout.positional, if_pos small]
    simp [Parts.text, Parts.tail, digits.content]
  · simp only [Parts.scanned, Scanned.value, Decimal.value, Option.getD_none]
    rw [show ['0'] = List.replicate 1 '0' from rfl, digitsValue_zeros_append,
      digitsValue_zeros_append]
    congr 2
    simp only [List.length_append, List.length_replicate]
    omega

/-- A whole decimal, with zeros between its digits and the point. -/
theorem integral_parts (digits : Digits d.digits) (large : ¬d.point ≤ 0)
    (short : d.digits.length ≤ d.point.toNat) :
    ∃ p : Parts, p.Valid ∧ Layout.positional true d = p.text ∧ p.scanned.value = d.value := by
  refine ⟨⟨d.digits ++ List.replicate (d.point.toNat - d.digits.length) '0', ['0'], none⟩,
    ⟨⟨by simp [digits.content], ?_⟩, Text.digits_zero.digits⟩, ?_, ?_⟩
  · intro c member
    rcases List.mem_append.mp member with digit | zero
    · exact digits.digits c digit
    · exact Text.isDigit_of_mem_zeros zero
  · rw [Layout.positional, if_neg large]
    simp [Parts.text, Parts.tail, short]
  · have exponent : d.point - d.digits.length =
        ((d.point.toNat - d.digits.length : Nat) : Int) := by omega
    simp only [Parts.scanned, Scanned.value, Decimal.value, Option.getD_none, exponent]
    rw [show ['0'] = List.replicate 1 '0' from rfl, digitsValue_append_zeros,
      digitsValue_append_zeros]
    simp

/-- A decimal with the point among its digits. -/
theorem mixed_parts (digits : Digits d.digits) (large : ¬d.point ≤ 0)
    (long : ¬d.digits.length ≤ d.point.toNat) :
    ∃ p : Parts, p.Valid ∧ Layout.positional true d = p.text ∧ p.scanned.value = d.value := by
  refine ⟨⟨d.digits.take d.point.toNat, d.digits.drop d.point.toNat, none⟩, ⟨⟨?_, ?_⟩, ?_⟩, ?_, ?_⟩
  · simp [digits.content]
    omega
  · exact fun c member => digits.digits c (List.mem_of_mem_take member)
  · exact fun c member => digits.digits c (List.mem_of_mem_drop member)
  · have places : d.digits.drop d.point.toNat ≠ [] := by simp; omega
    rw [Layout.positional, if_neg large]
    simp [Parts.text, Parts.tail, places, long]
  · simp only [Parts.scanned, Scanned.value, Decimal.value, List.take_append_drop, Option.getD_none,
      List.length_drop]
    congr 2
    omega

/-- A decimal with an exponent. -/
theorem scientific_parts (digits : Digits d.digits) :
    ∃ p : Parts, p.Valid ∧ Layout.scientific d = p.text ∧ p.scanned.value = d.value := by
  have count : 0 < d.digits.length := List.length_pos_iff.mpr digits.content
  refine ⟨⟨d.digits.take 1, d.digits.drop 1, some (d.point - 1)⟩, ⟨⟨?_, ?_⟩, ?_⟩, ?_, ?_⟩
  · simp [digits.content]
  · exact fun c member => digits.digits c (List.mem_of_mem_take member)
  · exact fun c member => digits.digits c (List.mem_of_mem_drop member)
  · simp only [Layout.scientific, Parts.text, Parts.tail, List.drop_eq_nil_iff, Option.map_some,
      Option.getD_some, List.append_assoc]
  · simp only [Parts.scanned, Scanned.value, Decimal.value, List.take_append_drop, Option.getD_some,
      List.length_drop]
    congr 2
    omega

theorem write_parts (l : Layout) (always : l.pointAlways = true) (digits : Digits d.digits) :
    ∃ p : Parts, p.Valid ∧ l.write d = p.text ∧ p.scanned.value = d.value := by
  unfold Layout.write
  simp only [always]
  split
  · by_cases small : d.point ≤ 0
    · exact fraction_parts digits small
    · by_cases short : d.digits.length ≤ d.point.toNat
      · exact integral_parts digits small short
      · exact mixed_parts digits small short
  · exact scientific_parts digits

variable {x : Float} {b : Binary}

theorem toString_signed {n : Nat} (content : n ≠ 0) :
    toString (b.signed n) = withSign b.negative (Nat.toDigits 10 n) := by
  unfold Binary.signed withSign
  rw [Int.toString_eq_repr, Int.repr_eq_if]
  cases b.negative with
  | false => simp [Nat.repr]
  | true =>
    apply String.toList_inj.mp
    simp [content, Nat.repr]

/-- The digits of a whole number. -/
theorem whole_parts (n : Nat) :
    ∃ p : Parts, p.Valid ∧ Nat.toDigits 10 n = p.text ∧ p.scanned.value = n := by
  refine ⟨⟨Nat.toDigits 10 n, [], none⟩, ⟨Text.digits_toDigits n, by simp⟩, ?_, ?_⟩
  · simp [Parts.text, Parts.tail]
  · simp [Parts.scanned, Scanned.value, Text.digitsValue_toDigits]

/-- A number is written as its sign and the notation of a magnitude that rounds to it. -/
theorem text_parts (fields : Binary.ofFloat? x = some b) (content : b.mantissa ≠ 0) :
    ∃ p : Parts, p.Valid ∧ text x = withSign b.negative p.text ∧
      Rounds b.mantissa b.exponent p.scanned.value := by
  have canonical := canonical_fields fields content
  rw [text, fields]
  simp only
  split
  next whole =>
    have den : 0 < b.ratio.2 := scaled_den_pos two_pos b.mantissa b.exponent
    have divides : b.ratio.1 % b.ratio.2 = 0 := by simpa [Binary.isInteger] using whole
    obtain ⟨n, multiple⟩ := Nat.dvd_of_mod_eq_zero divides
    have value : (n : ℚ) = b.mantissa * 2 ^ b.exponent := by
      rw [← Decimal.ratio_value b, multiple, Nat.cast_mul,
        mul_div_cancel_left₀ _ (Nat.cast_ne_zero.mpr den.ne')]
    have content : n ≠ 0 := by
      rintro rfl
      have positive := (rounds_self b.mantissa b.exponent).pos canonical
      rw [← value, Nat.cast_zero] at positive
      exact lt_irrefl _ positive
    obtain ⟨p, valid, written, scanned⟩ := whole_parts n
    refine ⟨p, valid, ?_, ?_⟩
    · rw [← written, ← toString_signed content, Binary.truncate]
      simp only [multiple, Nat.mul_div_cancel_left n den]
    · rw [scanned, value]
      exact rounds_self b.mantissa b.exponent
  next =>
    obtain ⟨p, valid, written, value⟩ := write_parts Layout.exact rfl (Decimal.digits_shortest b)
    refine ⟨p, valid, ?_, ?_⟩
    · rw [exactText, fields, ← written]
    · rw [value]
      exact Decimal.rounds_shortest canonical

/-- The magnitudes are far inside the powers of ten that are settled without computing them. -/
theorem Rounds.bounds {v : ℚ} (rounds : Rounds b.mantissa b.exponent v)
    (canonical : Canonical b.mantissa b.exponent) :
    (10 : ℚ) ^ (-400 : Int) ≤ v ∧ v < 10 ^ (400 : Int) := by
  obtain ⟨positive, small, least, most, -⟩ := canonical
  have half := gap_le b.mantissa b.exponent
  have one : (1 : ℚ) ≤ b.mantissa := by exact_mod_cast positive
  have top : (b.mantissa : ℚ) + 1 / 2 ≤ 2 ^ 53 := by
    have next : (b.mantissa : ℚ) + 1 ≤ 2 ^ 53 := by exact_mod_cast small
    linarith
  have low : (2 : ℚ) ^ (-1074 : Int) ≤ 2 ^ b.exponent := zpow_le_zpow_right₀ (by norm_num) least
  have high : (2 : ℚ) ^ b.exponent ≤ 2 ^ (971 : Int) := zpow_le_zpow_right₀ (by norm_num) most
  have ten : (2 : ℚ) ^ 1200 ≤ 10 ^ 400 := by
    rw [show 1200 = 3 * 400 from rfl, pow_mul]
    exact pow_le_pow_left₀ (by norm_num) (by norm_num) 400
  constructor
  · calc (10 : ℚ) ^ (-400 : Int) ≤ 2 ^ (-1200 : Int) := inv_anti₀ (by positivity) ten
      _ ≤ 2 ^ (-1 + -1074 : Int) := zpow_le_zpow_right₀ (by norm_num) (by norm_num)
      _ = 1 / 2 * 2 ^ (-1074 : Int) := by rw [zpow_add₀ two_ne_zero, zpow_neg_one, one_div]
      _ ≤ (b.mantissa - gap b.mantissa b.exponent) * 2 ^ b.exponent :=
        mul_le_mul (by linarith) low (by positivity) (by linarith)
      _ ≤ v := rounds.low
  · calc v ≤ (b.mantissa + 1 / 2) * 2 ^ b.exponent := rounds.high
      _ ≤ 2 ^ 53 * 2 ^ (971 : Int) := mul_le_mul top high (by positivity) (by positivity)
      _ = 2 ^ (53 + 971 : Int) := by rw [zpow_add₀ two_ne_zero]; rfl
      _ < 2 ^ (1200 : Int) := zpow_lt_zpow_right₀ (by norm_num) (by norm_num)
      _ ≤ 10 ^ (400 : Int) := ten

/-- The nearest number to a magnitude in the rounding interval of a number is that number. -/
theorem Scanned.toFloat_eq {s : Scanned} (finite : x.isFinite = true)
    (fields : Binary.ofFloat? x = some b) (content : b.mantissa ≠ 0)
    (rounds : Rounds b.mantissa b.exponent s.value) : s.toFloat b.negative = x := by
  have canonical := canonical_fields fields content
  have some : Text.digitsValue s.digits ≠ 0 := by
    intro zero
    have positive := rounds.pos canonical
    simp [Scanned.value, zero] at positive
  obtain ⟨low, high⟩ := rounds.bounds canonical
  obtain ⟨first, last⟩ := Decimal.pow_decimalLength_le (Nat.pos_of_ne_zero some)
  have power : (0 : ℚ) < 10 ^ s.exponent := by positivity
  have ten : (1 : ℚ) < 10 := by norm_num
  -- The number of digits and the exponent together give the size of the magnitude.
  have atLeast : ¬(decimalLength (Text.digitsValue s.digits) + s.exponent < -400) := by
    have size : (10 : ℚ) ^ (-400 : Int) <
        10 ^ (decimalLength (Text.digitsValue s.digits) + s.exponent) := by
      rw [zpow_add₀ (by norm_num)]
      exact low.trans_lt (mul_lt_mul_of_pos_right last power)
    have := (zpow_lt_zpow_iff_right₀ ten).mp size
    omega
  have atMost : ¬(400 < decimalLength (Text.digitsValue s.digits) + s.exponent) := by
    have size : (10 : ℚ) ^ ((decimalLength (Text.digitsValue s.digits) : Int) - 1 + s.exponent) <
        10 ^ (400 : Int) := by
      rw [zpow_add₀ (by norm_num)]
      exact (mul_le_mul_of_nonneg_right first power.le).trans_lt high
    have := (zpow_lt_zpow_iff_right₀ ten).mp size
    omega
  simp only [Scanned.toFloat, some, atLeast, atMost, or_self, if_false]
  refine nearest_eq finite fields content (scaled_den_pos (by decide) _ _) ?_
  rw [scaled_value]
  exact rounds

theorem withoutLowLines?_eq {previous : Char} (first : previous ≠ '_') (absent : '_' ∉ cs) :
    withoutLowLines? previous cs = some cs := by
  induction cs generalizing previous with
  | nil => rw [withoutLowLines?, if_neg first]
  | cons c rest ih =>
    rw [List.mem_cons, not_or] at absent
    rw [withoutLowLines?, if_neg (Ne.symm absent.1), if_neg (fun low => first low.1),
      ih (Ne.symm absent.1) absent.2]
    rfl

theorem normalized?_eq (numeric : Numeric cs) : normalized? cs = some cs := by
  have plain : ∀ c ∈ alphabet, c.toNat < 128 ∧ isPlainBlank c = false := by
    have all : alphabet.all (fun c => decide (c.toNat < 128) && !isPlainBlank c) = true := by decide
    simpa using all
  have kept : ∀ ds : List Char, (∀ c ∈ ds, c ∈ cs) → ds.dropWhile isPlainBlank = ds := by
    intro ds inside
    cases ds with
    | nil => rfl
    | cons d ds =>
      have solid := (plain d (numeric.chars d (inside d (by simp)))).2
      rw [List.dropWhile_cons_of_neg (by simp [solid])]
  rw [normalized?, if_pos, Text.trimBy, kept cs (fun _ => id),
    kept cs.reverse (fun _ => List.mem_reverse.mp), List.reverse_reverse]
  simp only [List.all_eq_true, decide_eq_true_eq]
  intro c member
  exact (plain c (numeric.chars c member)).1

theorem word?_eq_none {c : Char} (digit : Text.isDigit c = true) (negative : Bool)
    (cs : List Char) : word? negative (c :: cs) = none := by
  have words : alphabet.all (fun c => !Text.isDigit c || c.toLower != 'i' && c.toLower != 'n') =
      true := by decide
  obtain ⟨noInf, noNan⟩ : c.toLower ≠ 'i' ∧ c.toLower ≠ 'n' := by
    simpa [digit] using List.all_eq_true.mp words c (mem_alphabet_of_isDigit digit)
  unfold word?
  split
  next same => simp [← String.toList_inj, noInf] at same
  next same => simp [← String.toList_inj, noInf] at same
  next same => simp [← String.toList_inj, noNan] at same
  next => rfl

theorem signOff_withSign {c : Char} (digit : Text.isDigit c = true) (negative : Bool)
    (cs : List Char) : signOff (withSign negative (c :: cs)).toList = (negative, c :: cs) := by
  cases negative with
  | true => simp [withSign, signOff]
  | false =>
    unfold signOff
    simp only [withSign]
    split
    · simp_all [Text.isDigit]
    · simp_all [Text.isDigit]
    · simp

theorem numeric_withSign (numeric : Numeric cs) (negative : Bool) :
    Numeric (withSign negative cs).toList := by
  cases negative with
  | false => simpa [withSign] using numeric
  | true => simpa [withSign] using Numeric.cons numeric (show '-' ∈ alphabet by decide)

/-- Notation with a sign is read as the magnitude with this sign. -/
theorem ofString?_withSign {p : Parts} (valid : p.Valid) (negative : Bool) :
    ofString? (withSign negative p.text) = some (p.scanned.toFloat negative) := by
  have numeric := numeric_withSign (Parts.numeric_text valid) negative
  have scan := Parts.scan?_text valid
  have noLowLine : '_' ∉ (withSign negative p.text).toList := fun member =>
    absurd (numeric.chars '_' member) (by decide)
  obtain ⟨c, rest, start, digit⟩ : ∃ c rest, p.text = c :: rest ∧ Text.isDigit c = true := by
    obtain ⟨c, more, whole⟩ := List.exists_cons_of_ne_nil valid.whole.content
    rw [Parts.text, whole, List.cons_append]
    exact ⟨c, _, rfl, valid.whole.digits c (by simp [whole])⟩
  have low : withoutLowLines? ' ' (withSign negative p.text).toList =
      some (withSign negative p.text).toList :=
    withoutLowLines?_eq (by decide) noLowLine
  rw [ofString?, read?, normalized?_eq numeric]
  simp only [Option.bind_eq_bind, Option.bind_some, ofPlain?, low]
  rw [start] at scan ⊢
  rw [signOff_withSign digit]
  simp [word?_eq_none digit, scan]

theorem mantissa_of_ne_zero (finite : x.isFinite = true) (fields : Binary.ofFloat? x = some b)
    (content : (x == 0.0) = false) : b.mantissa ≠ 0 := by
  intro zero
  have least : b.exponent = -1074 := by
    unfold Binary.ofFloat? at fields
    simp only at fields
    split at fields
    · cases fields
    · split at fields
      · cases fields
        rfl
      · cases fields
        simp at zero
  have bits := ofBits_fields finite fields
  rw [zero, least] at bits
  rw [← bits] at content
  cases sign : b.negative with
  | false =>
    rw [sign] at content
    exact absurd content (by decide)
  | true =>
    rw [sign] at content
    exact absurd content (by decide)

/-- A finite number is written in decimal notation, and reading the text gives the number. Zero is
the one without sign: the text of a whole number has no sign for the other. -/
theorem ofString?_text (finite : x.isFinite = true) (unsigned : x = 0.0 ∨ (x == 0.0) = false) :
    Numeric (text x).toList ∧ ofString? (text x) = some x := by
  rcases unsigned with rfl | content
  · have written : text 0.0 = "0" := by decide +kernel
    rw [written]
    exact ⟨numeric_of_digits (Text.digits_toDigits 0), by decide +kernel⟩
  · obtain ⟨b, fields⟩ := ofFloat?_of_isFinite finite
    have mantissa := mantissa_of_ne_zero finite fields content
    obtain ⟨p, valid, written, rounds⟩ := text_parts fields mantissa
    rw [written]
    refine ⟨numeric_withSign (Parts.numeric_text valid) _, ?_⟩
    rw [ofString?_withSign valid, Scanned.toFloat_eq finite fields mantissa rounds]

end Number

end Termwise
