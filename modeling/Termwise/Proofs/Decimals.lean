import Termwise.Proofs.Binary64

/-! The shortest decimal of a magnitude. Whichever number of digits is chosen, the decimal lies in
the rounding interval of the magnitude, since seventeen digits always do. -/
namespace Termwise.Number

namespace Decimal

variable {b : Binary} {m n : Nat} {e k : Int}

theorem scaled_den (base a c : Nat) (k : Int) : (scaled base a k).2 = (scaled base c k).2 := by
  unfold scaled
  split <;> rfl

theorem Interval.around_den_pos (b : Binary) : 0 < (Interval.around b).den :=
  scaled_den_pos (by decide) _ _

/-- The ends of the interval around a magnitude are those of its rounding interval. -/
theorem Interval.around_ends (canonical : Canonical b.mantissa b.exponent) :
    ((Interval.around b).low : ℚ) / (Interval.around b).den =
      (b.mantissa - gap b.mantissa b.exponent) * 2 ^ b.exponent ∧
    ((Interval.around b).high : ℚ) / (Interval.around b).den =
      (b.mantissa + 1 / 2) * 2 ^ b.exponent := by
  have quarter : (2 : ℚ) ^ (b.exponent - 2) = 2 ^ b.exponent / 4 := by
    rw [zpow_sub₀ two_ne_zero]
    norm_num
  have positive := canonical.positive
  constructor
  · have value := scaled_value 2 (4 * b.mantissa - if b.mantissa = Nat.pow 2 52 ∧
      -1074 < b.exponent then 1 else 2) (b.exponent - 2)
    refine (show _ = _ from value).trans ?_
    simp only [Nat.cast_ofNat, quarter, Nat.pow_eq, gap]
    split_ifs
    · rw [Nat.cast_sub (by omega)]
      push_cast
      ring
    · rw [Nat.cast_sub (by omega)]
      push_cast
      ring
  · have value := scaled_value 2 (4 * b.mantissa + 2) (b.exponent - 2)
    have shared : (Interval.around b).den = (scaled 2 (4 * b.mantissa + 2) (b.exponent - 2)).2 :=
      scaled_den _ _ _ _
    rw [shared]
    refine (show _ = _ from value).trans ?_
    rw [Nat.cast_ofNat, quarter]
    push_cast
    ring

theorem Interval.holds_iff (i : Interval) (positive : 0 < i.den) (n : Nat) (k : Int) :
    i.holds n (scaled 10 1 k).1 (scaled 10 1 k).2 = true ↔
      if i.closed then (i.low : ℚ) / i.den ≤ n * 10 ^ k ∧ (n : ℚ) * 10 ^ k ≤ i.high / i.den
      else (i.low : ℚ) / i.den < n * 10 ^ k ∧ (n : ℚ) * 10 ^ k < i.high / i.den := by
  have value : (n : ℚ) * 10 ^ k = ((n * (scaled 10 1 k).1 : Nat) : ℚ) / (scaled 10 1 k).2 := by
    have unit := scaled_value 10 1 k
    push_cast at unit ⊢
    rw [mul_div_assoc, unit, one_mul]
  have den : (0 : ℚ) < i.den := by exact_mod_cast positive
  have down : (0 : ℚ) < (scaled 10 1 k).2 := by exact_mod_cast scaled_den_pos (by decide) 1 k
  rw [value, div_le_div_iff₀ den down, div_le_div_iff₀ down den, div_lt_div_iff₀ den down,
    div_lt_div_iff₀ down den]
  norm_cast
  unfold holds
  simp only
  split <;> simp

theorem Interval.rounds_of_holds (canonical : Canonical b.mantissa b.exponent)
    (held : (Interval.around b).holds n (scaled 10 1 k).1 (scaled 10 1 k).2 = true) :
    Rounds b.mantissa b.exponent (n * 10 ^ k) := by
  obtain ⟨low, high⟩ := around_ends canonical
  have closed : (Interval.around b).closed = decide (b.mantissa % 2 = 0) := rfl
  rw [holds_iff _ (around_den_pos b), low, high, closed] at held
  by_cases even : b.mantissa % 2 = 0
  · rw [if_pos (by simp [even])] at held
    exact ⟨held.1, held.2, fun odd => by omega⟩
  · rw [if_neg (by simp [even])] at held
    exact ⟨held.1.le, held.2.le, fun _ => held⟩

theorem readsBack?_eq {point : Int} {count : Nat} {d : Decimal}
    (found : readsBack? b point count = some d) :
    ∃ n, (Interval.around b).holds n (scaled 10 1 (point - count)).1
      (scaled 10 1 (point - count)).2 = true ∧
      d = ofScaled n (point - count) := by
  simp only [readsBack?] at found
  generalize roundDiv _ _ = near at found
  generalize (if near = _ then _ else _) = far at found
  split at found
  next holds => exact ⟨near, holds, (Option.some.inj found).symm⟩
  next =>
    split at found
    next holds => exact ⟨far, holds, (Option.some.inj found).symm⟩
    next => cases found

/-- The digits of a positive number fill the power of ten below it. -/
theorem pow_decimalLength_le {n : Nat} (positive : 0 < n) :
    (10 : ℚ) ^ ((decimalLength n : Int) - 1) ≤ n ∧ (n : ℚ) < 10 ^ (decimalLength n : Int) := by
  rw [decimalLength, if_neg positive.ne']
  have some : 0 < (Nat.toDigits 10 n).length := Nat.length_toDigits_pos
  constructor
  · obtain ⟨l, count⟩ : ∃ l, (Nat.toDigits 10 n).length = l + 1 :=
      ⟨(Nat.toDigits 10 n).length - 1, by omega⟩
    have least : 10 ^ l ≤ n := by
      rcases Nat.eq_zero_or_pos l with rfl | more
      · exact positive
      · by_contra less
        have := (Nat.length_toDigits_le_iff (by decide) more).mpr (Nat.lt_of_not_le less)
        omega
    rw [count]
    push_cast
    rw [add_sub_cancel_right]
    exact_mod_cast least
  · have most := (Nat.length_toDigits_le_iff (b := 10) (n := n) (by decide) some).mp le_rfl
    exact_mod_cast most

/-- A quotient is not below the power of ten of its first digit. -/
theorem pow_pointOf_le {num den : Nat} (hn : 0 < num) (hd : 0 < den) :
    (10 : ℚ) ^ (pointOf num den - 1) ≤ num / den := by
  have hdq : (0 : ℚ) < den := by exact_mod_cast hd
  have hnq : (0 : ℚ) < num := by exact_mod_cast hn
  unfold pointOf
  split
  next whole =>
    have positive : 0 < num / den := Nat.div_pos whole hd
    refine (pow_decimalLength_le positive).1.trans ?_
    rw [le_div_iff₀ hdq]
    exact_mod_cast Nat.div_mul_le_self num den
  next fraction =>
    -- The count is that of the greatest integer below the inverse.
    have positive : 0 < (den - 1) / num := Nat.div_pos (by omega) hn
    have above := (pow_decimalLength_le positive).2
    have inverse : (den : ℚ) ≤ 10 ^ (decimalLength ((den - 1) / num) : Int) * num := by
      have next : ((den - 1) / num + 1 : Nat) ≤ 10 ^ decimalLength ((den - 1) / num) := by
        exact_mod_cast above
      have bound : den ≤ ((den - 1) / num + 1) * num := by
        have := Nat.lt_div_mul_add (a := den - 1) hn
        rw [Nat.add_mul]
        omega
      exact_mod_cast bound.trans (Nat.mul_le_mul_right num next)
    rw [show 1 - (decimalLength ((den - 1) / num) : Int) -
      1 = -(decimalLength ((den - 1) / num) : Int) by ring,
      zpow_neg, le_div_iff₀ hdq, inv_mul_le_iff₀ (by positivity)]
    exact inverse

theorem ratio_value (b : Binary) : (b.ratio.1 : ℚ) / b.ratio.2 = b.mantissa * 2 ^ b.exponent := by
  unfold Binary.ratio
  simpa using scaled_value 2 b.mantissa b.exponent

theorem roundAt_error (num : Nat) {den : Nat} (positive : 0 < den) (k : Int) :
    (roundAt num den k * 10 ^ k : ℚ) - 10 ^ k / 2 ≤ num / den ∧
      (num : ℚ) / den ≤ roundAt num den k * 10 ^ k + 10 ^ k / 2 := by
  have unit : (0 : ℚ) < 10 ^ k := by positivity
  have scale : ((scaled 10 1 k).1 : ℚ) / (scaled 10 1 k).2 = 10 ^ k := by
    simpa using scaled_value 10 1 k
  have up : 0 < (scaled 10 1 k).1 := by
    unfold scaled
    split
    · exact Nat.mul_pos Nat.one_pos (Nat.pow_pos (by decide))
    · exact Nat.one_pos
  obtain ⟨low, high⟩ := roundDiv_error (num * (scaled 10 1 k).2) (Nat.mul_pos positive up)
  have value : ((num * (scaled 10 1 k).2 : Nat) : ℚ) / ((den * (scaled 10 1 k).1 : Nat) : ℚ) =
      num / den / 10 ^ k := by
    rw [← scale]
    push_cast
    rw [div_div_div_eq]
  rw [value] at low high
  rw [le_div_iff₀ unit] at low
  rw [div_le_iff₀ unit] at high
  change (((roundAt num den k : Nat) : ℚ) - 1 / 2) * 10 ^ k ≤ num / den at low
  change (num : ℚ) / den ≤ ((roundAt num den k : Nat) + 1 / 2) * 10 ^ k at high
  constructor <;> linarith

/-- Seventeen digits are enough: their error is less than a quarter of the last binary place. -/
theorem rounds_seventeen (canonical : Canonical b.mantissa b.exponent) :
    Rounds b.mantissa b.exponent
      (roundAt b.ratio.1 b.ratio.2 (pointOf b.ratio.1 b.ratio.2 - 17) * 10 ^
        (pointOf b.ratio.1 b.ratio.2 - 17)) := by
  have unit : (0 : ℚ) < 2 ^ b.exponent := by positivity
  have hd : 0 < b.ratio.2 := scaled_den_pos (by decide) _ _
  have value := ratio_value b
  have hn : 0 < b.ratio.1 := by
    rcases Nat.eq_zero_or_pos b.ratio.1 with none | some
    · have positive : (0 : ℚ) < b.mantissa := by exact_mod_cast canonical.positive
      rw [none, Nat.cast_zero, zero_div] at value
      nlinarith
    · exact some
  have place := pow_pointOf_le hn hd
  obtain ⟨low, high⟩ := roundAt_error b.ratio.1 hd (pointOf b.ratio.1 b.ratio.2 - 17)
  generalize pointOf b.ratio.1 b.ratio.2 = point at place low high ⊢
  generalize roundAt b.ratio.1 b.ratio.2 (point - 17) = n at low high ⊢
  rw [value] at place low high
  have tenth : (10 : ℚ) ^ (point - 1) = 10 ^ (point - 17) * 10 ^ 16 := by
    rw [← zpow_natCast (10 : ℚ) 16, ← zpow_add₀ (by norm_num)]
    congr 1
    push_cast
    ring
  rw [tenth] at place
  have positive : (0 : ℚ) < 10 ^ (point - 17) := by positivity
  generalize (10 : ℚ) ^ (point - 17) = u at place low high positive ⊢
  have small : (b.mantissa : ℚ) < 2 ^ 53 := by exact_mod_cast canonical.small
  have fine : u < 2 ^ b.exponent := by nlinarith
  have strict : ((b.mantissa : ℚ) - gap b.mantissa b.exponent) * 2 ^ b.exponent < n * u ∧
      (n : ℚ) * u < (b.mantissa + 1 / 2) * 2 ^ b.exponent := by
    refine ⟨?_, by linarith⟩
    by_cases power : b.mantissa = 2 ^ 52 ∧ -1074 < b.exponent
    · rw [gap, if_pos power]
      have exact : (b.mantissa : ℚ) = 2 ^ 52 := by exact_mod_cast power.1
      rw [exact] at place high ⊢
      linarith
    · rw [gap, if_neg power]
      linarith
  exact ⟨strict.1.le, strict.2.le, fun _ => strict⟩

theorem shortestFrom_rounds (canonical : Canonical b.mantissa b.exponent) (point : Int)
    (fuel count : Nat) :
    ∃ n k, shortestFrom b point fuel count = ofScaled n k ∧
      Rounds b.mantissa b.exponent (n * 10 ^ k) := by
  induction fuel generalizing count with
  | zero => exact ⟨_, _, rfl, rounds_seventeen canonical⟩
  | succ fuel ih =>
    rw [shortestFrom]
    split
    next d found =>
      obtain ⟨n, held, rfl⟩ := readsBack?_eq found
      exact ⟨n, _, rfl, Interval.rounds_of_holds canonical held⟩
    next => exact ih (count + 1)

/-- The magnitude that a decimal stands for. -/
def value (d : Decimal) : ℚ := Text.digitsValue d.digits * 10 ^ (d.point - d.digits.length)

theorem digitsValue_append (cs ds : List Char) :
    Text.digitsValue (cs ++ ds) = Text.digitsValue cs * 10 ^ ds.length + Text.digitsValue ds := by
  have appended := Nat.ofDigitChars_append (b := 10) (l := cs) (m := ds) 0
  rw [@Nat.ofDigitChars_eq_ofDigitChars_zero ds (Nat.ofDigitChars 10 cs 0), Nat.mul_comm]
    at appended
  exact appended

theorem digitsValue_zeros (count : Nat) : Text.digitsValue (List.replicate count '0') = 0 := by
  have zeros : Nat.ofDigitChars 10 (List.replicate count '0') 0 = 10 ^ count * 0 :=
    Nat.ofDigitChars_replicate_zero
  exact zeros.trans (Nat.mul_zero _)

theorem trimZeros_spec (cs : List Char) (content : Text.digitsValue cs ≠ 0) :
    ∃ count, cs = trimZeros cs ++ List.replicate count '0' := by
  have zeros : cs.reverse.takeWhile (· = '0') =
      List.replicate (cs.reverse.takeWhile (· = '0')).length '0' := by
    refine List.eq_replicate_iff.mpr ⟨rfl, fun c member => ?_⟩
    simpa using List.all_eq_true.mp List.all_takeWhile c member
  have parts : cs = (cs.reverse.dropWhile (· = '0')).reverse ++
      (cs.reverse.takeWhile (· = '0')).reverse := by
    rw [← List.reverse_append, List.takeWhile_append_dropWhile, List.reverse_reverse]
  rw [zeros, List.reverse_replicate] at parts
  refine ⟨(cs.reverse.takeWhile (· = '0')).length, ?_⟩
  have kept : trimZeros cs = (cs.reverse.dropWhile (· = '0')).reverse := by
    unfold trimZeros
    split
    next none =>
      rw [none, List.nil_append] at parts
      rw [parts, digitsValue_zeros] at content
      exact absurd rfl content
    next => rfl
  rw [kept]
  exact parts

theorem ofScaled_value {n : Nat} (positive : 0 < n) (k : Int) :
    (ofScaled n k).value = n * 10 ^ k := by
  have whole : Text.digitsValue (Nat.toDigits 10 n) = n := Nat.ofDigitChars_ten_toDigits
  obtain ⟨count, parts⟩ := trimZeros_spec (Nat.toDigits 10 n) (by rw [whole]; exact positive.ne')
  have length := congrArg List.length parts
  have digits := congrArg Text.digitsValue parts
  rw [List.length_append, List.length_replicate] at length
  rw [whole, digitsValue_append, List.length_replicate, digitsValue_zeros, Nat.add_zero] at digits
  unfold value ofScaled
  simp only [if_neg positive.ne']
  rw [length]
  generalize trimZeros (Nat.toDigits 10 n) = kept at digits ⊢
  have shifted : (10 : ℚ) ^ (((kept.length + count : Nat) : Int) + k - kept.length) =
      10 ^ count * 10 ^ k := by
    rw [← zpow_natCast, ← zpow_add₀ (by norm_num)]
    congr 1
    push_cast
    ring
  rw [shifted, digits]
  push_cast
  ring

/-- The shortest decimal of a magnitude lies in its rounding interval. -/
theorem rounds_shortest (canonical : Canonical b.mantissa b.exponent) :
    Rounds b.mantissa b.exponent (shortest b).value := by
  obtain ⟨n, k, chosen, rounds⟩ := shortestFrom_rounds canonical (pointOf b.ratio.1 b.ratio.2) 17 1
  have positive : 0 < n := by
    rcases Nat.eq_zero_or_pos n with rfl | some
    · simpa using rounds.pos canonical
    · exact some
  have shortest_eq : shortest b = ofScaled n k := by
    rw [shortest, if_neg canonical.positive.ne']
    exact chosen
  rw [shortest_eq, ofScaled_value positive]
  exact rounds

end Decimal

end Termwise.Number
