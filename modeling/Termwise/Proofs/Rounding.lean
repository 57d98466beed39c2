import Mathlib.Algebra.Order.Field.Power
import Mathlib.Algebra.Order.Field.Rat
import Mathlib.Tactic.FieldSimp
import Mathlib.Tactic.Linarith
import Mathlib.Tactic.NormNum
import Mathlib.Tactic.Positivity
import Mathlib.Tactic.Ring
import Termwise.Number.Reading

/-! Rounding to nearest. The bit pattern that is chosen for a quotient is that of every magnitude in
whose rounding interval the quotient lies. -/
namespace Termwise.Number

theorem scaled_den_pos {base : Nat} (positive : 0 < base) (n : Nat) (e : Int) :
    0 < (scaled base n e).2 := by
  unfold scaled
  split
  · exact Nat.one_pos
  · exact Nat.pow_pos positive

theorem scaled_value (base n : Nat) (e : Int) :
    ((scaled base n e).1 : ℚ) / (scaled base n e).2 = n * (base : ℚ) ^ e := by
  unfold scaled
  split
  next whole =>
    obtain ⟨k, rfl⟩ := Int.eq_ofNat_of_zero_le whole
    simp
  next fraction =>
    obtain ⟨k, rfl⟩ : ∃ k : Nat, e = -(k : Int) := ⟨(-e).toNat, by omega⟩
    simp [zpow_neg, div_eq_mul_inv]

theorem scaled_two (e : Int) : ((scaled 2 1 e).1 : ℚ) / (scaled 2 1 e).2 = 2 ^ e := by
  simpa using scaled_value 2 1 e

theorem roundDiv_eq {a b n : Nat} (low : 2 * (n * b) ≤ 2 * a + b) (high : 2 * a ≤ 2 * (n * b) + b)
    (odd : n % 2 = 1 → 2 * (n * b) < 2 * a + b ∧ 2 * a < 2 * (n * b) + b) (positive : 0 < b) :
    roundDiv a b = n := by
  have parts : b * (a / b) + a % b = a := Nat.div_add_mod a b
  have rest : a % b < b := Nat.mod_lt a positive
  unfold roundDiv
  simp only
  generalize a / b = q at parts ⊢
  generalize a % b = r at parts rest ⊢
  have choices : n = q ∨ n = q + 1 := by
    have above : q ≤ n := by
      by_contra smaller
      have : (n + 1) * b ≤ q * b := Nat.mul_le_mul_right b (by omega)
      rw [Nat.add_mul, Nat.mul_comm q b] at this
      omega
    have below : n ≤ q + 1 := by
      by_contra larger
      have : (q + 2) * b ≤ n * b := Nat.mul_le_mul_right b (by omega)
      rw [Nat.add_mul, Nat.mul_comm q b] at this
      omega
    omega
  rcases choices with rfl | rfl
  · rw [Nat.mul_comm n b] at high odd
    split
    · rfl
    · split
      · omega
      · split
        · rfl
        · omega
  · rw [Nat.add_mul, Nat.mul_comm q b, Nat.one_mul] at low odd
    split
    · omega
    · split
      · rfl
      · split
        · omega
        · rfl

/-- A quotient less than half a unit away is rounded there, and one at half a unit if the goal is
even. -/
theorem roundDiv_eq_of_near {a b n : Nat} {v : ℚ} (value : (a : ℚ) / b = v) (positive : 0 < b)
    (low : n - 1 / 2 ≤ v) (high : v ≤ n + 1 / 2) (odd : n % 2 = 1 → n - 1 / 2 < v ∧ v < n + 1 / 2) :
    roundDiv a b = n := by
  have divisor : (0 : ℚ) < b := by exact_mod_cast positive
  have whole : (a : ℚ) = v * b := by
    rw [← value]
    field_simp
  refine roundDiv_eq ?_ ?_ ?_ positive
  · have scaled : (2 * (n * b) : ℚ) ≤ 2 * a + b := by nlinarith
    exact_mod_cast scaled
  · have scaled : (2 * a : ℚ) ≤ 2 * (n * b) + b := by nlinarith
    exact_mod_cast scaled
  · intro isOdd
    obtain ⟨below, above⟩ := odd isOdd
    constructor
    · have scaled : (2 * (n * b) : ℚ) < 2 * a + b := by nlinarith
      exact_mod_cast scaled
    · have scaled : (2 * a : ℚ) < 2 * (n * b) + b := by nlinarith
      exact_mod_cast scaled

theorem roundDiv_error (a : Nat) {b : Nat} (positive : 0 < b) :
    (roundDiv a b : ℚ) - 1 / 2 ≤ (a : ℚ) / b ∧ (a : ℚ) / b ≤ (roundDiv a b : ℚ) + 1 / 2 := by
  have divisor : (0 : ℚ) < b := by exact_mod_cast positive
  have parts : b * (a / b) + a % b = a := Nat.div_add_mod a b
  have rest : a % b < b := Nat.mod_lt a positive
  have bounds : 2 * (roundDiv a b * b) ≤ 2 * a + b ∧ 2 * a ≤ 2 * (roundDiv a b * b) + b := by
    unfold roundDiv
    simp only
    generalize a / b = q at parts ⊢
    generalize a % b = r at parts rest ⊢
    have commuted : q * b = b * q := Nat.mul_comm q b
    split_ifs
    all_goals simp only [Nat.add_mul, commuted]
    all_goals omega
  generalize roundDiv a b = n at bounds ⊢
  obtain ⟨low, high⟩ := bounds
  have low : (2 * (n * b) : ℚ) ≤ 2 * a + b := by exact_mod_cast low
  have high : (2 * a : ℚ) ≤ 2 * (n * b) + b := by exact_mod_cast high
  constructor
  · rw [le_div_iff₀ divisor]
    linarith
  · rw [div_le_iff₀ divisor]
    linarith

/-- The quotient is rounded at the place where it has 53 binary digits, or at the last place there
is. -/
theorem nearestBits_eq_rounded {num den : Nat} (hn : 0 < num) (hd : 0 < den) :
    ∃ f : Int, (2 : ℚ) ^ (f + 52) ≤ (num : ℚ) / den ∧ (num : ℚ) / den < 2 ^ (f + 53) ∧
      nearestBits num den =
        min (magnitudeBits (roundDiv (num * (scaled 2 1 (max f (-1074))).2)
          (den * (scaled 2 1 (max f (-1074))).1)) (max f (-1074))) (2047 * 2 ^ 52) := by
  have hnq : (0 : ℚ) < num := by exact_mod_cast hn
  have hdq : (0 : ℚ) < den := by exact_mod_cast hd
  have numLow : (2 : ℚ) ^ (num.log2 : Int) ≤ num := by exact_mod_cast Nat.log2_self_le hn.ne'
  have numHigh : (num : ℚ) < 2 ^ (num.log2 + 1 : Int) := by exact_mod_cast Nat.lt_log2_self
  have denLow : (2 : ℚ) ^ (den.log2 : Int) ≤ den := by exact_mod_cast Nat.log2_self_le hd.ne'
  have denHigh : (den : ℚ) < 2 ^ (den.log2 + 1 : Int) := by exact_mod_cast Nat.lt_log2_self
  -- The logarithms of both parts leave two places to choose from.
  have lower : (2 : ℚ) ^ ((num.log2 : Int) - den.log2 - 1) ≤ num / den := by
    rw [le_div_iff₀ hdq]
    calc (2 : ℚ) ^ ((num.log2 : Int) - den.log2 - 1) * den
        ≤ 2 ^ ((num.log2 : Int) - den.log2 - 1) * 2 ^ (den.log2 + 1 : Int) := by gcongr
      _ = 2 ^ (num.log2 : Int) := by rw [← zpow_add₀ two_ne_zero]; congr 1; ring
      _ ≤ num := numLow
  have upper : (num : ℚ) / den < 2 ^ ((num.log2 : Int) - den.log2 + 1) := by
    rw [div_lt_iff₀ hdq]
    calc (num : ℚ) < 2 ^ (num.log2 + 1 : Int) := numHigh
      _ = 2 ^ ((num.log2 : Int) - den.log2 + 1) * 2 ^ (den.log2 : Int) := by
        rw [← zpow_add₀ two_ne_zero]; congr 1; ring
      _ ≤ 2 ^ ((num.log2 : Int) - den.log2 + 1) * den := by gcongr
  have cross : num * (scaled 2 1 ((num.log2 : Int) - den.log2 - 52 + 52)).2 <
      den * (scaled 2 1 ((num.log2 : Int) - den.log2 - 52 + 52)).1 ↔
      (num : ℚ) / den < 2 ^ ((num.log2 : Int) - den.log2) := by
    have positive : (0 : ℚ) < (scaled 2 1 ((num.log2 : Int) - den.log2)).2 := by
      exact_mod_cast scaled_den_pos (by decide) _ _
    rw [sub_add_cancel, ← scaled_two, div_lt_div_iff₀ hdq positive, Nat.mul_comm den]
    norm_cast
  by_cases small : (num : ℚ) / den < 2 ^ ((num.log2 : Int) - den.log2)
  · refine ⟨(num.log2 : Int) - den.log2 - 52 - 1, ?_, ?_, ?_⟩
    · rwa [show (num.log2 : Int) - den.log2 - 52 - 1 + 52 = num.log2 - den.log2 - 1 by omega]
    · rwa [show (num.log2 : Int) - den.log2 - 52 - 1 + 53 = num.log2 - den.log2 by omega]
    · simp only [nearestBits, if_neg hn.ne', if_pos (cross.mpr small)]
      rfl
  · refine ⟨(num.log2 : Int) - den.log2 - 52, ?_, ?_, ?_⟩
    · rw [sub_add_cancel]
      exact not_lt.mp small
    · rwa [show (num.log2 : Int) - den.log2 - 52 + 53 = num.log2 - den.log2 + 1 by omega]
    · simp only [nearestBits, if_neg hn.ne', if_neg (fun held => small (cross.mp held))]
      rfl

/-- The magnitudes other than zero, each written in its one way. -/
structure Canonical (m : Nat) (e : Int) : Prop where
  positive : 0 < m
  small : m < 2 ^ 53
  least : -1074 ≤ e
  most : e ≤ 971
  full : 2 ^ 52 ≤ m ∨ e = -1074

/-- How far below a magnitude its rounding interval starts, in units of its last place. -/
def gap (m : Nat) (e : Int) : ℚ := if m = 2 ^ 52 ∧ -1074 < e then 1 / 4 else 1 / 2

/-- The quotients that round to a magnitude. The ends belong to the interval of an even one. -/
structure Rounds (m : Nat) (e : Int) (v : ℚ) : Prop where
  low : (m - gap m e) * 2 ^ e ≤ v
  high : v ≤ (m + 1 / 2) * 2 ^ e
  odd : m % 2 = 1 → (m - gap m e) * 2 ^ e < v ∧ v < (m + 1 / 2) * 2 ^ e

theorem gap_le (m : Nat) (e : Int) : gap m e ≤ 1 / 2 := by
  unfold gap
  split_ifs <;> norm_num

variable {m num den : Nat} {e : Int} {v : ℚ}

theorem rounds_self (m : Nat) (e : Int) : Rounds m e (m * 2 ^ e) := by
  have unit : (0 : ℚ) < 2 ^ e := by positivity
  have positive : 0 < gap m e := by
    unfold gap
    split_ifs <;> norm_num
  refine ⟨by nlinarith, by nlinarith, fun _ => ⟨by nlinarith, by nlinarith⟩⟩

theorem Rounds.pos (rounds : Rounds m e v) (canonical : Canonical m e) : 0 < v := by
  have unit : (0 : ℚ) < 2 ^ e := by positivity
  have one : (1 : ℚ) ≤ m := by exact_mod_cast canonical.positive
  have half := gap_le m e
  have low := rounds.low
  nlinarith

/-- The place at which a quotient in the interval is rounded: the place of the magnitude, or the one
below it when the magnitude is a power of two and the quotient is less. -/
theorem Rounds.place (rounds : Rounds m e v) (canonical : Canonical m e) {f : Int}
    (lower : (2 : ℚ) ^ (f + 52) ≤ v) (upper : v < 2 ^ (f + 53)) :
    max f (-1074) = e ∨ (m = 2 ^ 52 ∧ -1074 < e ∧ max f (-1074) = e - 1 ∧ v < 2 ^ 52 * 2 ^ e) := by
  have unit : (0 : ℚ) < 2 ^ e := by positivity
  have low := rounds.low
  have half := gap_le m e
  have two_pow : ∀ k : Int, (2 : ℚ) ^ (e + k) = 2 ^ k * 2 ^ e := fun k => by
    rw [zpow_add₀ two_ne_zero, mul_comm]
  have below : f ≤ e := by
    have bound : v < 2 ^ (e + 53) := by
      have small : (m : ℚ) ≤ 2 ^ 53 - 1 := by
        have := canonical.small
        have : m + 1 ≤ 2 ^ 53 := this
        have : ((m + 1 : Nat) : ℚ) ≤ ((2 ^ 53 : Nat) : ℚ) := by exact_mod_cast this
        push_cast at this
        linarith
      rw [two_pow, show (2 : ℚ) ^ (53 : Int) = 2 ^ 53 by norm_num]
      have high := rounds.high
      nlinarith
    have := (zpow_lt_zpow_iff_right₀ (one_lt_two : (1 : ℚ) < 2)).mp (lower.trans_lt bound)
    omega
  rcases canonical.full with full | last
  · have above : e - 1 ≤ f := by
      have bound : (2 : ℚ) ^ (e + 51) < v := by
        have large : (2 ^ 52 : ℚ) ≤ m := by exact_mod_cast full
        rw [two_pow, show (2 : ℚ) ^ (51 : Int) = 2 ^ 51 by norm_num]
        nlinarith
      have := (zpow_lt_zpow_iff_right₀ (one_lt_two : (1 : ℚ) < 2)).mp (bound.trans upper)
      omega
    have least := canonical.least
    by_cases here : max f (-1074) = e
    · exact .inl here
    · obtain rfl : f = e - 1 := by omega
      have less : v < 2 ^ 52 * 2 ^ e := by
        rw [show e - 1 + 53 = e + 52 by omega, two_pow, show (2 : ℚ) ^ (52 : Int) =
          2 ^ 52 by norm_num] at upper
        exact upper
      refine .inr ⟨?_, by omega, by omega, less⟩
      by_contra other
      have large : ((2 ^ 52 + 1 : Nat) : ℚ) ≤ m := by exact_mod_cast (show 2 ^ 52 + 1 ≤ m by omega)
      push_cast at large
      nlinarith
  · exact .inl (by omega)

theorem rounded_value (num den : Nat) (place : Int) :
    ((num * (scaled 2 1 place).2 : Nat) : ℚ) / ((den * (scaled 2 1 place).1 : Nat) : ℚ) =
      num / den / 2 ^ place := by
  rw [← scaled_two]
  push_cast
  rw [div_div_div_eq]

theorem scaled_two_pos (e : Int) : 0 < (scaled 2 1 e).1 := by
  unfold scaled
  split
  · exact Nat.mul_pos Nat.one_pos (Nat.pow_pos two_pos)
  · exact Nat.one_pos

theorem Canonical.magnitudeBits_lt (canonical : Canonical m e) :
    magnitudeBits m e < 2047 * 2 ^ 52 := by
  obtain ⟨-, small, least, most, -⟩ := canonical
  unfold magnitudeBits
  simp only [Nat.pow_eq]
  omega

/-- A quotient in the rounding interval of a magnitude gets the bit pattern of the magnitude. -/
theorem nearestBits_eq (canonical : Canonical m e) (positive : 0 < den)
    (rounds : Rounds m e (num / den)) : nearestBits num den = magnitudeBits m e := by
  have unit : (0 : ℚ) < 2 ^ e := by positivity
  have numerator : 0 < num := by
    rcases Nat.eq_zero_or_pos num with rfl | some
    · simpa using rounds.pos canonical
    · exact some
  obtain ⟨f, lower, upper, chosen⟩ := nearestBits_eq_rounded numerator positive
  have divisor : 0 < den * (scaled 2 1 (max f (-1074))).1 := Nat.mul_pos positive (scaled_two_pos _)
  have value := rounded_value num den (max f (-1074))
  have half := gap_le m e
  rcases rounds.place canonical lower upper with here | ⟨rfl, normal, below, less⟩
  · rw [here] at chosen divisor value
    have near : roundDiv (num * (scaled 2 1 e).2) (den * (scaled 2 1 e).1) = m := by
      refine roundDiv_eq_of_near value divisor ?_ ?_ ?_
      · rw [le_div_iff₀ unit]
        exact le_trans (mul_le_mul_of_nonneg_right (by linarith) unit.le) rounds.low
      · rw [div_le_iff₀ unit]
        exact rounds.high
      · intro odd
        obtain ⟨above, under⟩ := rounds.odd odd
        rw [lt_div_iff₀ unit, div_lt_iff₀ unit]
        exact ⟨lt_of_le_of_lt (mul_le_mul_of_nonneg_right (by linarith) unit.le) above, under⟩
    rw [chosen, near, min_eq_left canonical.magnitudeBits_lt.le]
  · -- At the place below, the quotient is rounded up to the power of two.
    rw [below] at chosen divisor value
    have smaller : (0 : ℚ) < 2 ^ (e - 1) := by positivity
    have double : (2 : ℚ) ^ e = 2 * 2 ^ (e - 1) := by
      rw [zpow_sub_one₀ two_ne_zero]
      ring
    have quarter : gap (2 ^ 52) e = 1 / 4 := if_pos ⟨rfl, normal⟩
    have low := rounds.low
    rw [quarter, double] at low
    rw [double] at less
    have near : roundDiv (num * (scaled 2 1 (e - 1)).2) (den * (scaled 2 1 (e - 1)).1) =
        2 ^ 53 := by
      refine roundDiv_eq_of_near value divisor ?_ ?_ (fun odd => absurd odd (by norm_num))
      · rw [le_div_iff₀ smaller]
        push_cast at low ⊢
        linarith
      · rw [div_le_iff₀ smaller]
        push_cast
        linarith
    have carried : magnitudeBits (2 ^ 53) (e - 1) = magnitudeBits (2 ^ 52) e := by
      unfold magnitudeBits
      simp only [Nat.pow_eq]
      omega
    rw [chosen, near, carried, min_eq_left canonical.magnitudeBits_lt.le]

end Termwise.Number
