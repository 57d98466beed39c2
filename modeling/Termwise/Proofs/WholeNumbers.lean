import Mathlib
import Termwise.Proofs.Binary64

/-! Counting in binary64. A whole number is a mantissa of 53 binary digits moved up by its size, and
adding one to it is exact as long as the sum has no more digits than that. From `2 ^ 53` on, adding
one changes nothing. -/
namespace Termwise.Number

open Float.Model (Format UnpackedFloat)
open Float.Model.UnpackedFloat

/-- The integer that a number is. -/
def whole? (x : Float) : Option Int :=
  (Binary.ofFloat? x).bind fun b => if b.isInteger then some b.truncate else none

/-- A mantissa of 53 binary digits, moved up so many places, is the number in units of `2 ^ -52`. -/
structure Spread (n m place : Nat) : Prop where
  value : m * 2 ^ place = n * 2 ^ 52
  low : 2 ^ 52 ≤ m
  high : m < 2 ^ 53
  bounded : place ≤ 53

variable {n m place : Nat} {x : Float}

theorem Spread.pos (spread : Spread n m place) : 0 < m := lt_of_lt_of_le (by norm_num) spread.low

theorem spread_one : Spread 1 (2 ^ 52) 0 := ⟨by norm_num, by norm_num, by norm_num, by norm_num⟩

theorem spread_last : Spread (2 ^ 53) (2 ^ 52) 53 :=
  ⟨by norm_num, by norm_num, by norm_num, by norm_num⟩

theorem exists_spread (positive : 0 < n) (small : n ≤ 2 ^ 53) : ∃ m place, Spread n m place := by
  rcases small.lt_or_eq with less | rfl
  · have below : 2 ^ n.log2 ≤ n := Nat.log2_self_le positive.ne'
    have above : n < 2 ^ (n.log2 + 1) := Nat.lt_log2_self
    have short : n.log2 ≤ 52 := Nat.le_of_lt_succ ((Nat.log2_lt positive.ne').mpr less)
    have parts : 2 ^ (52 - n.log2) * 2 ^ n.log2 = 2 ^ 52 := by
      rw [← pow_add, Nat.sub_add_cancel short]
    refine ⟨n * 2 ^ (52 - n.log2), n.log2, ?_, ?_, ?_, by omega⟩
    · rw [mul_assoc, parts]
    · calc 2 ^ 52 = 2 ^ n.log2 * 2 ^ (52 - n.log2) := by rw [mul_comm, parts]
        _ ≤ n * 2 ^ (52 - n.log2) := Nat.mul_le_mul_right _ below
    · calc n * 2 ^ (52 - n.log2)
          < 2 ^ (n.log2 + 1) * 2 ^ (52 - n.log2) :=
          Nat.mul_lt_mul_of_pos_right above (by positivity)
        _ = 2 ^ 53 := by rw [← pow_add]; congr 1; omega
  · exact ⟨_, _, spread_last⟩

theorem Spread.ratio (spread : Spread n m place) (negative : Bool) :
    ∃ den, 0 < den ∧ Binary.ratio ⟨negative, m, (place : Int) - 52⟩ = (n * den, den) := by
  have value := spread.value
  unfold Binary.ratio scaled
  simp only [Nat.pow_eq]
  split
  next up =>
    have places : place = ((place : Int) - 52).toNat + 52 := by omega
    have exact : m * 2 ^ ((place : Int) - 52).toNat = n := by
      rw [places, pow_add, ← mul_assoc] at value
      exact Nat.eq_of_mul_eq_mul_right (by positivity) value
    exact ⟨1, Nat.one_pos, by rw [exact, mul_one]⟩
  next down =>
    have places : 2 ^ 52 = 2 ^ (-((place : Int) - 52)).toNat * 2 ^ place := by
      rw [← pow_add]
      congr 1
      omega
    have exact : m = n * 2 ^ (-((place : Int) - 52)).toNat := by
      rw [places, ← mul_assoc] at value
      exact Nat.eq_of_mul_eq_mul_right (by positivity) value
    exact ⟨2 ^ (-((place : Int) - 52)).toNat, by positivity, by rw [← exact]⟩

section Patterns

theorem unpack_whole (spread : Spread n m place) {b : Bits}
    (bits : b.toNat = (place + 1022) * 2 ^ 52 + m) :
    unpack Format.binary64 b = .finite .positive m ((place : Int) - 52) spread.pos := by
  obtain ⟨-, low, high, bounded⟩ := spread
  have exponent : (unpackExponent b).toNat = place + 1023 := by
    rw [toNat_unpackExponent, bits]
    omega
  have mantissa : (unpackMantissa b).toNat = m - 2 ^ 52 := by
    rw [toNat_unpackMantissa, bits]
    omega
  have sign : unpackSign b = 0#1 := by
    apply BitVec.eq_of_toNat_eq
    rw [toNat_unpackSign, bits, BitVec.toNat_ofNat]
    omega
  have finite : unpackExponent b ≠ -1#_ := by
    intro same
    rw [same] at exponent
    simp at exponent
    omega
  have normal : unpackExponent b ≠ 0#_ := by
    intro same
    rw [same] at exponent
    simp at exponent
  unfold unpack
  simp only [if_neg finite, if_neg normal, sign, exponent]
  rw [UnpackedFloat.finite.injEq]
  refine ⟨rfl, ?_, ?_⟩
  · rw [toNat_append_add, mantissa]
    simp only [BitVec.toNat_ofNat]
    omega
  · simp only [Format.exponentBias]
    omega

theorem toNat_pack_whole (spread : Spread n m place) :
    (pack Format.binary64 (.finite .positive m ((place : Int) - 52) spread.pos)).toNat =
      (place + 1022) * 2 ^ 52 + m := by
  obtain ⟨-, low, high, bounded⟩ := spread
  have long : m.log2 + 1 = Format.binary64.mantissaBits := by
    have bits : m.log2 = 52 := (Nat.log2_eq_iff (by omega)).mpr ⟨low, high⟩
    rw [bits]
    rfl
  have biased : ((place : Int) - 52 + Format.binary64.exponentBias + (52 : Nat)).toNat =
      place + 1023 := by
    simp only [Format.exponentBias]
    omega
  simp only [pack]
  rw [if_neg, if_pos long, biased]
  · rw [packComponents, toNat_append_add, toNat_append_add]
    simp [Sign.toBitVec]
    omega
  · rw [biased]
    omega

theorem unpack_one :
    unpack Format.binary64 (pattern 1) = .finite .positive (2 ^ 52) (-52) spread_one.pos :=
  unpack_whole spread_one (by decide +kernel)

end Patterns

section Rounding

theorem shiftRight_exact (m s : Nat) :
    (ExtendedMantissa.mk (m * 2 ^ s) false false >>> s) = ExtendedMantissa.mk m false false := by
  change s.repeat ExtendedMantissa.shiftRightOne _ = _
  induction s generalizing m with
  | zero => simp [Nat.repeat]
  | succ s ih =>
    rw [Nat.repeat, pow_succ', ← mul_assoc, ih]
    simp [ExtendedMantissa.shiftRightOne]

theorem shiftToExponent_exact (m s : Nat) (e : Int) :
    shiftToExponent (m * 2 ^ s) e .exact (e + s) = (ExtendedMantissa.mk m false false, e + s) := by
  have amount : (e + s - e).toNat = s := by omega
  simp only [shiftToExponent, amount, ExtendedMantissa.ofMantissaAndAccuracy, shiftRight_exact]

/-- The exponent at which a mantissa of 53 digits is kept, from wherever it is moved up. -/
theorem targetExponent_whole (low : 2 ^ 52 ≤ m) (high : m < 2 ^ 53) (place s : Nat) :
    Format.binary64.targetExponent (Float.Model.totalExponent (m * 2 ^ s)
      ((place : Int) - s - 52)) = (place : Int) - 52 := by
  have digits : (m * 2 ^ s).log2 = 52 + s := by
    rw [Nat.log2_eq_iff (by positivity), pow_add, show 52 + s + 1 = 53 + s by omega, pow_add]
    exact ⟨Nat.mul_le_mul_right _ low, Nat.mul_lt_mul_of_pos_right high (by positivity)⟩
  have least : Format.binary64.minExponent = -1074 := by decide
  have width : Format.binary64.mantissaBits = 53 := rfl
  rw [Format.targetExponent, Float.Model.totalExponent, digits, least, width]
  omega

/-- A whole number in units of `2 ^ -52` is kept as it is. -/
theorem round_whole (spread : Spread n m place) :
    UnpackedFloat.round Format.binary64 .positive (n * 2 ^ 52) (-52) =
      .finite .positive m ((place : Int) - 52) spread.pos := by
  have positive := spread.pos
  obtain ⟨value, low, high, -⟩ := spread
  have first := targetExponent_whole low high place place
  rw [show (place : Int) - place - 52 = -52 by omega] at first
  have last := targetExponent_whole low high place 0
  rw [pow_zero, mul_one, Nat.cast_zero, sub_zero] at last
  have kept : decreaseExponent (m * 2 ^ place) (-52) ((place : Int) - 52) =
      (m * 2 ^ place, -52) := by
    have none : (-52 - ((place : Int) - 52)).toNat = 0 := by omega
    simp [decreaseExponent, none]
  have moved := shiftToExponent_exact m place (-52)
  rw [show -52 + (place : Int) = place - 52 by omega] at moved
  have still := shiftToExponent_exact m 0 ((place : Int) - 52)
  rw [pow_zero, mul_one, Nat.cast_zero, add_zero] at still
  have rounded : (ExtendedMantissa.mk m false false).roundedMantissa = m := rfl
  rw [← value, UnpackedFloat.round]
  simp only [first, kept, roundWithAccuracy, shiftToTargetExponent, moved, rounded, last, still]
  exact dif_neg positive.ne'

end Rounding

/-- Zero without a sign, or the pattern of a positive whole number. -/
inductive IsWhole (x : Float) : Nat → Prop where
  | zero (same : x = 0) : IsWhole x 0
  | positive {n m place : Nat} (spread : Spread n m place)
      (bits : (pattern x).toNat = (place + 1022) * 2 ^ 52 + m) : IsWhole x n

theorem pattern_add (x y : Float) : pattern (x + y) = pack Format.binary64
    (UnpackedFloat.add Format.binary64 (unpack Format.binary64 (pattern x))
      (unpack Format.binary64 (pattern y))) := rfl

/-- The sum is taken in units of `2 ^ -52`. -/
theorem pattern_add_one (spread : Spread n m place)
    (bits : (pattern x).toNat = (place + 1022) * 2 ^ 52 + m) :
    pattern (x + 1) = pack Format.binary64
      (UnpackedFloat.round Format.binary64 .positive ((n + 1) * 2 ^ 52) (-52)) := by
  have least : min ((place : Int) - 52) (-52) = -52 := by omega
  have up : ((place : Int) - 52 - -52).toNat = place := by omega
  have sum : m <<< place + 2 ^ 52 <<< 0 = (n + 1) * 2 ^ 52 := by
    rw [Nat.shiftLeft_eq, spread.value, Nat.shiftLeft_zero]
    ring
  have positive : compare (((n + 1) * 2 ^ 52 : Nat) : Int) 0 = .gt := by
    rw [Int.compare_eq_gt]
    positivity
  rw [pattern_add, unpack_whole spread bits, unpack_one]
  congr 1
  simp only [UnpackedFloat.add, least, decreaseExponent, up, sub_self, Int.toNat_zero, Sign.apply]
  rw [← Nat.cast_add, sum, UnpackedFloat.normalize, positive, Int.toNat_natCast]

namespace IsWhole

/-- Counting on is exact up to `2 ^ 53`. -/
theorem add_one (whole : IsWhole x n) (small : n < 2 ^ 53) : IsWhole (x + 1) (n + 1) := by
  cases whole with
  | zero same =>
    subst same
    exact .positive spread_one (by decide +kernel)
  | positive spread bits =>
    obtain ⟨m, place, next⟩ := exists_spread (Nat.succ_pos n) (show n + 1 ≤ 2 ^ 53 from small)
    refine .positive next ?_
    rw [pattern_add_one spread bits, round_whole next, toNat_pack_whole next]

/-- The sum is half way between two numbers there, and the even one of them is where the count
was. -/
theorem add_one_stays (whole : IsWhole x (2 ^ 53)) : IsWhole (x + 1) (2 ^ 53) := by
  cases whole with
  | positive spread bits =>
    refine .positive spread_last ?_
    rw [pattern_add_one spread bits]
    decide +kernel

theorem read (whole : IsWhole x n) : whole? x = some (n : Int) := by
  cases whole with
  | zero same =>
    subst same
    decide +kernel
  | @positive _ m place spread bits =>
    have fields : Binary.ofFloat? x = some ⟨false, m, (place : Int) - 52⟩ := by
      obtain ⟨-, low, high, bounded⟩ := spread
      have bits : x.toBits.toNat = (place + 1022) * 2 ^ 52 + m := bits
      have field : ((place + 1022) * 2 ^ 52 + m) / 2 ^ 52 % 2 ^ 11 = place + 1023 := by omega
      have fraction : ((place + 1022) * 2 ^ 52 + m) % 2 ^ 52 + 2 ^ 52 = m := by omega
      have sign : ((place + 1022) * 2 ^ 52 + m) / 2 ^ 63 ≠ 1 := by omega
      have exponent : ((place + 1023 : Nat) : Int) - 1075 = place - 52 := by omega
      simp only [Binary.ofFloat?, bits, Nat.pow_eq]
      rw [field, fraction, if_neg (by omega), if_neg (by omega), decide_eq_false sign, exponent]
    obtain ⟨den, positive, ratio⟩ := spread.ratio false
    rw [whole?, fields, Option.bind_some, Binary.isInteger, Binary.truncate, ratio]
    simp [Binary.signed, positive]

end IsWhole

end Termwise.Number
