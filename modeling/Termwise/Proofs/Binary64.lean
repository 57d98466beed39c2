import Mathlib
import Termwise.Proofs.Rounding

/-! The bit patterns of finite numbers. A finite number is its pattern, equals itself, and is a
binary fraction whose magnitude has the pattern without its sign. -/
namespace Termwise.Number

open Float.Model (Format UnpackedFloat)
open Float.Model.UnpackedFloat

abbrev Bits := BitVec Format.binary64.numBits

theorem toNat_unpackExponent (b : Bits) : (unpackExponent b).toNat = b.toNat / 2 ^ 52 % 2 ^ 11 := by
  simp [unpackExponent, BitVec.extractLsb, BitVec.extractLsb', Nat.shiftRight_eq_div_pow]

theorem toNat_unpackMantissa (b : Bits) : (unpackMantissa b).toNat = b.toNat % 2 ^ 52 := by
  simp [unpackMantissa, BitVec.extractLsb, BitVec.extractLsb']

theorem toNat_unpackSign (b : Bits) : (unpackSign b).toNat = b.toNat / 2 ^ 63 := by
  have small : b.toNat < 2 ^ 64 := b.isLt
  simp [unpackSign, BitVec.extractLsb, BitVec.extractLsb', Nat.shiftRight_eq_div_pow]
  omega

theorem toBitVec_ofBitVec (v : BitVec 1) : (Sign.ofBitVec v).toBitVec = v := by
  revert v
  decide

theorem toNat_append_add {m n : Nat} (x : BitVec m) (y : BitVec n) :
    (x ++ y).toNat = x.toNat * 2 ^ n + y.toNat := by
  rw [BitVec.toNat_append, ← Nat.shiftLeft_add_eq_or_of_lt y.isLt, Nat.shiftLeft_eq]

theorem packComponents_unpack (b : Bits) :
    packComponents Format.binary64 (Sign.ofBitVec (unpackSign b)) (unpackExponent b)
      (unpackMantissa b) = b := by
  have small : b.toNat < 2 ^ 64 := b.isLt
  apply BitVec.eq_of_toNat_eq
  rw [packComponents, toBitVec_ofBitVec, toNat_append_add, toNat_append_add, toNat_unpackExponent,
    toNat_unpackMantissa, toNat_unpackSign]
  simp only
  omega

/-- Unpacking a finite pattern and packing it again gives the pattern back. -/
theorem pack_unpack (b : Bits) (finite : unpackExponent b ≠ -1#_) :
    pack Format.binary64 (unpack Format.binary64 b) = b := by
  have components := packComponents_unpack b
  have small : (unpackExponent b).toNat < 2047 := by
    have bound := (unpackExponent b).isLt
    have different : (unpackExponent b).toNat ≠ 2047 :=
      fun same => finite (BitVec.eq_of_toNat_eq same)
    simp only at bound
    omega
  unfold unpack
  simp only [if_neg finite]
  split
  next zero =>
    split
    next none =>
      rw [zero, none] at components
      exact components
    next some =>
      rw [zero] at components ⊢
      have mantissa := (unpackMantissa b).isLt
      have short : (unpackMantissa b).toNat.log2 + 1 ≠ Format.binary64.mantissaBits := by
        have := (Nat.log2_lt (k := 52) (by simpa [← BitVec.toNat_inj] using some)).mpr mantissa
        have : Format.binary64.mantissaBits = 53 := rfl
        omega
      simp only [pack]
      rw [if_neg (by decide), if_neg short, BitVec.ofNat_toNat, BitVec.setWidth_eq]
      exact components
  next normal =>
    have mantissa : (unpackMantissa b).toNat < 2 ^ 52 := (unpackMantissa b).isLt
    have value : (1#1 ++ unpackMantissa b).toNat = 2 ^ 52 + (unpackMantissa b).toNat := by
      rw [toNat_append_add]
      simp
    have long : (1#1 ++ unpackMantissa b).toNat.log2 + 1 = Format.binary64.mantissaBits := by
      have bits : (2 ^ 52 + (unpackMantissa b).toNat).log2 = 52 :=
        (Nat.log2_eq_iff (by omega)).mpr (by omega)
      rw [value, bits]
      rfl
    have biased : (((unpackExponent b).toNat : Int) -
        ((Format.binary64.exponentBias : Int) + (52 : Nat)) + Format.binary64.exponentBias +
        (52 : Nat)).toNat = (unpackExponent b).toNat := by omega
    simp only [pack]
    rw [if_neg, if_pos long, biased, value]
    · have restored : BitVec.ofNat 52 (2 ^ 52 + (unpackMantissa b).toNat) = unpackMantissa b := by
        apply BitVec.eq_of_toNat_eq
        rw [BitVec.toNat_ofNat]
        omega
      rw [BitVec.ofNat_toNat, BitVec.setWidth_eq]
      exact (congrArg _ restored).trans components
    · rw [biased]
      simp only
      omega

/-- The bits of a number. -/
def pattern (x : Float) : Bits := x.toBits.toBitVec

theorem exponent_of_isFinite {x : Float} (finite : x.isFinite = true) :
    unpackExponent (pattern x) ≠ -1#_ := by
  intro special
  have unpacked : (unpack Format.binary64 (pattern x)).isFinite = true := finite
  unfold unpack at unpacked
  simp only [if_pos special] at unpacked
  by_cases infinite : unpackMantissa (pattern x) = 0#_
  · rw [if_pos infinite] at unpacked
    cases unpacked
  · rw [if_neg infinite] at unpacked
    cases unpacked

theorem ofBits_toBits {x : Float} (finite : x.isFinite = true) : Float.ofBits x.toBits = x := by
  have same := pack_unpack (pattern x) (exponent_of_isFinite finite)
  have bits : UInt64.ofBitVec (pack Format.binary64 (unpack Format.binary64 x.toBits.toBitVec)) =
      x.toBits :=
    congrArg UInt64.ofBitVec same
  obtain ⟨⟨bits, valid⟩⟩ := x
  unfold Float.ofBits Float.Model.ofBits Float.Model.pack
  congr

theorem beq_self {x : Float} (finite : x.isFinite = true) : (x == x) = true := by
  have unpacked : (unpack Format.binary64 x.toBits.toBitVec).isFinite = true := finite
  show ((unpack Format.binary64 x.toBits.toBitVec).compare
    (unpack Format.binary64 x.toBits.toBitVec) == some .eq) = true
  cases whole : unpack Format.binary64 x.toBits.toBitVec with
  | infinity s => rw [whole] at unpacked; cases unpacked
  | notANumber => rw [whole] at unpacked; cases unpacked
  | zero s => rfl
  | finite s m e positive =>
    cases s <;> simp [UnpackedFloat.compare]

theorem ofFloat?_of_isFinite {x : Float} (finite : x.isFinite = true) :
    ∃ b, Binary.ofFloat? x = some b := by
  have exponent := exponent_of_isFinite finite
  have field : x.toBits.toNat / Nat.pow 2 52 % Nat.pow 2 11 ≠ 2047 := by
    intro same
    apply exponent
    apply BitVec.eq_of_toNat_eq
    rw [toNat_unpackExponent]
    exact same
  unfold Binary.ofFloat?
  simp only [if_neg field]
  split
  · exact ⟨_, rfl⟩
  · exact ⟨_, rfl⟩

variable {x : Float} {b : Binary}

/-- The fields of a number determine its pattern. -/
theorem ofBits_fields (finite : x.isFinite = true) (fields : Binary.ofFloat? x = some b) :
    Float.ofBits (UInt64.ofNat (magnitudeBits b.mantissa b.exponent +
      if b.negative then Nat.pow 2 63 else 0)) = x := by
  have bits : magnitudeBits b.mantissa b.exponent + (if b.negative then Nat.pow 2 63 else 0) =
      x.toBits.toNat := by
    have bound : x.toBits.toNat < 2 ^ 64 := x.toBits.toNat_lt
    unfold Binary.ofFloat? at fields
    simp only [Nat.pow_eq] at fields ⊢
    generalize x.toBits.toNat = n at fields bound ⊢
    split at fields
    · cases fields
    · split at fields
      · cases fields
        simp only [magnitudeBits, Nat.pow_eq, decide_eq_true_eq]
        split <;> omega
      · cases fields
        simp only [magnitudeBits, Nat.pow_eq, decide_eq_true_eq]
        split <;> omega
  rw [bits, UInt64.ofNat_toNat, ofBits_toBits finite]

theorem canonical_fields (fields : Binary.ofFloat? x = some b) (content : b.mantissa ≠ 0) :
    Canonical b.mantissa b.exponent := by
  unfold Binary.ofFloat? at fields
  simp only [Nat.pow_eq] at fields
  generalize x.toBits.toNat = n at fields
  split at fields
  · cases fields
  · split at fields
    · cases fields
      simp only at content ⊢
      constructor <;> omega
    · cases fields
      constructor <;> simp only <;> omega

/-- A quotient in the rounding interval of a number is read as the number. -/
theorem nearest_eq {num den : Nat} (finite : x.isFinite = true)
    (fields : Binary.ofFloat? x = some b) (content : b.mantissa ≠ 0) (positive : 0 < den)
    (rounds : Rounds b.mantissa b.exponent (num / den)) : nearest b.negative num den = x := by
  rw [nearest, nearestBits_eq (canonical_fields fields content) positive rounds,
    ofBits_fields finite fields]

end Termwise.Number
