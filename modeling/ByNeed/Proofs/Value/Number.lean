import ByNeed.Value.Basic
import Mathlib

set_option autoImplicit false

-- Two floats are equal if they are the same number, which leaves out NaN and takes the two zeros as one.
namespace ByNeed

open Float.Model Float.Model.UnpackedFloat

section Comparison

def number? : UnpackedFloat → Option UnpackedFloat
  | .notANumber => none
  | .zero _ => some (.zero .positive)
  | other => some other

theorem compare_eq_iff (left right : UnpackedFloat) :
    left.compare right = some .eq ↔ ∃ number, number? left = some number ∧ number? right = some number := by
  cases left with
  | notANumber => simp [UnpackedFloat.compare, number?]
  | infinity sign =>
    cases right with
    | notANumber => simp [UnpackedFloat.compare, number?]
    | infinity sign' => cases sign <;> cases sign' <;> simp [UnpackedFloat.compare, number?, compare]
    | zero | finite => cases sign <;> simp [UnpackedFloat.compare, number?]
  | zero sign =>
    cases right with
    | notANumber | zero => simp [UnpackedFloat.compare, number?]
    | infinity sign' | finite sign' => cases sign' <;> simp [UnpackedFloat.compare, number?]
  | finite sign mantissa exponent =>
    cases right with
    | notANumber => simp [UnpackedFloat.compare, number?]
    | infinity sign' => cases sign' <;> cases sign <;> simp [UnpackedFloat.compare, number?]
    | zero => cases sign <;> simp [UnpackedFloat.compare, number?]
    | finite sign' mantissa' exponent' =>
      cases sign <;> cases sign' <;>
        simp [UnpackedFloat.compare, number?, Ordering.swap_eq_eq, Ordering.then_eq_eq]
      all_goals exact ⟨fun same => ⟨same.2.symm, same.1.symm⟩, fun same => ⟨same.2.symm, same.1.symm⟩⟩

theorem float_beq_iff {left right : Float} :
    (left == right) = true ↔ ∃ number, number? left.toModel.unpack = some number ∧
      number? right.toModel.unpack = some number := by
  rw [← compare_eq_iff]
  show (left.toModel.unpack.compare right.toModel.unpack == some .eq) = true ↔ _
  rw [beq_iff_eq]

theorem float_beq_symm {left right : Float} (same : (left == right) = true) : (right == left) = true := by
  obtain ⟨number, isLeft, isRight⟩ := float_beq_iff.mp same
  exact float_beq_iff.mpr ⟨number, isRight, isLeft⟩

theorem float_beq_trans {left between right : Float} (first : (left == between) = true)
    (second : (between == right) = true) : (left == right) = true := by
  obtain ⟨number, isLeft, isBetween⟩ := float_beq_iff.mp first
  obtain ⟨number', isBetween', isRight⟩ := float_beq_iff.mp second
  cases isBetween.symm.trans isBetween'
  exact float_beq_iff.mpr ⟨number, isLeft, isRight⟩

theorem float_beq_self {value : Float} (number : value.isNaN = false) : (value == value) = true := by
  have known : value.toModel.unpack.isNaN = false := number
  refine float_beq_iff.mpr ?_
  cases found : value.toModel.unpack with
  | notANumber =>
    rw [found] at known
    cases known
  | infinity | zero | finite => exact ⟨_, rfl, rfl⟩

end Comparison

section Rounding

variable {mantissa : Nat} {exponent : Int}

-- Only zeros are shifted out.
theorem shiftRight_exact (mantissa places : Nat) :
    ExtendedMantissa.mk (mantissa * 2 ^ places) false false >>> places = ⟨mantissa, false, false⟩ := by
  induction places generalizing mantissa with
  | zero => simp [HShiftRight.hShiftRight, Nat.repeat]
  | succ places ih =>
    have once : ExtendedMantissa.mk (mantissa * 2 ^ (places + 1)) false false >>> (places + 1) =
        (ExtendedMantissa.mk (mantissa * 2 * 2 ^ places) false false >>> places).shiftRightOne := by
      rw [Nat.pow_succ', ← Nat.mul_assoc]
      rfl
    rw [once, ih]
    simp [ExtendedMantissa.shiftRightOne]

def Normal (mantissa : Nat) : Prop :=
  2 ^ 52 ≤ mantissa ∧ mantissa < 2 ^ 53

theorem Normal.pos (normal : Normal mantissa) : 0 < mantissa :=
  Nat.lt_of_lt_of_le (by decide) normal.1

theorem Normal.log2 (normal : Normal mantissa) (places : Nat) :
    (mantissa * 2 ^ places).log2 = 52 + places := by
  rw [Nat.log2_eq_iff]
  · obtain ⟨low, high⟩ := normal
    constructor
    · rw [Nat.pow_add]
      exact Nat.mul_le_mul_right _ low
    · rw [show 52 + places + 1 = 53 + places by omega, Nat.pow_add]
      exact Nat.mul_lt_mul_of_pos_right high (by positivity)
  · have := normal.pos
    positivity

theorem shiftToTargetExponent_exact (normal : Normal mantissa) (places : Nat) (least : -1074 ≤ exponent + places) :
    shiftToTargetExponent Format.binary64 (mantissa * 2 ^ places) exponent .exact =
      (⟨mantissa, false, false⟩, exponent + places) := by
  have target : Format.binary64.targetExponent (totalExponent (mantissa * 2 ^ places) exponent) =
      exponent + places := by
    simp only [Format.targetExponent, totalExponent, normal.log2, Format.minExponent, Format.mantissaBits]
    omega
  have amount : (exponent + places - exponent).toNat = places := by omega
  simp only [shiftToTargetExponent, shiftToExponent, target, amount, ExtendedMantissa.ofMantissaAndAccuracy,
    shiftRight_exact]

theorem roundWithAccuracy_exact (normal : Normal mantissa) (sign : Sign) (places : Nat)
    (least : -1074 ≤ exponent + places) :
    roundWithAccuracy Format.binary64 sign (mantissa * 2 ^ places) exponent .exact =
      .finite sign mantissa (exponent + places) normal.pos := by
  have again := @shiftToTargetExponent_exact mantissa (exponent + places) normal 0 (by simpa using least)
  have nonzero : mantissa ≠ 0 := Nat.ne_of_gt normal.pos
  simp only [Nat.pow_zero, Nat.mul_one, Nat.cast_zero, add_zero] at again
  simp [roundWithAccuracy, shiftToTargetExponent_exact normal places least, ExtendedMantissa.roundedMantissa,
    ExtendedMantissa.accuracy, Accuracy.roundToNearestEven, again, nonzero]

theorem unpackSign_packComponents (spec : Format) (sign : Sign) (exponent : BitVec spec.exponentBits)
    (mantissa : BitVec spec.mantissaBitsWithoutImplicit) :
    unpackSign (packComponents spec sign exponent mantissa) = sign.toBitVec := by
  apply BitVec.eq_of_getLsbD_eq
  intro i within
  have first : i = 0 := by omega
  subst first
  simp [unpackSign, packComponents, BitVec.getLsbD_append, BitVec.getElem_append]

theorem toNat_implicit (normal : Normal mantissa) : (1#1 ++ BitVec.ofNat 52 mantissa).toNat = mantissa := by
  obtain ⟨low, high⟩ := normal
  have below : (BitVec.ofNat 52 mantissa).toNat < 2 ^ 52 := BitVec.isLt _
  rw [BitVec.toNat_append, ← Nat.shiftLeft_add_eq_or_of_lt below, BitVec.toNat_ofNat]
  simp only [BitVec.toNat_ofNat, Nat.shiftLeft_eq]
  omega

section Packed

variable (normal : Normal mantissa) (sign : Sign) {biased : Nat} (least : 1 ≤ biased) (greatest : biased ≤ 2046)
include normal least greatest

theorem pack_normal :
    UnpackedFloat.pack Format.binary64 (.finite sign mantissa (biased - 1075) normal.pos) =
      packComponents Format.binary64 sign (BitVec.ofNat 11 biased) (BitVec.ofNat 52 mantissa) := by
  have bits : mantissa.log2 + 1 = Format.binary64.mantissaBits := by
    have log := normal.log2 0
    rw [Nat.pow_zero, Nat.mul_one] at log
    rw [log]
    rfl
  have bias : Format.binary64.exponentBias = 1023 := rfl
  have stored : ((biased : Int) - 1075 + (1023 : Nat) + (52 : Nat)).toNat = biased := by omega
  simp only [UnpackedFloat.pack, bias, stored]
  rw [if_neg (by omega), if_pos bits]

theorem unpack_normal :
    UnpackedFloat.unpack Format.binary64
        (packComponents Format.binary64 sign (BitVec.ofNat 11 biased) (BitVec.ofNat 52 mantissa)) =
      .finite sign mantissa (biased - 1075) normal.pos := by
  have stored : (BitVec.ofNat 11 biased).toNat = biased := by
    rw [BitVec.toNat_ofNat]
    omega
  have notAll : BitVec.ofNat 11 biased ≠ -1#11 := by
    intro same
    have all : biased = 2047 := stored.symm.trans (congrArg BitVec.toNat same)
    omega
  have notZero : BitVec.ofNat 11 biased ≠ 0#11 := by
    intro same
    have none : biased = 0 := stored.symm.trans (congrArg BitVec.toNat same)
    omega
  have signed : Sign.ofBitVec sign.toBitVec = sign := by cases sign <;> rfl
  simp only [UnpackedFloat.unpack, unpackMantissa_packComponents, unpackExponent_packComponents,
    unpackSign_packComponents, notAll, notZero, if_false, toNat_implicit normal, stored, signed]
  rfl

end Packed

theorem unpack_pack (normal : Normal mantissa) (sign : Sign) (least : -1074 ≤ exponent)
    (greatest : exponent ≤ 971) :
    (Float.Model.pack (.finite sign mantissa exponent normal.pos)).unpack =
      .finite sign mantissa exponent normal.pos := by
  obtain ⟨biased, rfl⟩ : ∃ biased : Nat, exponent = biased - 1075 := ⟨(exponent + 1075).toNat, by omega⟩
  show UnpackedFloat.unpack Format.binary64 (UnpackedFloat.pack Format.binary64 _) = _
  rw [pack_normal normal sign (by omega) (by omega), unpack_normal normal sign (by omega) (by omega)]

end Rounding

theorem one_unpack :
    (Float.ofBits 0x3FF0000000000000).toModel.unpack = .finite .positive (2 ^ 52) (-52) (by decide) := rfl

section Integer

variable {magnitude : Nat} (positive : 0 < magnitude) (small : magnitude < 2 ^ 53)
include positive small

theorem normal_scaled : Normal (magnitude * 2 ^ (52 - magnitude.log2)) := by
  have nonzero : magnitude ≠ 0 := Nat.ne_of_gt positive
  have few : magnitude.log2 < 53 := (Nat.log2_lt nonzero).mpr small
  obtain ⟨low, high⟩ := (Nat.log2_eq_iff nonzero).mp (Eq.refl magnitude.log2)
  have below : 2 ^ magnitude.log2 * 2 ^ (52 - magnitude.log2) = 2 ^ 52 := by
    rw [← Nat.pow_add, Nat.add_sub_cancel' (by omega)]
  have above : 2 ^ (magnitude.log2 + 1) * 2 ^ (52 - magnitude.log2) = 2 ^ 53 := by
    rw [← Nat.pow_add, show magnitude.log2 + 1 + (52 - magnitude.log2) = 53 by omega]
  constructor
  · rw [← below]
    exact Nat.mul_le_mul_right _ low
  · rw [← above]
    exact Nat.mul_lt_mul_of_pos_right high (by positivity)

def scaled (sign : Sign) : UnpackedFloat :=
  .finite sign (magnitude * 2 ^ (52 - magnitude.log2)) (-(52 - magnitude.log2 : Nat)) (normal_scaled positive small).pos

theorem round_exact (sign : Sign) : round Format.binary64 sign magnitude 0 = scaled positive small sign := by
  have few : magnitude.log2 < 53 := (Nat.log2_lt (Nat.ne_of_gt positive)).mpr small
  have target : Format.binary64.targetExponent (totalExponent magnitude 0) = -(52 - magnitude.log2 : Nat) := by
    simp only [Format.targetExponent, totalExponent, Format.minExponent, Format.mantissaBits]
    omega
  have amount : (0 - -((52 - magnitude.log2 : Nat) : Int)).toNat = 52 - magnitude.log2 := by omega
  have rounded := roundWithAccuracy_exact (normal_scaled positive small) sign 0
    (show -1074 ≤ -((52 - magnitude.log2 : Nat) : Int) + (0 : Nat) by omega)
  simp only [UnpackedFloat.round, target, decreaseExponent, amount, Nat.shiftLeft_eq]
  simpa [scaled] using rounded

theorem unpack_pack_scaled (sign : Sign) :
    (Float.Model.pack (scaled positive small sign)).unpack = scaled positive small sign :=
  unpack_pack (normal_scaled positive small) sign (by omega) (by omega)

theorem toFloat_exact : magnitude.toUInt64.toFloat.toModel.unpack = scaled positive small .positive := by
  have fits : magnitude.toUInt64.toNat = magnitude := by
    simp [Nat.toUInt64]
    omega
  have above : compare (magnitude : Int) 0 = .gt := by
    rw [Int.compare_eq_gt]
    omega
  have rounded : UnpackedFloat.ofUInt64 Format.binary64 magnitude.toUInt64 = scaled positive small .positive := by
    simp only [UnpackedFloat.ofUInt64, UnpackedFloat.ofNat, UnpackedFloat.ofInt, UnpackedFloat.normalize, fits, above]
    exact round_exact positive small .positive
  show (Float.Model.pack (UnpackedFloat.ofUInt64 Format.binary64 magnitude.toUInt64)).unpack = _
  rw [rounded, unpack_pack_scaled]

theorem mul_one_exact :
    UnpackedFloat.mul Format.binary64 (scaled positive small .positive) (.finite .positive (2 ^ 52) (-52) (by decide)) =
      scaled positive small .positive := by
  have rounded := roundWithAccuracy_exact (normal_scaled positive small) .positive 52
    (show -1074 ≤ -((52 - magnitude.log2 : Nat) : Int) + -52 + (52 : Nat) by omega)
  rw [show -((52 - magnitude.log2 : Nat) : Int) + -52 + (52 : Nat) = -(52 - magnitude.log2 : Nat) by omega] at rounded
  exact rounded

-- The integer is converted as a word, and then multiplied by the power of ten with exponent zero.
theorem ofNat_exact : (Float.ofNat magnitude).toModel.unpack = scaled positive small .positive := by
  have product : (Float.ofNat magnitude).toModel =
      .pack (UnpackedFloat.mul Format.binary64 magnitude.toUInt64.toFloat.toModel.unpack
        (Float.ofBits 0x3FF0000000000000).toModel.unpack) := by
    simp only [Float.ofNat, OfScientific.ofScientific, Float.ofScientific, small]
    rfl
  rw [product, toFloat_exact positive small, one_unpack, mul_one_exact, unpack_pack_scaled]

end Integer

def rational? : UnpackedFloat → Option ℚ
  | .zero _ => some 0
  | .finite sign mantissa exponent _ => some (sign.apply mantissa * 2 ^ exponent)
  | _ => none

theorem rational?_of_beq {left right : Float} (same : (left == right) = true) :
    rational? left.toModel.unpack = rational? right.toModel.unpack := by
  have only {float number : UnpackedFloat} (known : number? float = some number) :
      rational? float = rational? number := by
    cases float <;> cases known <;> rfl
  obtain ⟨number, isLeft, isRight⟩ := float_beq_iff.mp same
  rw [only isLeft, only isRight]

theorem ofNat_unpack {magnitude : Nat} (positive : 0 < magnitude) (small : magnitude ≤ 2 ^ 53) :
    ∃ mantissa exponent, ∃ normal : Normal mantissa, -1074 ≤ exponent ∧ exponent ≤ 971 ∧
      (Float.ofNat magnitude).toModel.unpack = .finite .positive mantissa exponent normal.pos ∧
      (mantissa : ℚ) * 2 ^ exponent = magnitude := by
  rcases Nat.lt_or_eq_of_le small with less | rfl
  · refine ⟨_, _, normal_scaled positive less, ?_, ?_, ofNat_exact positive less, ?_⟩
    · omega
    · omega
    · rw [Nat.cast_mul, Nat.cast_pow, mul_assoc, zpow_neg, zpow_natCast]
      simp
  · exact ⟨2 ^ 52, 1, ⟨by decide, by decide⟩, by decide, by decide, rfl, by norm_num⟩

theorem ofInt_exact {value : Int} (small : |value| ≤ 2 ^ 53) :
    rational? (Float.ofInt value).toModel.unpack = some (value : ℚ) := by
  cases value with
  | ofNat magnitude =>
    rcases Nat.eq_zero_or_pos magnitude with rfl | positive
    · rfl
    · have bounded : magnitude ≤ 2 ^ 53 := by simpa [abs_of_nonneg] using small
      obtain ⟨mantissa, exponent, normal, _, _, unpacked, exact⟩ := ofNat_unpack positive bounded
      have converted : (Float.ofInt (Int.ofNat magnitude)).toModel.unpack = _ := unpacked
      rw [converted, rational?]
      simpa [Sign.apply] using exact
  | negSucc less =>
    have bounded : less + 1 ≤ 2 ^ 53 := by
      rw [abs_of_neg (Int.negSucc_lt_zero less)] at small
      omega
    obtain ⟨mantissa, exponent, normal, least, greatest, unpacked, exact⟩ :=
      ofNat_unpack (Nat.succ_pos less) bounded
    have converted : (Float.ofInt (Int.negSucc less)).toModel.unpack =
        .finite .negative mantissa exponent normal.pos := by
      show (Float.Model.pack (Float.ofNat (less + 1)).toModel.unpack.neg).unpack = _
      rw [unpacked]
      exact unpack_pack normal .negative least greatest
    rw [converted, rational?, Int.cast_negSucc, ← exact]
    simp [Sign.apply]

theorem nearest_injective {left right : Int64} (small : |left.toInt| ≤ 2 ^ 53) (small' : |right.toInt| ≤ 2 ^ 53)
    (same : (nearest left == nearest right) = true) : left = right := by
  have equal := rational?_of_beq same
  rw [nearest, nearest, ofInt_exact small, ofInt_exact small', Option.some_inj, Int.cast_inj] at equal
  exact Int64.toInt_inj.mp equal

end ByNeed
