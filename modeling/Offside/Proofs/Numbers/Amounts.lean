import Mathlib.Algebra.Order.Field.Power
import Mathlib.Algebra.Order.Field.Rat
import Mathlib.Tactic.Linarith
import Mathlib.Tactic.NormNum
import Offside.Store.Plain

namespace Offside

/-!
# What numbers are worth

Integers, floats and truth values are one key in plain data if they are equal as numbers.  The
amount of a number says exactly what it is worth: a rational number, an infinity or, for a
result that is not a number, its occurrence.  The comparisons of floats work on stored parts,
which determine the number and are determined by it, so comparing is the same as comparing
amounts.
-/

open Float.Model (UnpackedFloat Format)
open Float.Model.UnpackedFloat (Sign unpackMantissa unpackExponent unpackSign)

/-- What a number is worth.  Results that are not numbers are told apart by occurrence. -/
inductive Amount where
  | finite (value : ℚ)
  | infinite (sign : Sign)
  | undefined (occurrence : Nat)

/-- What the parts of a float are worth. -/
def Amount.ofParts (parts : UnpackedFloat) (occurrence : Nat) : Amount :=
  match parts with
  | .notANumber => .undefined occurrence
  | .infinity sign => .infinite sign
  | .zero _ => .finite 0
  | .finite sign mantissa exponent _ => .finite (sign.apply mantissa * (2 : ℚ) ^ exponent)

/-- What a float is worth. -/
def Amount.ofFloat (number : Float) (occurrence : Nat) : Amount :=
  .ofParts number.toModel.unpack occurrence

/-- What a number or a truth value is worth. -/
def Value.amount? : Value → Option Amount
  | .int value => some (.finite value)
  | .float value occurrence => some (.ofFloat value occurrence)
  | .bool value => some (.finite (if value then 1 else 0))
  | _ => none

namespace Floating

theorem toNat_unpackMantissa (number : Float) :
    (@unpackMantissa Format.binary64 number.toBits.toBitVec).toNat =
      number.toBits.toNat % Nat.pow 2 52 := by
  simp [unpackMantissa]

theorem toNat_unpackExponent (number : Float) :
    (@unpackExponent Format.binary64 number.toBits.toBitVec).toNat =
      number.toBits.toNat / Nat.pow 2 52 % Nat.pow 2 11 := by
  simp [unpackExponent, Nat.shiftRight_eq_div_pow]

theorem ofBitVec_unpackSign_eq_iff (number : Float) :
    Sign.ofBitVec (@unpackSign Format.binary64 number.toBits.toBitVec) = .negative ↔
      isNegative number = true := by
  have bound := number.toBits.toNat_lt
  have isSign : @unpackSign Format.binary64 number.toBits.toBitVec =
      BitVec.extractLsb 63 63 number.toBits.toBitVec := rfl
  simp [isSign, isNegative, Sign.ofBitVec, ← BitVec.toNat_inj, Nat.shiftRight_eq_div_pow]
  omega

/-- A mantissa and an exponent as they are stored: the mantissa has its full length unless the
exponent is the least one. -/
structure Canonical (mantissa : Nat) (exponent : Int) : Prop where
  bounded : mantissa < Nat.pow 2 53
  least : -1074 ≤ exponent
  full : exponent = -1074 ∨ Nat.pow 2 52 ≤ mantissa

/-- How the bits of a float are read. -/
inductive Reads (number : Float) : UnpackedFloat → Prop where
  | notANumber :
      number.toBits.toBitVec = UnpackedFloat.packedNaN Format.binary64 →
      Reads number .notANumber
  | infinity (sign : Sign) : Reads number (.infinity sign)
  | zero (sign : Sign) : (magnitude number).significand = 0 → Reads number (.zero sign)
  | finite {sign : Sign} {mantissa : Nat} {exponent : Int} (positive : 0 < mantissa) :
      magnitude number = ⟨mantissa, exponent⟩ →
      (sign = .negative ↔ isNegative number = true) →
      Canonical mantissa exponent →
      Reads number (.finite sign mantissa exponent positive)

theorem reads_unpack (number : Float) : Reads number number.toModel.unpack := by
  have mantissa := toNat_unpackMantissa number
  have exponent := toNat_unpackExponent number
  have negative := ofBitVec_unpackSign_eq_iff number
  have bound : number.toBits.toNat % Nat.pow 2 52 < Nat.pow 2 52 := Nat.mod_lt _ (by decide)
  unfold Float.Model.unpack UnpackedFloat.unpack
  rw [show number.toModel.toBits = number.toBits from rfl]
  refine iteInduction (fun allOnes => ?_) fun _ => iteInduction (fun noExponent => ?_) ?_
  · exact iteInduction (fun _ => .infinity _) fun someMantissa =>
      .notANumber (number.toModel.valid.eq_packedNaN allOnes someMantissa)
  · rw [noExponent] at exponent
    have isMagnitude : magnitude number = ⟨number.toBits.toNat % Nat.pow 2 52, -1074⟩ := by
      simp only [magnitude, Decimal.Magnitude.ofBits, ← exponent, BitVec.toNat_zero, if_true]
    by_cases noMantissa : @unpackMantissa Format.binary64 number.toBits.toBitVec = 0#52
    · rw [noMantissa] at mantissa
      rw [dif_pos noMantissa]
      refine .zero _ ?_
      rw [isMagnitude, ← mantissa]
      rfl
    · rw [dif_neg noMantissa]
      refine .finite _ ?_ negative ⟨?_, ?_, ?_⟩
      · rw [isMagnitude, mantissa, noExponent]
        rfl
      · rw [mantissa]
        exact Nat.lt_trans bound (by decide)
      · rw [noExponent]
        decide
      · rw [noExponent]
        exact .inl rfl
  · intro someExponent
    have biased : number.toBits.toNat / Nat.pow 2 52 % Nat.pow 2 11 ≠ 0 := by
      rw [← exponent]
      exact fun isZero => someExponent (BitVec.toNat_inj.mp isZero)
    have implicit : (1#1 ++ @unpackMantissa Format.binary64 number.toBits.toBitVec).toNat =
        Nat.pow 2 52 + number.toBits.toNat % Nat.pow 2 52 := by
      rw [BitVec.toNat_append, ← Nat.shiftLeft_add_eq_or_of_lt (BitVec.isLt _), mantissa]
      rfl
    refine .finite _ ?_ negative ⟨?_, ?_, ?_⟩
    · simp only [magnitude, Decimal.Magnitude.ofBits, biased, if_false, implicit, exponent]
      rfl
    · rw [implicit]
      exact Nat.add_lt_add_left bound _
    · rw [exponent]
      generalize number.toBits.toNat / Nat.pow 2 52 % Nat.pow 2 11 = field at biased
      show (-1074 : Int) ≤ (field : Int) - (1023 + 52)
      omega
    · rw [implicit]
      exact .inr (Nat.le_add_right _ _)

variable {mantissa other : Nat} {exponent otherExponent : Int}

/-- Stored parts are determined by their value. -/
theorem Canonical.unique
    (canonical : Canonical mantissa exponent)
    (otherCanonical : Canonical other otherExponent)
    (same : (mantissa : ℚ) * 2 ^ exponent = other * 2 ^ otherExponent) :
    mantissa = other ∧ exponent = otherExponent := by
  have scale (exponent : Int) : (2 : ℚ) ^ exponent ≠ 0 := zpow_ne_zero exponent two_ne_zero
  -- With a smaller exponent the mantissa would be too long.
  have notLess {mantissa other : Nat} {exponent otherExponent : Int}
      (canonical : Canonical mantissa exponent)
      (otherCanonical : Canonical other otherExponent)
      (same : (mantissa : ℚ) * 2 ^ exponent = other * 2 ^ otherExponent) :
      ¬ exponent < otherExponent := by
    intro less
    obtain ⟨more, rfl⟩ : ∃ more : Nat, otherExponent = exponent + (more + 1 : Nat) :=
      ⟨(otherExponent - exponent - 1).toNat, by omega⟩
    have scaled : (mantissa : ℚ) = (other * 2 ^ (more + 1) : Nat) := by
      rw [zpow_add₀ two_ne_zero, mul_comm ((2 : ℚ) ^ exponent), ← mul_assoc] at same
      rw [mul_right_cancel₀ (scale exponent) same, zpow_natCast]
      push_cast
      rfl
    have isScaled : mantissa = other * 2 ^ (more + 1) := by exact_mod_cast scaled
    have long : Nat.pow 2 52 ≤ other :=
      otherCanonical.full.resolve_left fun least => by have := canonical.least; omega
    have tooLong : Nat.pow 2 52 * 2 ≤ mantissa := by
      rw [isScaled, pow_succ, ← mul_assoc]
      refine Nat.mul_le_mul_right 2 (Nat.le_trans long ?_)
      exact Nat.le_mul_of_pos_right _ (Nat.two_pow_pos _)
    exact absurd canonical.bounded (Nat.not_lt.mpr tooLong)
  have sameExponent : exponent = otherExponent :=
    Int.le_antisymm (Int.not_lt.mp (notLess otherCanonical canonical same.symm))
      (Int.not_lt.mp (notLess canonical otherCanonical same))
  subst sameExponent
  exact ⟨Nat.cast_injective (mul_right_cancel₀ (scale exponent) same), rfl⟩

/-- Signed values of stored parts are equal only if all parts are. -/
theorem Canonical.signed_eq_iff
    (canonical : Canonical mantissa exponent)
    (otherCanonical : Canonical other otherExponent)
    (positive : 0 < mantissa)
    (otherPositive : 0 < other)
    (sign otherSign : Sign) :
    (sign.apply mantissa : ℚ) * 2 ^ exponent = otherSign.apply other * 2 ^ otherExponent ↔
      sign = otherSign ∧ mantissa = other ∧ exponent = otherExponent := by
  constructor
  · intro same
    have above : 0 < (mantissa : ℚ) * 2 ^ exponent := by positivity
    have otherAbove : 0 < (other : ℚ) * 2 ^ otherExponent := by positivity
    cases sign <;> cases otherSign <;>
      simp only [Sign.apply, Int.cast_neg, Int.cast_natCast, neg_mul] at same
    case negative.negative => exact ⟨rfl, canonical.unique otherCanonical (neg_injective same)⟩
    case positive.positive => exact ⟨rfl, canonical.unique otherCanonical same⟩
    all_goals linarith
  · rintro ⟨rfl, rfl, rfl⟩
    rfl

/-- An integer compares as equal to a finite float if it is the value of its parts. -/
theorem compareInteger_eq_iff
    {left significand : Int} {right : Float}
    (signed : (if isNegative right then -((magnitude right).significand : Int)
      else (magnitude right).significand) = significand) :
    compareInteger left right = .eq ↔
      (significand : ℚ) * 2 ^ (magnitude right).exponent = left := by
  simp only [compareInteger, signed]
  generalize (magnitude right).exponent = exponent
  have isPower (power : Nat) : Int.pow 2 power = 2 ^ power := rfl
  split
  · next upward =>
    obtain ⟨power, rfl⟩ := Int.eq_ofNat_of_zero_le upward
    rw [Int.compare_eq_eq, Int.toNat_natCast, isPower, zpow_natCast, eq_comm]
    exact_mod_cast Iff.rfl
  · next downward =>
    obtain ⟨power, rfl⟩ : ∃ power : Nat, exponent = -power := ⟨(-exponent).toNat, by omega⟩
    rw [Int.compare_eq_eq, neg_neg, Int.toNat_natCast, isPower, zpow_neg, zpow_natCast,
      ← div_eq_mul_inv, div_eq_iff (pow_ne_zero _ two_ne_zero), eq_comm]
    exact_mod_cast Iff.rfl

end Floating

/-- The parts of two finite floats are compared by exponent and then by mantissa. -/
theorem compare_parts_eq_iff (leftExponent rightExponent : Int) (leftMantissa rightMantissa : Nat) :
    (compare leftExponent rightExponent).then (compare leftMantissa rightMantissa) = .eq ↔
      leftMantissa = rightMantissa ∧ leftExponent = rightExponent := by
  rw [Ordering.then_eq_eq, Std.compare_eq_iff_eq, Std.compare_eq_iff_eq, and_comm]

/-- Two floats compare as equal if they are numbers and worth the same; the two zeros are. -/
theorem compare_eq_iff_ofParts
    {left right : Float} {first second : UnpackedFloat}
    (isFirst : Floating.Reads left first)
    (isSecond : Floating.Reads right second)
    (occurrence : Nat) :
    first.compare second = some .eq ↔
      first ≠ .notANumber ∧ Amount.ofParts first occurrence = .ofParts second occurrence := by
  -- Floats of unlike kinds or signs do not compare as equal, and neither are they worth the same.
  have apart
      (unordered : (first.compare second == some .eq) = false)
      (different : Amount.ofParts first occurrence ≠ .ofParts second occurrence) :=
    iff_of_false (ne_of_beq_false unordered)
      fun both : first ≠ .notANumber ∧ _ => different both.2
  have nonzero (sign : Sign) {mantissa : Nat} (exponent : Int) (positive : 0 < mantissa) :
      (sign.apply mantissa : ℚ) * 2 ^ exponent ≠ 0 := by
    refine mul_ne_zero ?_ (zpow_ne_zero _ two_ne_zero)
    cases sign <;> simp [Sign.apply, Nat.pos_iff_ne_zero.mp positive]
  cases isFirst with
  | notANumber => exact iff_of_false (ne_of_beq_false rfl) fun both => both.1 rfl
  | infinity leftSign =>
    cases isSecond with
    | infinity rightSign =>
      cases leftSign <;> cases rightSign
      case negative.negative | positive.positive =>
        exact iff_of_true rfl ⟨UnpackedFloat.noConfusion, rfl⟩
      case negative.positive | positive.negative =>
        exact apart rfl fun same => by cases same
    | notANumber | zero | finite => cases leftSign <;> exact apart rfl Amount.noConfusion
  | zero leftSign =>
    cases isSecond with
    | infinity rightSign => cases rightSign <;> exact apart rfl Amount.noConfusion
    | @finite rightSign _ exponent positive =>
      have different := (nonzero rightSign exponent positive).symm
      cases rightSign <;> exact apart rfl fun same => different (Amount.finite.inj same)
    | notANumber => exact apart rfl Amount.noConfusion
    | zero => exact iff_of_true rfl ⟨UnpackedFloat.noConfusion, rfl⟩
  | @finite leftSign leftMantissa leftExponent leftPositive _ _ leftCanonical =>
    cases isSecond with
    | infinity rightSign =>
      cases rightSign <;> cases leftSign <;> exact apart rfl Amount.noConfusion
    | notANumber => cases leftSign <;> exact apart rfl Amount.noConfusion
    | zero =>
      have different := nonzero leftSign leftExponent leftPositive
      cases leftSign <;> exact apart rfl fun same => different (Amount.finite.inj same)
    | @finite rightSign rightMantissa rightExponent rightPositive _ _ rightCanonical =>
      have parts := compare_parts_eq_iff leftExponent rightExponent leftMantissa rightMantissa
      have worth := leftCanonical.signed_eq_iff rightCanonical leftPositive rightPositive
        leftSign rightSign
      refine Iff.trans ?_ (and_iff_right UnpackedFloat.noConfusion).symm
      show _ ↔ Amount.finite _ = .finite _
      rw [Amount.finite.injEq, worth, ← parts]
      cases leftSign <;> cases rightSign
      case negative.positive | positive.negative =>
        exact iff_of_false (ne_of_beq_false rfl) fun both => Sign.noConfusion both.1
      case negative.negative =>
        rw [and_iff_right rfl, ← Ordering.swap_eq_eq]
        exact Option.some_inj
      case positive.positive =>
        rw [and_iff_right rfl]
        exact Option.some_inj

/-- Only what is not a number is worth its occurrence. -/
theorem ofParts_eq_undefined_iff (parts : UnpackedFloat) (occurrence other : Nat) :
    Amount.ofParts parts occurrence = .undefined other ↔
      parts = .notANumber ∧ occurrence = other := by
  cases parts with
  | notANumber =>
    rw [and_iff_right rfl]
    exact .of_eq (Amount.undefined.injEq ..)
  | infinity | zero | finite =>
    exact iff_of_false Amount.noConfusion fun both => UnpackedFloat.noConfusion both.1

theorem isNaN_iff_unpack (number : Float) :
    number.isNaN = true ↔ number.toModel.unpack = .notANumber := by
  show UnpackedFloat.isNaN number.toModel.unpack = true ↔ _
  cases number.toModel.unpack with
  | notANumber => exact iff_of_true rfl rfl
  | infinity | zero | finite => exact iff_of_false Bool.false_ne_true UnpackedFloat.noConfusion

theorem float_beq_iff (left right : Float) :
    (left == right) = true ↔ left.toModel.unpack.compare right.toModel.unpack = some .eq := by
  show (left.toModel.unpack.compare right.toModel.unpack == some .eq) = true ↔ _
  exact beq_iff_eq

/-- Floats are the same if they are worth the same. -/
theorem sameFloat_iff
    (left : Float)
    (leftOccurrence : Nat)
    (right : Float)
    (rightOccurrence : Nat) :
    sameFloat left leftOccurrence right rightOccurrence = true ↔
      Amount.ofFloat left leftOccurrence = Amount.ofFloat right rightOccurrence := by
  have compared := compare_eq_iff_ofParts (Floating.reads_unpack left)
    (Floating.reads_unpack right) 0
  simp only [sameFloat, Bool.or_eq_true, Bool.and_eq_true, beq_iff_eq, isNaN_iff_unpack,
    float_beq_iff, compared, Amount.ofFloat]
  generalize left.toModel.unpack = first
  generalize right.toModel.unpack = second
  cases first with
  | notANumber =>
    show _ ↔ Amount.undefined leftOccurrence = _
    rw [@eq_comm _ (Amount.undefined _), ofParts_eq_undefined_iff]
    simp [@eq_comm _ leftOccurrence]
  | infinity | zero | finite =>
    refine (or_iff_left fun bothNaN => UnpackedFloat.noConfusion bothNaN.1.1).trans
      ((and_iff_right UnpackedFloat.noConfusion).trans ?_)
    cases second with
    | notANumber => exact iff_of_false Amount.noConfusion Amount.noConfusion
    | infinity | zero | finite => exact Iff.rfl

/-- An integer compares as equal to a float if it is what the float is worth. -/
theorem integerOrder?_eq_iff (left : Int) (right : Float) (occurrence : Nat) :
    Floating.integerOrder? left right = some .eq ↔
      Amount.ofFloat right occurrence = .finite left := by
  have isNaN : right.isNaN = right.toModel.unpack.isNaN := rfl
  have isInf : right.isInf = right.toModel.unpack.isInf := rfl
  have reads := Floating.reads_unpack right
  rw [Floating.integerOrder?, Amount.ofFloat, isNaN, isInf]
  generalize right.toModel.unpack = parts at reads ⊢
  cases reads with
  | notANumber => exact iff_of_false (Option.some_ne_none _).symm Amount.noConfusion
  | infinity sign =>
    refine iff_of_false ?_ Amount.noConfusion
    show some (if Floating.isNegative right then Ordering.gt else .lt) ≠ _
    cases Floating.isNegative right <;> decide
  | zero sign isZero =>
    have compared := @Floating.compareInteger_eq_iff left 0 right (by simp [isZero])
    show some (Floating.compareInteger left right) = _ ↔ Amount.finite 0 = _
    simp [compared]
  | @finite sign mantissa exponent positive isMagnitude negative =>
    have compared := @Floating.compareInteger_eq_iff left (sign.apply mantissa) right (by
      rw [isMagnitude]
      cases sign <;> simp_all [Sign.apply])
    show some (Floating.compareInteger left right) = _ ↔
      Amount.finite (sign.apply mantissa * 2 ^ exponent) = _
    rw [Option.some_inj, compared, isMagnitude, Amount.finite.injEq]

/-- Two floats are ordered as equal if they are equal. -/
theorem floatOrder?_eq_iff (left right : Float) :
    Floating.order? left right = some .eq ↔ (left == right) = true := by
  have equal := float_beq_iff left right
  have less : left < right ↔ left.toModel.unpack.compare right.toModel.unpack = some .lt := by
    show decide ((left.toModel.unpack.compare right.toModel.unpack == some .lt) = true) = true ↔ _
    rw [decide_eq_true_iff, beq_iff_eq]
  unfold Floating.order?
  split
  · next isLess => simp [equal, less.mp isLess]
  split
  · next isEqual => simp [isEqual]
  split <;> simp_all

/-- There is only one float that is not a number. -/
theorem eq_of_isNaN
    {left right : Float}
    (leftNaN : left.isNaN = true)
    (rightNaN : right.isNaN = true) :
    left = right := by
  have packed (number : Float) (isNaN : number.isNaN = true) :
      number.toBits.toBitVec = UnpackedFloat.packedNaN Format.binary64 := by
    have reads := Floating.reads_unpack number
    rw [(isNaN_iff_unpack number).mp isNaN] at reads
    cases reads with
    | notANumber packed => exact packed
  obtain ⟨⟨leftBits, _⟩⟩ := left
  obtain ⟨⟨rightBits, _⟩⟩ := right
  have same : leftBits = rightBits :=
    UInt64.toBitVec_inj.mp ((packed _ leftNaN).trans (packed _ rightNaN).symm)
  subst same
  rfl

/-- Numbers are one key if they are worth the same. -/
theorem Plain.sameNumber_iff
    {left right : Value}
    (leftNumeric : left.kind.isNumeric = true)
    (rightNumeric : right.kind.isNumeric = true) :
    sameNumber left right = true ↔ left.amount? = right.amount? := by
  have asOrder : sameNumber left right = true ↔
      left = right ∨ left.order? right = some (some .eq) := by
    simp [sameNumber]
  rw [asOrder]
  cases left with
  | int left =>
    cases right with
    | int right => simp [Value.order?, Value.amount?]
    | float right occurrence =>
      simp [Value.order?, Value.amount?, integerOrder?_eq_iff left right occurrence,
        @eq_comm _ (Amount.ofFloat right occurrence)]
    | collection reference => cases reference <;> cases rightNumeric
    | _ => cases rightNumeric
  | float left occurrence =>
    cases right with
    | int right =>
      simp [Value.order?, Value.amount?, ← integerOrder?_eq_iff right left occurrence]
    | float right occurrence' =>
      simp only [Value.order?, Value.amount?, Option.some.injEq, floatOrder?_eq_iff,
        ← sameFloat_iff]
      constructor
      · rintro (same | equal)
        · cases same
          exact (sameFloat_iff ..).mpr rfl
        · exact Bool.or_eq_true_iff.mpr (.inl equal)
      · intro same
        refine (Bool.or_eq_true_iff.mp same).symm.imp (fun bothNaN => ?_) id
        simp only [Bool.and_eq_true, beq_iff_eq] at bothNaN
        obtain ⟨⟨leftNaN, rightNaN⟩, rfl⟩ := bothNaN
        rw [eq_of_isNaN leftNaN rightNaN]
    | collection reference => cases reference <;> cases rightNumeric
    | _ => cases rightNumeric
  | collection reference => cases reference <;> cases leftNumeric
  | _ => cases leftNumeric

end Offside
