import Mathlib.Data.Rat.Floor
import Mathlib.Tactic.Linarith
import Offside.Proofs.Tokens.Scanned
import Offside.Run.Operator

namespace Offside

/-!
# Integer arithmetic is exact

An operator on two integers gives the number that it stands for among all integers, if there
is one and it is in range, and fails otherwise.  Sums, differences, products, quotients and
remainders are computed first and compared with the range then.  A power is computed by
repeated squaring, and every product and every square on the way is compared: a square is
taken only where the power is a multiple of it, so none of them leaves the range unless the
power does.
-/

/-! ## Quotients -/

variable {operator : Mark}

/-- The integer next to a number on the side of zero. -/
def towardZero (number : ℚ) : ℤ :=
  if 0 ≤ number then ⌊number⌋ else ⌈number⌉

@[simp] theorem towardZero_neg (number : ℚ) : towardZero (-number) = -towardZero number := by
  unfold towardZero
  rcases lt_trichotomy number 0 with negative | rfl | positive
  · rw [if_pos (by linarith), if_neg (by linarith), Int.floor_neg]
  · simp
  · rw [if_neg (by linarith), if_pos positive.le, Int.ceil_neg]

/-- Integers are divided toward zero. -/
theorem towardZero_div (left right : Int) :
    towardZero (left / right) = left.tdiv right := by
  have natural (dividend divisor : Nat) :
      towardZero (dividend / divisor) = (dividend : Int).tdiv divisor := by
    unfold towardZero
    rw [if_pos (by positivity), Rat.floor_natCast_div_natCast,
      Int.tdiv_eq_ediv_of_nonneg (Int.natCast_nonneg dividend)]
  -- A sign of the dividend or of the divisor is a sign of the quotient on both sides.
  obtain ⟨dividend, rfl | rfl⟩ := left.eq_nat_or_neg <;>
    obtain ⟨divisor, rfl | rfl⟩ := right.eq_nat_or_neg <;>
    simp [neg_div, div_neg, natural]

namespace Integer

/-! ## Powers -/

variable {result number base left right : Int} {exponent : Nat}

/-- A result passes the check exactly if it is in range. -/
theorem checked_eq_ok_iff {result value : Int} :
    checked result = .ok value ↔ value = result ∧ Scan.InRange result := by
  unfold checked Scan.InRange
  split <;> grind

theorem checked_of_inRange (inRange : Scan.InRange result) : checked result = .ok result :=
  checked_eq_ok_iff.mpr ⟨rfl, inRange⟩

theorem checked_of_not_inRange (outside : ¬ Scan.InRange result) :
    checked result = .error .integerOverflow :=
  if_neg outside

theorem inRange_of_checked {value : Int} (passed : checked result = .ok value) :
    Scan.InRange value := by
  obtain ⟨rfl, inRange⟩ := checked_eq_ok_iff.mp passed
  exact inRange

theorem inRange_zero : Scan.InRange 0 :=
  ⟨by decide, by decide⟩

/-- A factor of a number in range is in range if the other one is positive. -/
theorem inRange_of_mul
    {factor : Int}
    (positive : 0 < factor)
    (inRange : Scan.InRange (number * factor)) :
    Scan.InRange number := by
  unfold Scan.InRange Scan.leastInteger Scan.greatestInteger at inRange ⊢
  constructor <;> nlinarith

/-- A square that is out of range is greater than every power of two in reach of the range:
the least integer is minus a power of two that is no square. -/
theorem square_of_not_inRange (outside : ¬ Scan.InRange (base * base)) :
    -Scan.leastInteger < base * base := by
  have nonneg : 0 ≤ base * base := mul_self_nonneg base
  have notSquare : base * base ≠ -Scan.leastInteger := by
    intro same
    rw [← Int.natAbs_mul_self] at same
    unfold Scan.leastInteger at same
    rcases Nat.lt_or_ge base.natAbs 3037000500 with small | large
    · have bounded := Nat.mul_self_le_mul_self (Nat.le_of_lt_succ small)
      omega
    · have bounded := Nat.mul_self_le_mul_self large
      omega
  unfold Scan.InRange Scan.leastInteger Scan.greatestInteger at outside
  unfold Scan.leastInteger at notSquare ⊢
  omega

/-- No multiple of a power of a square that is out of range is in range. -/
theorem not_inRange_of_square
    (nonzero : number ≠ 0)
    (taken : exponent ≠ 0)
    (outside : ¬ Scan.InRange (base * base)) :
    ¬ Scan.InRange (number * (base * base) ^ exponent) := by
  have large := square_of_not_inRange outside
  have grows : base * base ≤ (base * base) ^ exponent := by
    refine le_self_pow₀ ?_ taken
    unfold Scan.leastInteger at large
    omega
  unfold Scan.leastInteger at large
  rintro ⟨least, greatest⟩
  unfold Scan.leastInteger at least
  unfold Scan.greatestInteger at greatest
  rcases lt_or_gt_of_ne nonzero with negative | positive
  · nlinarith
  · nlinarith

/-- No multiple of a product that is out of range by a power of a square of its factor is in
range. -/
theorem not_inRange_of_product (outside : ¬ Scan.InRange (number * base)) (exponent : Nat) :
    ¬ Scan.InRange (number * base * (base * base) ^ exponent) := by
  have nonzero : base ≠ 0 := by
    rintro rfl
    rw [mul_zero] at outside
    exact outside inRange_zero
  have positive : 0 < (base * base) ^ exponent := pow_pos (mul_self_pos.mpr nonzero) _
  exact mt (inRange_of_mul positive) outside

/-- Halving the exponent squares the base; an odd exponent leaves one factor over. -/
theorem mul_pow_halved (result base : Int) (exponent : Nat) :
    (if exponent % 2 = 1 then result * base else result) * (base * base) ^ (exponent / 2) =
      result * base ^ exponent := by
  have halved : base ^ exponent = (base * base) ^ (exponent / 2) * base ^ (exponent % 2) := by
    rw [← sq, ← pow_mul, ← pow_add, Nat.div_add_mod]
  rw [halved]
  rcases Nat.mod_two_eq_zero_or_one exponent with even | odd
  · rw [if_neg (by omega), even]
    ring
  · rw [if_pos odd, odd]
    ring

/-- One round of repeated squaring. -/
theorem powerFrom_succ (unfinished : exponent ≠ 0) (steps : Nat) (result base : Int) :
    powerFrom (steps + 1) result base exponent =
      (if exponent % 2 = 1 then checked (result * base) else .ok result) >>= fun product =>
        if exponent / 2 = 0 then .ok product
        else checked (base * base) >>= fun square =>
          powerFrom steps product square (exponent / 2) := by
  rw [powerFrom, if_neg unfinished]
  split <;> rfl

/-- Repeated squaring gives the power, if it is in range, and fails otherwise.  The result so
far is zero only if the base is, so a square is never taken in vain. -/
theorem powerFrom_eq_checked
    {steps : Nat}
    (short : exponent < 2 ^ steps)
    (inRange : Scan.InRange result)
    (zero : result = 0 → base = 0) :
    powerFrom steps result base exponent = checked (result * base ^ exponent) := by
  induction steps generalizing result base exponent with
  | zero =>
    obtain rfl : exponent = 0 := by omega
    rw [pow_zero, mul_one, checked_of_inRange inRange, powerFrom]
  | succ steps hypothesis =>
    by_cases finished : exponent = 0
    · rw [finished, pow_zero, mul_one, checked_of_inRange inRange, powerFrom, if_pos rfl]
      rfl
    have squared {product : Int} (inRange : Scan.InRange product)
        (zero : product = 0 → base = 0) :
        (if exponent / 2 = 0 then .ok product
          else checked (base * base) >>= fun square =>
            powerFrom steps product square (exponent / 2)) =
          checked (product * (base * base) ^ (exponent / 2)) := by
      by_cases last : exponent / 2 = 0
      · rw [if_pos last, last, pow_zero, mul_one, checked_of_inRange inRange]
      rw [if_neg last]
      by_cases fits : Scan.InRange (base * base)
      · rw [checked_of_inRange fits]
        refine hypothesis (by omega) inRange fun none => ?_
        rw [zero none, mul_zero]
      · have nonzero : product ≠ 0 := by
          intro none
          rw [zero none, mul_zero] at fits
          exact fits inRange_zero
        rw [checked_of_not_inRange fits,
          checked_of_not_inRange (not_inRange_of_square nonzero last fits)]
        rfl
    rw [powerFrom_succ finished, ← mul_pow_halved]
    split
    · by_cases fits : Scan.InRange (result * base)
      · rw [checked_of_inRange fits]
        refine squared fits fun none => ?_
        rcases mul_eq_zero.mp none with isResult | isBase
        · exact zero isResult
        · exact isBase
      · rw [checked_of_not_inRange fits, checked_of_not_inRange (not_inRange_of_product fits _)]
        rfl
    · exact squared inRange zero

/-- Once the exponent can be halved away, more rounds change nothing. -/
theorem powerFrom_one {steps : Nat} (enough : exponent.log2 < steps) (base : Int) :
    powerFrom steps 1 base exponent = checked (base ^ exponent) := by
  have short : exponent < 2 ^ steps := by
    by_cases none : exponent = 0
    · rw [none]
      exact Nat.two_pow_pos steps
    · exact (Nat.log2_lt none).mp enough
  have start : (1 : Int) = 0 → base = 0 := fun none => absurd none one_ne_zero
  rw [powerFrom_eq_checked short ⟨by decide, by decide⟩ start, one_mul]

theorem power_ofNat (base : Int) (exponent : Nat) :
    power base exponent = checked (base ^ exponent) :=
  powerFrom_one (Nat.lt_succ_self _) base

/-! ## Operators -/

/-- What an operator stands for among all integers. -/
inductive Exact : (operator : Mark) → (left right result : Int) → Prop where
  | sum (left right : Int) : Exact .plus left right (left + right)
  | difference (left right : Int) : Exact .minus left right (left - right)
  | product (left right : Int) : Exact .star left right (left * right)
  | quotient
      (left : Int) {right : Int} :
      right ≠ 0 →
      Exact .slash left right (towardZero (left / right))
  | remainder
      (left : Int) {right : Int} :
      right ≠ 0 →
      Exact .percent left right (left - right * towardZero (left / right))
  | power (base : Int) (exponent : Nat) : Exact .caret base exponent (base ^ exponent)

/-- The operators that combine two integers to a third one. -/
def operators : List Mark :=
  [.plus, .minus, .star, .slash, .percent, .caret]

/-- What an operator stands for is computed and compared with the range. -/
theorem Exact.apply_eq (exact : Exact operator left right result) :
    apply (.mark operator) left right = checked result := by
  cases exact with
  | sum | difference | product => rfl
  | quotient _ nonzero => rw [towardZero_div, apply, if_neg nonzero]
  | remainder _ nonzero => rw [towardZero_div, ← Int.tmod_def, apply, if_neg nonzero]
  | power => exact power_ofNat _ _

/-- An operator that stands for nothing fails with the code of the arithmetic. -/
theorem apply_of_not_exact
    (arithmetic : operator ∈ operators)
    (senseless : ∀ result, ¬ Exact operator left right result) :
    ∃ cause, apply (.mark operator) left right = .error cause ∧ cause.code = "E408" := by
  simp only [operators, List.mem_cons, List.not_mem_nil, or_false] at arithmetic
  rcases arithmetic with rfl | rfl | rfl | rfl | rfl | rfl
  · exact absurd (.sum left right) (senseless _)
  · exact absurd (.difference left right) (senseless _)
  · exact absurd (.product left right) (senseless _)
  · by_cases zero : right = 0
    · exact ⟨.divisionByZero, if_pos zero, rfl⟩
    · exact absurd (.quotient left zero) (senseless _)
  · by_cases zero : right = 0
    · exact ⟨.divisionByZero, if_pos zero, rfl⟩
    · exact absurd (.remainder left zero) (senseless _)
  · cases right with
    | ofNat exponent => exact absurd (.power left exponent) (senseless _)
    | negSucc => exact ⟨.negativeExponent, rfl, rfl⟩

/-- An operator gives a number exactly if it stands for it and the number is in range. -/
theorem apply_eq_ok_iff (arithmetic : operator ∈ operators) :
    apply (.mark operator) left right = .ok result ↔
      Exact operator left right result ∧ Scan.InRange result := by
  constructor
  · intro applied
    by_cases sense : ∃ value, Exact operator left right value
    · obtain ⟨value, exact⟩ := sense
      rw [exact.apply_eq] at applied
      obtain ⟨rfl, inRange⟩ := checked_eq_ok_iff.mp applied
      exact ⟨exact, inRange⟩
    · obtain ⟨cause, failed, _⟩ := apply_of_not_exact arithmetic (not_exists.mp sense)
      rw [failed] at applied
      cases applied
  · rintro ⟨exact, inRange⟩
    rw [exact.apply_eq, checked_of_inRange inRange]

/-- Whatever is not given as a number is refused with the code of the arithmetic. -/
theorem code_of_apply_error
    {cause : RuntimeCause}
    (arithmetic : operator ∈ operators)
    (failed : apply (.mark operator) left right = .error cause) :
    cause.code = "E408" := by
  by_cases sense : ∃ value, Exact operator left right value
  · obtain ⟨value, exact⟩ := sense
    rw [exact.apply_eq] at failed
    unfold checked at failed
    split at failed <;> cases failed
    rfl
  · obtain ⟨other, refused, code⟩ := apply_of_not_exact arithmetic (not_exists.mp sense)
    cases refused.symm.trans failed
    exact code

end Integer

/-- Two integers are combined by the arithmetic of integers. -/
theorem Operator.apply_integers
    (arithmetic : operator ∈ Integer.operators)
    (span : Span)
    (left right : Int)
    (machine : Machine) :
    apply (.mark operator) span (.int left) (.int right) machine =
      (match Integer.apply (.mark operator) left right with
      | .ok result => .ok (.int result) machine
      | .error cause => .error (.fault (.located (.runtime cause) span)) machine) := by
  have combined : apply (.mark operator) span (.int left) (.int right) = (do
      return .int (← Action.check (some span) (Integer.apply (.mark operator) left right))) := by
    simp only [Integer.operators, List.mem_cons, List.not_mem_nil, or_false] at arithmetic
    rcases arithmetic with rfl | rfl | rfl | rfl | rfl | rfl <;> rfl
  rw [combined]
  cases Integer.apply (.mark operator) left right <;> rfl

/-- Integer arithmetic is exact or fails.  An operator on two integers gives a number exactly
if it stands for this number among all integers and the number is in range; it stands for
nothing where a divisor is zero or an exponent is negative.  Otherwise it fails at its place
with the code of the arithmetic, and in neither case the machine changes.  Repeated squaring
ends when the exponent is halved away, for any number of further rounds, and no product or
square on its way is refused unless the power itself is. -/
theorem integer_arithmetic_is_exact
    {operator : Mark}
    (arithmetic : operator ∈ Integer.operators)
    (left right : Int)
    (span : Span)
    (machine : Machine) :
    (∀ result,
      Operator.apply (.mark operator) span (.int left) (.int right) machine =
          .ok (.int result) machine ↔
        Integer.Exact operator left right result ∧ Scan.InRange result) ∧
      ((∀ result, Integer.Exact operator left right result → ¬ Scan.InRange result) →
        ∃ cause, cause.code = "E408" ∧
          Operator.apply (.mark operator) span (.int left) (.int right) machine =
            .error (.fault (.located (.runtime cause) span)) machine) ∧
      ∀ base exponent steps, exponent.log2 < steps →
        Integer.powerFrom steps 1 base exponent = Integer.checked (base ^ exponent) := by
  rw [Operator.apply_integers arithmetic]
  refine ⟨fun result => ?_, fun outside => ?_, fun base exponent steps enough =>
    Integer.powerFrom_one enough base⟩
  · rw [← Integer.apply_eq_ok_iff arithmetic]
    cases Integer.apply (.mark operator) left right <;> simp
  · cases applied : Integer.apply (.mark operator) left right with
    | ok result =>
      obtain ⟨exact, inRange⟩ := (Integer.apply_eq_ok_iff arithmetic).mp applied
      exact absurd inRange (outside result exact)
    | error cause => exact ⟨cause, Integer.code_of_apply_error arithmetic applied, rfl⟩

/-- The least integer is a power of minus two, and its quotient by minus one is refused. -/
theorem integer_arithmetic_is_exact_leastInteger :
    let span : Span := ⟨none, .origin, .origin⟩
    let machine : Machine := ⟨Store.initial, 0⟩
    (Mark.caret ∈ Integer.operators ∧
        Operator.apply (.mark .caret) span (.int (-2)) (.int 63) machine =
          .ok (.int Scan.leastInteger) machine) ∧
      Mark.slash ∈ Integer.operators ∧
        ∃ cause, cause.code = "E408" ∧
          Operator.apply (.mark .slash) span (.int Scan.leastInteger) (.int (-1)) machine =
            .error (.fault (.located (.runtime cause) span)) machine := by
  intro span machine
  have raises : Mark.caret ∈ Integer.operators := by decide
  have divides : Mark.slash ∈ Integer.operators := by decide
  obtain ⟨power, _⟩ := integer_arithmetic_is_exact raises (-2) 63 span machine
  obtain ⟨_, quotient, _⟩ :=
    integer_arithmetic_is_exact divides Scan.leastInteger (-1) span machine
  refine ⟨⟨raises, (power _).mpr ⟨.power (-2) 63, by decide, by decide⟩⟩, divides, ?_⟩
  refine quotient fun result exact inRange => ?_
  cases exact with
  | quotient =>
    rw [towardZero_div] at inRange
    exact absurd inRange.2 (by decide)

end Offside
