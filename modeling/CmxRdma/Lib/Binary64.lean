import Mathlib.Algebra.Order.Floor.Semifield
import Mathlib.Algebra.Order.Field.Rat
import Mathlib.Data.Nat.Log
import Mathlib.Data.Rat.Floor
import Mathlib.Tactic.Linarith
import Mathlib.Tactic.NormNum
import Mathlib.Tactic.Ring

/-!
Contract: the non-negative binary64 numbers, as the magnitudes of their bits.

Owns: the value of a magnitude in units of the least positive number, rounding of a
rational to the nearest magnitude with ties to even, that rounding is monotone, and
that it is exact on what can be represented.

Does not own: signs, infinities and NaN.
-/

namespace CmxRdma.Lib.Binary64

/-- Bits of the fraction field. -/
def fractionBits : Nat := 52

/-! ## Nearest integers -/

/-- The nearest natural number to a non-negative rational, ties to even. -/
def roundEven (number : ℚ) : Nat :=
  let below := ⌊number⌋₊
  if number - below < 1 / 2 then below
  else if 1 / 2 < number - below then below + 1
  else below + below % 2

@[simp] theorem roundEven_natCast (number : Nat) : roundEven number = number := by
  simp [roundEven]

theorem roundEven_le (number : ℚ) : roundEven number ≤ ⌊number⌋₊ + 1 := by
  unfold roundEven
  dsimp only
  split_ifs <;> omega

theorem floor_le_roundEven (number : ℚ) : ⌊number⌋₊ ≤ roundEven number := by
  unfold roundEven
  dsimp only
  split_ifs <;> omega

theorem roundEven_mono {less more : ℚ} (le : less ≤ more) : roundEven less ≤ roundEven more := by
  rcases (Nat.floor_mono le).lt_or_eq with lower | same
  · exact (roundEven_le less).trans ((Nat.succ_le_of_lt lower).trans (floor_le_roundEven more))
  · -- within one unit the larger fraction rounds up at least as often
    unfold roundEven
    rw [same]
    dsimp only
    split_ifs <;> first | omega | linarith

/-! ## Magnitudes -/

/-- The power of two by which a number has to be scaled down to fit the fraction. -/
def scale (number : ℚ) : Nat := Nat.log2 ⌊number⌋₊ - fractionBits

/-- The magnitude nearest to a number given in units of the least positive one. A
fraction that is rounded up to the next power of two carries into the exponent. -/
def encode (number : ℚ) : Nat :=
  scale number * 2 ^ fractionBits + roundEven (number / 2 ^ scale number)

/-- The value of a magnitude in units of the least positive one. -/
def units (magnitude : Nat) : Nat :=
  if magnitude < 2 ^ fractionBits then magnitude
  else (2 ^ fractionBits + magnitude % 2 ^ fractionBits) *
    2 ^ (magnitude / 2 ^ fractionBits - 1)

theorem scale_mono {less more : ℚ} (le : less ≤ more) : scale less ≤ scale more := by
  have floors := Nat.floor_mono le
  rw [scale, scale, Nat.log2_eq_log_two, Nat.log2_eq_log_two]
  exact Nat.sub_le_sub_right (Nat.log_mono_right floors) _

/-- A scaled number fits behind the leading bit of the fraction. -/
theorem roundEven_scaled_le {number : ℚ} (nonneg : 0 ≤ number) :
    roundEven (number / 2 ^ scale number) ≤ 2 ^ (fractionBits + 1) := by
  have fits : ⌊number⌋₊ < 2 ^ (scale number + (fractionBits + 1)) :=
    lt_of_lt_of_le Nat.lt_log2_self (Nat.pow_le_pow_right Nat.two_pos (by unfold scale; omega))
  have scaled : number / 2 ^ scale number < ((2 ^ (fractionBits + 1) : Nat) : ℚ) := by
    rw [div_lt_iff₀ (by positivity)]
    calc number < ((2 ^ (scale number + (fractionBits + 1)) : Nat) : ℚ) :=
          (Nat.floor_lt nonneg).mp fits
      _ = ((2 ^ (fractionBits + 1) : Nat) : ℚ) * 2 ^ scale number := by
          rw [pow_add, Nat.mul_comm, Nat.cast_mul, Nat.cast_pow 2 (scale number), Nat.cast_two]
  have below := (Nat.floor_lt (by positivity)).mpr scaled
  exact (roundEven_le _).trans below

/-- A number that had to be scaled has the leading bit of the fraction. -/
theorem le_roundEven_scaled {number : ℚ} (scaled : 0 < scale number) :
    2 ^ fractionBits ≤ roundEven (number / 2 ^ scale number) := by
  have large : 2 ^ (fractionBits + scale number) ≤ ⌊number⌋₊ := by
    have positive : ⌊number⌋₊ ≠ 0 := by
      intro zero
      rw [scale, zero] at scaled
      exact absurd scaled (by decide)
    refine (Nat.le_log2 positive).mp ?_
    unfold scale at scaled ⊢
    omega
  have reached : ((2 ^ fractionBits : Nat) : ℚ) ≤ number / 2 ^ scale number := by
    rw [le_div_iff₀ (by positivity)]
    calc ((2 ^ fractionBits : Nat) : ℚ) * 2 ^ scale number
        = ((2 ^ (fractionBits + scale number) : Nat) : ℚ) := by
          rw [pow_add, Nat.cast_mul, Nat.cast_pow 2 (scale number), Nat.cast_two]
      _ ≤ number := (Nat.le_floor_iff' (by positivity)).mp large
  exact (Nat.le_floor reached).trans (floor_le_roundEven _)

/-- Rounding is monotone. -/
theorem encode_mono {less more : ℚ} (nonneg : 0 ≤ less) (le : less ≤ more) :
    encode less ≤ encode more := by
  rcases (scale_mono le).lt_or_eq with lower | same
  · -- the carry of the smaller number at most reaches the leading bit of the larger
    have carry := roundEven_scaled_le nonneg
    have leading := le_roundEven_scaled (Nat.zero_lt_of_lt lower)
    have step : (scale less + 1) * 2 ^ fractionBits ≤ scale more * 2 ^ fractionBits :=
      Nat.mul_le_mul_right _ lower
    rw [pow_succ] at carry
    rw [Nat.succ_mul] at step
    unfold encode
    omega
  · unfold encode
    rw [same]
    exact Nat.add_le_add_left (roundEven_mono (by gcongr)) _

/-- A whole number that fits the fraction after division by the scale is kept. -/
theorem encode_of_scale {fraction exponent : Nat}
    (scaled : scale ((fraction * 2 ^ exponent : Nat) : ℚ) = exponent) :
    encode ((fraction * 2 ^ exponent : Nat) : ℚ) = exponent * 2 ^ fractionBits + fraction := by
  have quotient : ((fraction * 2 ^ exponent : Nat) : ℚ) / 2 ^ exponent = fraction := by
    rw [Nat.cast_mul, Nat.cast_pow, Nat.cast_two, mul_div_cancel_right₀ _ (by positivity)]
  rw [encode, scaled, quotient, roundEven_natCast]

/-- What can be represented is not changed by rounding. -/
theorem encode_units (magnitude : Nat) : encode (units magnitude : Nat) = magnitude := by
  unfold units
  split_ifs with subnormal
  · have unscaled : scale ((magnitude * 2 ^ 0 : Nat) : ℚ) = 0 := by
      rw [pow_zero, Nat.mul_one, scale, Nat.floor_natCast]
      rcases Nat.eq_zero_or_pos magnitude with rfl | positive
      · rfl
      · have small := (Nat.log2_lt positive.ne').mpr subnormal
        omega
    simpa using encode_of_scale unscaled
  · have leading : 0 < magnitude / 2 ^ fractionBits :=
      Nat.div_pos (not_lt.mp subnormal) (by positivity)
    have fractionLt := Nat.mod_lt magnitude (show 0 < 2 ^ fractionBits by positivity)
    have whole := Nat.div_add_mod magnitude (2 ^ fractionBits)
    generalize magnitude % 2 ^ fractionBits = fraction at *
    generalize magnitude / 2 ^ fractionBits = exponent at *
    have scaled : scale (((2 ^ fractionBits + fraction) * 2 ^ (exponent - 1) : Nat) : ℚ) =
        exponent - 1 := by
      rw [scale, Nat.floor_natCast]
      have log : ((2 ^ fractionBits + fraction) * 2 ^ (exponent - 1)).log2 =
          fractionBits + (exponent - 1) := by
        rw [Nat.log2_eq_iff (by positivity), Nat.add_right_comm, pow_add, pow_add, pow_succ]
        exact ⟨Nat.mul_le_mul_right _ (Nat.le_add_right _ _),
          Nat.mul_lt_mul_of_pos_right (by omega) (by positivity)⟩
      omega
    rw [encode_of_scale scaled]
    obtain ⟨previous, rfl⟩ := Nat.exists_eq_succ_of_ne_zero leading.ne'
    rw [← whole, Nat.succ_sub_one, Nat.mul_succ, Nat.mul_comm previous]
    omega

theorem units_strictMono : StrictMono units := by
  intro less more lower
  by_contra notLower
  have rounded := encode_mono (Nat.cast_nonneg _) (Nat.cast_le (α := ℚ).mpr (not_lt.mp notLower))
  rw [encode_units, encode_units] at rounded
  omega

/-- A magnitude that a number reaches is at most the one it is rounded to. -/
theorem le_encode {number : ℚ} {magnitude : Nat} (reached : (units magnitude : ℚ) ≤ number) :
    magnitude ≤ encode number := by
  rw [← encode_units magnitude]
  exact encode_mono (Nat.cast_nonneg _) reached

/-- A number rounded to a magnitude or above it is above the magnitude before. -/
theorem lt_of_le_encode {number : ℚ} (nonneg : 0 ≤ number) {magnitude : Nat}
    (rounded : magnitude + 1 ≤ encode number) : (units magnitude : ℚ) < number := by
  by_contra below
  have lower := encode_mono nonneg (not_lt.mp below)
  rw [encode_units] at lower
  omega

/-! ## Values of rounded numbers -/

/-- The value of a fraction and an exponent, in the form rounding gives them. -/
theorem units_parts {fraction exponent : Nat} (fits : fraction ≤ 2 ^ (fractionBits + 1))
    (normal : exponent = 0 ∨ 2 ^ fractionBits ≤ fraction) :
    units (exponent * 2 ^ fractionBits + fraction) = fraction * 2 ^ exponent := by
  have one : 0 < 2 ^ fractionBits := by positivity
  rw [pow_succ] at fits
  unfold units
  split_ifs with subnormal
  · have unscaled : exponent = 0 := by
      by_contra scaled
      have atLeast := Nat.mul_le_mul_right (2 ^ fractionBits) (Nat.pos_of_ne_zero scaled)
      omega
    rw [unscaled, Nat.zero_mul, Nat.zero_add, pow_zero, Nat.mul_one]
  · have leading : 2 ^ fractionBits ≤ fraction := by
      rcases normal with rfl | leading
      · simpa using subnormal
      · exact leading
    obtain ⟨rest, rfl⟩ := Nat.exists_eq_add_of_le leading
    rcases (show rest ≤ 2 ^ fractionBits by omega).lt_or_eq with inside | carried
    · have shape : exponent * 2 ^ fractionBits + (2 ^ fractionBits + rest) =
          2 ^ fractionBits * (exponent + 1) + rest := by ring
      rw [shape, Nat.mul_add_mod, Nat.mod_eq_of_lt inside, Nat.mul_add_div one,
        Nat.div_eq_of_lt inside, Nat.add_zero, Nat.add_sub_cancel]
    · have shape : exponent * 2 ^ fractionBits + (2 ^ fractionBits + rest) =
          2 ^ fractionBits * (exponent + 2) := by
        rw [carried]
        ring
      rw [shape, Nat.mul_mod_right, Nat.mul_div_cancel_left _ one, carried]
      show (2 ^ fractionBits + 0) * 2 ^ (exponent + 1) = _
      ring

theorem units_encode {number : ℚ} (nonneg : 0 ≤ number) :
    units (encode number) = roundEven (number / 2 ^ scale number) * 2 ^ scale number :=
  units_parts (roundEven_scaled_le nonneg)
    ((Nat.eq_zero_or_pos _).imp_right le_roundEven_scaled)

/-- A number below `2 ^ 53`, scaled up by any power of two, is represented exactly. -/
theorem units_encode_whole {whole : Nat} (fits : whole < 2 ^ (fractionBits + 1))
    (exponent : Nat) :
    units (encode ((whole * 2 ^ exponent : Nat) : ℚ)) = whole * 2 ^ exponent := by
  have small : scale ((whole * 2 ^ exponent : Nat) : ℚ) ≤ exponent := by
    rw [scale, Nat.floor_natCast]
    rcases Nat.eq_zero_or_pos whole with rfl | positive
    · simp
    · have below : whole * 2 ^ exponent < 2 ^ (fractionBits + 1 + exponent) := by
        rw [pow_add]
        exact Nat.mul_lt_mul_of_pos_right fits (by positivity)
      have log := (Nat.log2_lt (by positivity)).mpr below
      omega
  generalize scaleEq : scale ((whole * 2 ^ exponent : Nat) : ℚ) = used at small
  obtain ⟨rest, rfl⟩ := Nat.exists_eq_add_of_le small
  have quotient : ((whole * 2 ^ (used + rest) : Nat) : ℚ) / 2 ^ used =
      ((whole * 2 ^ rest : Nat) : ℚ) := by
    rw [div_eq_iff (by positivity), pow_add]
    push_cast
    ring
  rw [units_encode (Nat.cast_nonneg _), scaleEq, quotient, roundEven_natCast, pow_add]
  ring

end CmxRdma.Lib.Binary64
