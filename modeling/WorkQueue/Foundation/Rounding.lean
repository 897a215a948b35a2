import Mathlib.Data.Int.Log
import Mathlib.Data.Rat.Floor
import Mathlib.Tactic.FieldSimp
import Mathlib.Tactic.Linarith
import Mathlib.Tactic.Positivity
import Mathlib.Tactic.Ring

/-! # Rounding to significant digits

Rounding a rational to a fixed number of significant digits in a base, to the
nearest multiple of the last digit's unit and to the even one on ties. Binary
floating-point formats, whose unit does not shrink below a least exponent, and
decimal output with a fixed precision both round this way. A number that the
digits can write is a fixed point (`Rounding.significant_eq_self`), rounding
twice is rounding once (`Rounding.significant_significant`), and rounding does not
cross a number that the digits can write (`Rounding.abs_significant_le`) or a power of
the base (`Rounding.le_abs_significant`).
-/

namespace Rounding

/-- The nearest integer, the even one when two are equally near. -/
def roundEven (value : ℚ) : ℤ :=
  let low := ⌊value⌋
  if value - low < 1 / 2 then low
  else if 1 / 2 < value - low then low + 1
  else if low % 2 = 0 then low
  else low + 1

theorem roundEven_intCast (value : ℤ) : roundEven value = value := by
  simp only [roundEven, Int.floor_intCast, sub_self, one_div, inv_pos, Nat.ofNat_pos, ↓reduceIte]

/-- Rounding stays between the two neighbouring integers. -/
theorem roundEven_mem (value : ℚ) :
    roundEven value = ⌊value⌋ ∨ (roundEven value = ⌊value⌋ + 1 ∧ (⌊value⌋ : ℚ) < value) := by
  unfold roundEven
  by_cases near : value - ⌊value⌋ < 1 / 2
  · exact .inl (by simp only [near, ↓reduceIte])
  · have above : (⌊value⌋ : ℚ) < value := by linarith
    simp only [near, ↓reduceIte]
    by_cases far : 1 / 2 < value - ⌊value⌋
    · exact .inr ⟨by simp only [far, ↓reduceIte], above⟩
    · simp only [far, ↓reduceIte]
      by_cases even : ⌊value⌋ % 2 = 0
      · exact .inl (by simp only [even, ↓reduceIte])
      · exact .inr ⟨by simp only [even, ↓reduceIte], above⟩

theorem le_roundEven {value : ℚ} {bound : ℤ} (large : (bound : ℚ) ≤ value) :
    bound ≤ roundEven value := by
  have floor : bound ≤ ⌊value⌋ := Int.le_floor.mpr large
  rcases roundEven_mem value with same | ⟨same, _⟩ <;> omega

theorem roundEven_le {value : ℚ} {bound : ℤ} (small : value ≤ bound) :
    roundEven value ≤ bound := by
  have floor : ⌊value⌋ ≤ bound := Int.floor_le_iff.mpr (by linarith)
  rcases roundEven_mem value with same | ⟨same, above⟩
  · omega
  · have strict : ⌊value⌋ < bound := by
      have : (⌊value⌋ : ℚ) < (bound : ℚ) := by linarith
      exact_mod_cast this
    omega

/-- Less than half above an integer, rounding goes down to it. -/
theorem roundEven_le_of_lt {value : ℚ} {bound : ℤ} (near : value < bound + 1 / 2) :
    roundEven value ≤ bound := by
  have floor : ⌊value⌋ ≤ bound := Int.floor_le_iff.mpr (by linarith)
  rcases lt_or_eq_of_le floor with below | same
  · rcases roundEven_mem value with low | ⟨high, _⟩ <;> omega
  · have close : value - ⌊value⌋ < 1 / 2 := by
      rw [same]
      linarith
    simp only [roundEven, close, ↓reduceIte]
    exact floor

/-- Less than half below an integer, rounding goes up to it. -/
theorem le_roundEven_of_lt {value : ℚ} {bound : ℤ} (near : bound - 1 / 2 < value) :
    bound ≤ roundEven value := by
  have floor : bound - 1 ≤ ⌊value⌋ := by
    refine Int.le_floor.mpr ?_
    push_cast
    linarith
  rcases lt_or_eq_of_le floor with above | same
  · rcases roundEven_mem value with low | ⟨high, _⟩ <;> omega
  · have cast : ((⌊value⌋ : ℤ) : ℚ) = bound - 1 := by
      rw [← same]
      push_cast
      rfl
    have far : 1 / 2 < value - ⌊value⌋ := by linarith
    simp only [roundEven, not_lt.mpr far.le, ↓reduceIte, far]
    omega

/-- The exponent of the last of `digits` significant digits of a nonzero number,
not below the least exponent of the format. -/
def exponent (base digits : ℕ) (lowest : Option ℤ) (value : ℚ) : ℤ :=
  let last := Int.log base |value| - digits + 1
  max last (lowest.getD last)

/-- The unit of the last significant digit. -/
def unit (base digits : ℕ) (lowest : Option ℤ) (value : ℚ) : ℚ :=
  (base : ℚ) ^ exponent base digits lowest value

/-- Round to `digits` significant digits in `base`. -/
def significant (base digits : ℕ) (lowest : Option ℤ) (value : ℚ) : ℚ :=
  if value = 0 then 0
  else roundEven (value / unit base digits lowest value) * unit base digits lowest value

variable {base digits : ℕ} {lowest : Option ℤ}

@[simp] theorem significant_zero : significant base digits lowest 0 = 0 := by
  simp only [significant, ↓reduceIte]

theorem unit_pos (large : 1 < base) (value : ℚ) : 0 < unit base digits lowest value := by
  have basePos : (0 : ℚ) < base := by exact_mod_cast (zero_lt_one.trans large)
  exact zpow_pos basePos _

/-- A number that is small for a power has no larger exponent. -/
theorem exponent_le (large : 1 < base) {value : ℚ} (nonzero : value ≠ 0) {power : ℤ}
    (small : |value| < (base : ℚ) ^ (digits + power))
    (representable : ∀ bound ∈ lowest, bound ≤ power) :
    exponent base digits lowest value ≤ power := by
  have below : Int.log base |value| < digits + power :=
    (Int.lt_zpow_iff_log_lt large (abs_pos.mpr nonzero)).mp small
  refine max_le (by omega) ?_
  cases lowest with
  | none =>
      rw [Option.getD_none]
      omega
  | some least => exact representable least rfl

/-- A number written with at most `digits` digits is not changed. -/
theorem significant_eq_self (large : 1 < base) {value : ℚ} (mantissa power : ℤ)
    (written : value = mantissa * (base : ℚ) ^ power) (short : |mantissa| < base ^ digits)
    (representable : ∀ bound ∈ lowest, bound ≤ power) :
    significant base digits lowest value = value := by
  by_cases zero : value = 0
  · rw [zero, significant_zero]
  · have basePos : (0 : ℚ) < base := by exact_mod_cast (zero_lt_one.trans large)
    have baseNe : (base : ℚ) ≠ 0 := basePos.ne'
    have powPos : (0 : ℚ) < (base : ℚ) ^ power := zpow_pos basePos _
    have bound : |value| < (base : ℚ) ^ (digits + power) := by
      rw [written, abs_mul, abs_of_pos powPos, zpow_add₀ baseNe, zpow_natCast]
      have cast : |(mantissa : ℚ)| < (base : ℚ) ^ digits := by exact_mod_cast short
      exact mul_lt_mul_of_pos_right cast powPos
    have above := exponent_le large zero bound representable
    obtain ⟨shift, shifted⟩ : ∃ shift : ℕ, power = exponent base digits lowest value + shift :=
      ⟨(power - exponent base digits lowest value).toNat, by omega⟩
    have scaled : (base : ℚ) ^ power = unit base digits lowest value * (base : ℚ) ^ shift := by
      rw [unit, ← zpow_natCast, ← zpow_add₀ baseNe, ← shifted]
    have quotient : value / unit base digits lowest value =
        ((mantissa * base ^ shift : ℤ) : ℚ) := by
      rw [div_eq_iff (unit_pos large value).ne']
      push_cast
      calc value = mantissa * (unit base digits lowest value * (base : ℚ) ^ shift) := by
            rw [← scaled, ← written]
        _ = mantissa * (base : ℚ) ^ shift * unit base digits lowest value := by ring
    simp only [significant, zero, ↓reduceIte]
    rw [quotient, roundEven_intCast, ← quotient, div_mul_cancel₀ _ (unit_pos large value).ne']

/-- The rounded multiple of the unit has at most one digit too many, and then only
as a power of the base. -/
theorem abs_roundEven_div_unit_le (large : 1 < base) (value : ℚ) :
    |roundEven (value / unit base digits lowest value)| ≤ base ^ digits := by
  have basePos : (0 : ℚ) < base := by exact_mod_cast (zero_lt_one.trans large)
  have unitPos : 0 < unit base digits lowest value := unit_pos large value
  have bound : |value| ≤ (base : ℚ) ^ digits * unit base digits lowest value := by
    refine (Int.lt_zpow_succ_log_self large |value|).le.trans ?_
    rw [unit, ← zpow_natCast, ← zpow_add₀ basePos.ne']
    refine zpow_le_zpow_right₀ (by exact_mod_cast large.le) ?_
    have := le_max_left (Int.log base |value| - digits + 1)
      (lowest.getD (Int.log base |value| - digits + 1))
    change _ ≤ (digits : ℤ) + max _ _
    omega
  obtain ⟨above, below⟩ := abs_le.mp bound
  refine abs_le.mpr ⟨le_roundEven ?_, roundEven_le ?_⟩
  · rw [le_div_iff₀ unitPos]
    push_cast
    linarith
  · rw [div_le_iff₀ unitPos]
    push_cast
    exact below

/-- A rounded number is not changed by rounding it again. -/
theorem significant_significant (large : 1 < base) (someDigit : 0 < digits) (value : ℚ) :
    significant base digits lowest (significant base digits lowest value) =
      significant base digits lowest value := by
  by_cases zero : value = 0
  · rw [zero, significant_zero, significant_zero]
  · have basePos : (0 : ℚ) < base := by exact_mod_cast (zero_lt_one.trans large)
    have rounded : significant base digits lowest value =
        roundEven (value / unit base digits lowest value) *
          (base : ℚ) ^ exponent base digits lowest value := by
      simp only [significant, zero, ↓reduceIte]
      rfl
    have least : ∀ bound ∈ lowest, bound ≤ exponent base digits lowest value := by
      intro bound member
      rw [exponent, Option.mem_def.mp member]
      exact le_max_right _ _
    have carry : ∀ sign : ℤ, |sign| = 1 →
        roundEven (value / unit base digits lowest value) = sign * base ^ digits →
        significant base digits lowest (significant base digits lowest value) =
          significant base digits lowest value := by
      intro sign unitary full
      refine significant_eq_self large (sign * base ^ (digits - 1))
        (exponent base digits lowest value + 1) ?_ ?_ ?_
      · have split : (base : ℚ) ^ digits = (base : ℚ) ^ (digits - 1) * base := by
          rw [← pow_succ, Nat.sub_add_cancel someDigit]
        rw [rounded, full, zpow_add_one₀ basePos.ne']
        push_cast
        rw [split]
        ring
      · rw [abs_mul, unitary, one_mul, abs_of_nonneg (by positivity)]
        exact_mod_cast Nat.pow_lt_pow_right large (Nat.sub_lt someDigit Nat.one_pos)
      · intro bound member
        exact (least bound member).trans (by omega)
    have multiple : |roundEven (value / unit base digits lowest value)| ≤ base ^ digits :=
      abs_roundEven_div_unit_le large value
    rcases lt_or_eq_of_le multiple with short | full
    · exact significant_eq_self large _ _ rounded short least
    · rcases abs_eq (by positivity) |>.mp full with positive | negative
      · exact carry 1 (by decide) (by rw [positive, one_mul])
      · exact carry (-1) (by decide) (by rw [negative, neg_one_mul])

/-- Rounding stays below a number written with at most `digits` digits. -/
theorem abs_significant_le (large : 1 < base) {value : ℚ} (mantissa power : ℤ)
    (bounded : |value| ≤ mantissa * (base : ℚ) ^ power) (short : |mantissa| < base ^ digits)
    (representable : ∀ bound ∈ lowest, bound ≤ power) :
    |significant base digits lowest value| ≤ mantissa * (base : ℚ) ^ power := by
  have basePos : (0 : ℚ) < base := by exact_mod_cast (zero_lt_one.trans large)
  by_cases zero : value = 0
  · rw [zero, significant_zero, abs_zero]
    exact (abs_nonneg value).trans bounded
  · have unitPos : 0 < unit base digits lowest value := unit_pos large value
    have strict : |value| < (base : ℚ) ^ (digits + power : ℤ) := by
      refine bounded.trans_lt ?_
      rw [zpow_add₀ basePos.ne', zpow_natCast]
      refine mul_lt_mul_of_pos_right ?_ (zpow_pos basePos power)
      exact_mod_cast (le_abs_self mantissa).trans_lt short
    have above := exponent_le large zero strict representable
    obtain ⟨shift, shifted⟩ : ∃ shift : ℕ, power = exponent base digits lowest value + shift :=
      ⟨(power - exponent base digits lowest value).toNat, by omega⟩
    have scaled : mantissa * (base : ℚ) ^ power =
        ((mantissa * base ^ shift : ℤ) : ℚ) * unit base digits lowest value := by
      conv_lhs => rw [shifted, zpow_add₀ basePos.ne', zpow_natCast]
      rw [unit]
      push_cast
      ring
    rw [scaled] at bounded ⊢
    obtain ⟨least, below⟩ := abs_le.mp bounded
    have multiple : |roundEven (value / unit base digits lowest value)| ≤
        mantissa * base ^ shift := by
      refine abs_le.mpr ⟨le_roundEven ?_, roundEven_le ?_⟩
      · rw [le_div_iff₀ unitPos]
        push_cast at least ⊢
        linarith
      · rw [div_le_iff₀ unitPos]
        exact below
    simp only [significant, zero, ↓reduceIte]
    rw [abs_mul, abs_of_pos unitPos]
    refine mul_le_mul_of_nonneg_right ?_ unitPos.le
    exact_mod_cast multiple

/-- Rounding stays above a power of the base that the number reaches. -/
theorem le_abs_significant (large : 1 < base) (someDigit : 0 < digits) {value : ℚ} {power : ℤ}
    (reached : (base : ℚ) ^ power ≤ |value|) (coarse : ∀ bound ∈ lowest, bound ≤ power) :
    (base : ℚ) ^ power ≤ |significant base digits lowest value| := by
  have basePos : (0 : ℚ) < base := by exact_mod_cast (zero_lt_one.trans large)
  have increasing : ∀ {low high : ℤ}, low ≤ high → (base : ℚ) ^ low ≤ (base : ℚ) ^ high :=
    fun ordered => zpow_le_zpow_right₀ (by exact_mod_cast large.le) ordered
  have unitPos : 0 < unit base digits lowest value := unit_pos large value
  have absPos : 0 < |value| := (zpow_pos basePos power).trans_le reached
  have log : power ≤ Int.log base |value| := (Int.zpow_le_iff_le_log large absPos).mp reached
  have least : exponent base digits lowest value ≤ Int.log base |value| := by
    refine max_le (by omega) ?_
    cases lowest with
    | none =>
        rw [Option.getD_none]
        omega
    | some least => exact (coarse least rfl).trans log
  -- The larger of the power and the unit is a whole multiple of the unit.
  obtain ⟨shift, shifted⟩ : ∃ shift : ℕ,
      max power (exponent base digits lowest value) = exponent base digits lowest value + shift :=
    ⟨(power - exponent base digits lowest value).toNat, by omega⟩
  have scaled : ((base ^ shift : ℤ) : ℚ) * unit base digits lowest value =
      (base : ℚ) ^ max power (exponent base digits lowest value) := by
    rw [shifted, zpow_add₀ basePos.ne', zpow_natCast, unit]
    push_cast
    ring
  have whole : ((base ^ shift : ℤ) : ℚ) * unit base digits lowest value ≤ |value| := by
    rw [scaled]
    exact (increasing (max_le log least)).trans (Int.zpow_log_le_self large absPos)
  have multiple : (base ^ shift : ℤ) ≤ |roundEven (value / unit base digits lowest value)| := by
    rcases le_total 0 value with positive | negative
    · rw [abs_of_nonneg positive] at whole
      exact (le_roundEven ((le_div_iff₀ unitPos).mpr whole)).trans (le_abs_self _)
    · rw [abs_of_nonpos negative] at whole
      refine le_trans (le_neg.mpr (roundEven_le ?_)) (neg_le_abs _)
      rw [div_le_iff₀ unitPos]
      push_cast at whole ⊢
      linarith
  simp only [significant, abs_pos.mp absPos, ↓reduceIte]
  rw [abs_mul, abs_of_pos unitPos]
  calc (base : ℚ) ^ power ≤ ((base ^ shift : ℤ) : ℚ) * unit base digits lowest value := by
        rw [scaled]
        exact increasing (le_max_left _ _)
    _ ≤ _ := by
        refine mul_le_mul_of_nonneg_right ?_ unitPos.le
        exact_mod_cast multiple

/-- An integer is rounded to an integer. -/
theorem exists_significant_intCast (large : 1 < base) (value : ℤ) :
    ∃ rounded : ℤ, significant base digits lowest (value : ℚ) = rounded := by
  by_cases zero : (value : ℚ) = 0
  · exact ⟨0, by rw [zero, significant_zero, Int.cast_zero]⟩
  · have basePos : (0 : ℚ) < base := by exact_mod_cast (zero_lt_one.trans large)
    simp only [significant, zero, ↓reduceIte]
    obtain coarse | fine := le_total 0 (exponent base digits lowest (value : ℚ))
    · obtain ⟨power, powered⟩ := Int.eq_ofNat_of_zero_le coarse
      refine ⟨roundEven (value / unit base digits lowest value) * base ^ power, ?_⟩
      push_cast
      rw [unit, powered]
      norm_cast
    · obtain ⟨power, powered⟩ := Int.eq_ofNat_of_zero_le (neg_nonneg.mpr fine)
      have quotient : (value : ℚ) / unit base digits lowest value =
          ((value * base ^ power : ℤ) : ℚ) := by
        rw [unit, ← neg_neg (exponent base digits lowest (value : ℚ)), powered, zpow_neg,
          div_inv_eq_mul]
        push_cast
        norm_cast
      refine ⟨value, ?_⟩
      rw [quotient, roundEven_intCast, ← quotient, div_mul_cancel₀ _ (unit_pos large _).ne']

end Rounding
