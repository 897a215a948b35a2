import Mathlib.Tactic.NormNum
import WorkQueue.Foundation.Rounding
import WorkQueue.Json.Tree

/-! # Double-precision numbers in documents

Decoders read every number of a document as a double: the nearest one, the even
one on ties, and no number at all when it is too large. An encoder writes the
fewest decimal digits that read back as the same double (`Float64.shortest`); so
encoding loses nothing (`Float64.read_shortest`). An integer of at most 53 binary digits is
written as it is (`Float64.encode_intCast`).
-/

namespace Float64

/-- The double nearest to a number, ignoring the largest exponent. -/
def read (value : ℚ) : ℚ := Rounding.significant 2 53 (some (-1074)) value

/-- Whether a number is not beyond the largest double. -/
def fits (value : ℚ) : Bool := |read value| < 2 ^ 1024

/-- The decimal with the fewest significant digits that reads as the double. -/
def shortest (value : ℚ) : ℚ :=
  (((List.range' 1 17).map fun digits => Rounding.significant 10 digits none value).find?
    fun decimal => read decimal = value).getD value

/-- How a double is written: plain digits for an integer of moderate size. -/
def encode (value : ℚ) : JsonNumber :=
  if (shortest value).den = 1 ∧ |shortest value| < 10 ^ 21 then .int (shortest value).num
  else .real (shortest value)

theorem read_read (value : ℚ) : read (read value) = read value :=
  Rounding.significant_significant (by decide) (by decide) value

/-- The shortest decimal of a double reads back as the double. -/
theorem read_shortest (value : ℚ) : read (shortest (read value)) = read value := by
  unfold shortest
  cases found : ((List.range' 1 17).map fun digits =>
      Rounding.significant 10 digits none (read value)).find?
        fun decimal => read decimal = read value with
  | none => exact read_read value
  | some decimal =>
      have reads := List.find?_some found
      exact of_decide_eq_true reads

theorem value_encode (value : ℚ) : (encode value).value = shortest value := by
  unfold encode
  split
  · next plain => exact Rat.coe_int_num_of_den_eq_one plain.1
  · rfl

/-- Different doubles are written differently. -/
theorem encode_read_injective {first second : ℚ}
    (same : encode (read first) = encode (read second)) : read first = read second := by
  rw [← read_shortest first, ← read_shortest second, ← value_encode, ← value_encode, same]

/-- An integer of at most 53 binary digits is a double. -/
theorem read_intCast {value : ℤ} (short : |value| < 2 ^ 53) : read value = value := by
  refine Rounding.significant_eq_self (by decide) value 0 (by simp) (by exact_mod_cast short) ?_
  intro bound member
  rw [← Option.mem_some_iff.mp member]
  decide

theorem fits_read (value : ℚ) : fits (read value) = fits value := by
  rw [fits, fits, read_read]

/-- A number that is not beyond the largest double is within the range. -/
theorem fits_of_abs_le {value : ℚ}
    (bounded : |value| ≤ (2 ^ 53 - 1 : ℤ) * ((2 : ℕ) : ℚ) ^ (971 : ℤ)) : fits value := by
  have rounded : |read value| ≤ (2 ^ 53 - 1 : ℤ) * ((2 : ℕ) : ℚ) ^ (971 : ℤ) := by
    refine Rounding.abs_significant_le (by decide) _ _ bounded (by decide) ?_
    intro bound member
    rw [← Option.mem_some_iff.mp member]
    decide
  refine decide_eq_true (rounded.trans_lt ?_)
  decide +kernel

/-- Every machine integer is within the range of doubles. -/
theorem fits_int64 (value : Int64) : fits value.toInt := by
  refine fits_of_abs_le ?_
  have below := value.toInt_lt
  have above := value.le_toInt
  have magnitude : |value.toInt| ≤ 2 ^ 63 := abs_le.mpr ⟨by omega, by omega⟩
  have cast : |(value.toInt : ℚ)| ≤ 2 ^ 63 := by exact_mod_cast magnitude
  refine cast.trans ?_
  decide +kernel

/-- Fourteen digits of a double are within the range of doubles: the largest double is
rounded down. -/
theorem fits_significant {value : ℚ} (inside : |value| < 2 ^ 1024) :
    fits (Rounding.significant 10 14 none value) := by
  have absent : ∀ bound ∈ (none : Option ℤ), bound ≤ (308 : ℤ) :=
    fun bound member => (Option.not_mem_none bound member).elim
  by_cases moderate : |value| ≤ (1 : ℤ) * ((10 : ℕ) : ℚ) ^ (308 : ℤ)
  · refine fits_of_abs_le ((Rounding.abs_significant_le (by decide) 1 308 moderate (by decide)
      absent).trans ?_)
    decide +kernel
  · have large : ((10 : ℕ) : ℚ) ^ (308 : ℤ) ≤ |value| := by
      rw [Int.cast_one, one_mul] at moderate
      exact (not_le.mp moderate).le
    have positive : 0 < |value| := lt_of_lt_of_le (by norm_num) large
    have small : |value| < ((10 : ℕ) : ℚ) ^ (309 : ℤ) := inside.trans (by decide +kernel)
    have low : 308 ≤ Int.log 10 |value| :=
      (Int.zpow_le_iff_le_log (by decide) positive).mp large
    have high : Int.log 10 |value| < 309 :=
      (Int.lt_zpow_iff_log_lt (by decide) positive).mp small
    have unit : Rounding.unit 10 14 none value = (10 : ℚ) ^ 295 := by
      have log : Int.log 10 |value| = 308 := by omega
      rw [Rounding.unit, Rounding.exponent, log]
      norm_num
    have nonzero : value ≠ 0 := abs_pos.mp positive
    obtain ⟨above, below⟩ := abs_lt.mp inside
    have multiple : |Rounding.roundEven (value / 10 ^ 295)| ≤ 17976931348623 := by
      refine abs_le.mpr ⟨Rounding.le_roundEven_of_lt ?_, Rounding.roundEven_le_of_lt ?_⟩
      · rw [lt_div_iff₀ (by positivity)]
        refine lt_of_le_of_lt ?_ above
        decide +kernel
      · rw [div_lt_iff₀ (by positivity)]
        refine below.trans_le ?_
        decide +kernel
    have cast : |(Rounding.roundEven (value / 10 ^ 295) : ℚ)| ≤ 17976931348623 := by
      exact_mod_cast multiple
    have tenPos : (0 : ℚ) < 10 ^ 295 := by positivity
    refine fits_of_abs_le ?_
    rw [Rounding.significant, if_neg nonzero, unit, abs_mul, abs_of_pos tenPos]
    calc _ ≤ (17976931348623 : ℚ) * 10 ^ 295 :=
          mul_le_mul_of_nonneg_right cast tenPos.le
      _ ≤ _ := by decide +kernel

/-- The double nearest to an integer of more than 53 binary digits has more as well. -/
theorem le_abs_read {value : ℤ} (large : 2 ^ 53 ≤ |value|) :
    (2 : ℚ) ^ 53 ≤ |read value| := by
  have reached : ((2 : ℕ) : ℚ) ^ (53 : ℤ) ≤ |(value : ℚ)| := by exact_mod_cast large
  have kept : _ ≤ |read value| :=
    Rounding.le_abs_significant (by decide) (by decide) reached (by simp)
  exact_mod_cast kept

/-- The shortest decimal of a number is the number itself or rounded to some digits. -/
theorem shortest_cases (value : ℚ) :
    shortest value = value ∨
      ∃ digits, 0 < digits ∧ shortest value = Rounding.significant 10 digits none value := by
  unfold shortest
  cases found : ((List.range' 1 17).map fun digits =>
      Rounding.significant 10 digits none value).find? fun decimal => read decimal = value with
  | none => exact .inl rfl
  | some decimal =>
      obtain ⟨digits, member, rfl⟩ := List.mem_map.mp (List.mem_of_find?_eq_some found)
      exact .inr ⟨digits, (List.mem_range'_1.mp member).1, rfl⟩

/-- The shortest decimal of an integer is an integer. -/
theorem exists_shortest_intCast (value : ℤ) : ∃ shown : ℤ, shortest value = shown := by
  obtain same | ⟨digits, -, rounded⟩ := shortest_cases value
  · exact ⟨value, same⟩
  · rw [rounded]
    exact Rounding.exists_significant_intCast (by decide) value

/-- The shortest decimal does not cross a power of ten. -/
theorem abs_shortest_le {value : ℚ} {power : ℤ} (bounded : |value| ≤ ((10 : ℕ) : ℚ) ^ power) :
    |shortest value| ≤ ((10 : ℕ) : ℚ) ^ power := by
  obtain same | ⟨digits, positive, rounded⟩ := shortest_cases value
  · rw [same]
    exact bounded
  · have written : |value| ≤ (1 : ℤ) * ((10 : ℕ) : ℚ) ^ power := by rwa [Int.cast_one, one_mul]
    have short : |(1 : ℤ)| < ((10 : ℕ) : ℤ) ^ digits := by
      rw [abs_one]
      exact_mod_cast Nat.one_lt_pow positive.ne' (by decide)
    have kept : |Rounding.significant 10 digits none value| ≤ _ :=
      Rounding.abs_significant_le (by decide) 1 power written short nofun
    rwa [rounded, ← one_mul (((10 : ℕ) : ℚ) ^ power), ← Int.cast_one]

/-- The shortest decimal of a small integer is the integer. -/
theorem shortest_intCast {value : ℤ} (short : |value| < 2 ^ 53) : shortest value = value := by
  obtain ⟨shown, whole⟩ := exists_shortest_intCast value
  have back := read_shortest (value : ℚ)
  rw [read_intCast short, whole] at back
  by_cases small : |shown| < 2 ^ 53
  · rw [whole, ← back, read_intCast small]
  · have large := le_abs_read (not_lt.mp small)
    rw [back] at large
    have absurd : (2 : ℤ) ^ 53 ≤ |value| := by exact_mod_cast large
    omega

/-- A machine integer is shown as an integer. -/
theorem exists_encode_int64 (value : Int64) :
    ∃ shown : ℤ, encode (read value.toInt) = .int shown := by
  obtain ⟨double, rounded⟩ : ∃ double : ℤ, read (value.toInt : ℚ) = double :=
    Rounding.exists_significant_intCast (by decide) value.toInt
  obtain ⟨shown, whole⟩ := exists_shortest_intCast double
  have below := value.toInt_lt
  have above := value.le_toInt
  have magnitude : |value.toInt| ≤ 2 ^ 63 := abs_le.mpr ⟨by omega, by omega⟩
  have written : |(value.toInt : ℚ)| ≤ (1 : ℤ) * ((2 : ℕ) : ℚ) ^ (63 : ℤ) := by
    rw [Int.cast_one, one_mul]
    exact_mod_cast magnitude
  have near : |read value.toInt| ≤ (1 : ℤ) * ((2 : ℕ) : ℚ) ^ (63 : ℤ) := by
    refine Rounding.abs_significant_le (by decide) 1 63 written (by decide) ?_
    intro bound member
    rw [← Option.mem_some_iff.mp member]
    decide
  have bounded : |read value.toInt| ≤ ((10 : ℕ) : ℚ) ^ (19 : ℤ) := near.trans (by norm_num)
  have moderate : |(shown : ℚ)| < 10 ^ 21 := by
    rw [← whole, ← rounded]
    exact (abs_shortest_le bounded).trans_lt (by norm_num)
  refine ⟨shown, ?_⟩
  rw [rounded, encode, whole, Rat.den_intCast, Rat.num_intCast, if_pos ⟨rfl, moderate⟩]

/-- A small integer is shown as it is. -/
theorem encode_intCast {value : ℤ} (short : |value| < 2 ^ 53) : encode value = .int value := by
  have moderate : |(value : ℚ)| < 10 ^ 21 := by
    have cast : |(value : ℚ)| < 2 ^ 53 := by exact_mod_cast short
    exact cast.trans (by norm_num)
  rw [encode, shortest_intCast short, Rat.den_intCast, Rat.num_intCast, if_pos ⟨rfl, moderate⟩]

end Float64
