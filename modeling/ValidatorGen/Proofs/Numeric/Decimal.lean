import ValidatorGen.Proofs.Numeric.Accuracy

/-! The shortest decimal of a value as a number. Main statements: it is in the interval of the value,
its digits fit in a word, and a whole number has no digits after the point. -/
namespace ValidatorGen

def Decimal.significand (d : Decimal) : ℕ := Nat.ofDigitChars 10 d.digits 0

/-- The power of ten that the last digit counts. -/
def Decimal.power (d : Decimal) : ℤ := d.lead + 1 - d.digits.length

namespace Binary64

attribute [local irreducible] unitsPerOne

theorem size_mul_pow (significand : ℕ) (power : ℤ) (n : ℕ) :
    size (significand * 10 ^ n) power = size significand (power + n) := by
  rw [size, size, zpow_add₀ (by norm_num), zpow_natCast]
  push_cast
  ring

/-- Zeros at the end count in the power of ten as well. -/
theorem exists_zeros (digits : List Char) :
    ∃ n, digits = (digits.reverse.dropWhile (· == '0')).reverse ++ List.replicate n '0' := by
  refine ⟨(digits.reverse.takeWhile (· == '0')).length, ?_⟩
  have hzeros : digits.reverse.takeWhile (· == '0')
      = List.replicate (digits.reverse.takeWhile (· == '0')).length '0' :=
    List.eq_replicate_of_mem fun c hc => beq_iff_eq.1 (List.all_eq_true.1 List.all_takeWhile c hc)
  have hreverse := List.takeWhile_append_dropWhile (p := (· == '0')) (l := digits.reverse)
  rw [← List.reverse_replicate, ← hzeros, ← List.reverse_append, hreverse, List.reverse_reverse]

theorem size_shortest (tie : TieBreak) (x : Binary64) :
    (firstOnGrid tie x x.leadingPower 16).2 ≤ (x.shortest tie).power
      ∧ size (x.shortest tie).significand (x.shortest tie).power
        = size (firstOnGrid tie x x.leadingPower 16).1 (firstOnGrid tie x x.leadingPower 16).2 := by
  have hnumber := Nat.ofDigitChars_ten_toDigits (n := (firstOnGrid tie x x.leadingPower 16).1)
  obtain ⟨n, hn⟩ := exists_zeros (Nat.toDigits 10 (firstOnGrid tie x x.leadingPower 16).1)
  rw [Decimal.significand, Decimal.power, shortest]
  simp only
  generalize (firstOnGrid tie x x.leadingPower 16).2 = power
  generalize (Nat.toDigits 10 (firstOnGrid tie x x.leadingPower 16).1) = digits at *
  generalize (digits.reverse.dropWhile (· == '0')).reverse = kept at *
  subst hn
  rw [Nat.ofDigitChars_append, Nat.ofDigitChars_replicate_zero, Nat.mul_comm] at hnumber
  have hpower : power + ((kept ++ List.replicate n '0').length : ℕ) - 1 + 1 - (kept.length : ℕ)
      = power + n := by
    rw [List.length_append, List.length_replicate]
    push_cast
    ring
  rw [hpower, ← hnumber, size_mul_pow]
  exact ⟨by omega, rfl⟩

theorem gridStep_ratio (power : ℤ) :
    ((gridStep power).1 : ℚ) / (gridStep power).2 = 4 * size 1 power := by
  unfold gridStep size
  split
  · next h =>
    obtain ⟨n, rfl⟩ := Int.eq_ofNat_of_zero_le h
    rw [Int.toNat_natCast, zpow_natCast, Nat.pow_eq]
    push_cast
    ring
  · next h =>
    obtain ⟨n, hn⟩ := Int.eq_ofNat_of_zero_le (show 0 ≤ -power by omega)
    obtain rfl : power = -n := by omega
    rw [neg_neg, Int.toNat_natCast, zpow_neg, zpow_natCast, Nat.pow_eq]
    push_cast
    ring

theorem holds_shortest {x : Binary64} (h : x.magnitude ≠ 0) (tie : TieBreak) :
    x.interval.Holds (4 * size (x.shortest tie).significand (x.shortest tie).power) := by
  obtain ⟨-, hcontains⟩ := contains_firstOnGrid h tie x.leadingPower 16 (gridStep_leadingPower h)
  rw [(size_shortest tie x).2]
  generalize firstOnGrid tie x x.leadingPower 16 = found at *
  have hholds := (Interval.contains_iff (gridStep_pos found.2).2).1 hcontains
  rw [Nat.cast_mul, mul_div_assoc, gridStep_ratio] at hholds
  convert hholds using 1
  unfold size
  push_cast
  ring

theorem units_lt_leadingPower (x : Binary64) : (x.units : ℚ) < size 1 (x.leadingPower + 1) := by
  obtain ⟨n, hn⟩ : ∃ n, n = (Nat.toDigits 10 x.tiny).length := ⟨_, rfl⟩
  obtain ⟨e, he, htiny⟩ := x.exists_tinyExponent
  have hlead : x.leadingPower + 1 = (n : ℤ) - e := by
    have hlength : x.leadingPower = ((Nat.toDigits 10 x.tiny).length : ℤ) - 325 := rfl
    rw [hlength, ← hn, he]
    norm_num
    ring
  have hlt : x.tiny < 10 ^ n := by
    have hpos : 0 < n := hn ▸ Nat.length_toDigits_pos
    exact (Nat.length_toDigits_le_iff (by decide) hpos).1 hn.ge
  rw [htiny, Nat.div_lt_iff_lt_mul unitsPerOne_pos] at hlt
  have hcast : (x.units * 10 ^ e : ℚ) < 10 ^ n * unitsPerOne := by exact_mod_cast hlt
  rw [hlead, size, zpow_sub₀ (by norm_num), zpow_natCast, zpow_natCast, Nat.cast_one, one_mul,
    div_mul_eq_mul_div, lt_div_iff₀ (by positivity)]
  exact hcast

theorem two_pow_spacing_le_cast {x : Binary64} (h : x.magnitude ≠ 0) :
    (2 ^ x.spacing : ℚ) ≤ x.units := by exact_mod_cast two_pow_spacing_le_units h

/-- Eighteen digits fit in a word. -/
theorem significand_shortest {x : Binary64} (h : x.magnitude ≠ 0) (tie : TieBreak) :
    0 < (x.shortest tie).significand ∧ (x.shortest tie).significand < 10 ^ 18 := by
  obtain ⟨hpower, -⟩ := contains_firstOnGrid h tie x.leadingPower 16 (gridStep_leadingPower h)
  have hnear := abs_sub_units_le_of_holds (holds_shortest h tie)
  have hgrid := (size_shortest tie x).1
  have hunits := x.units_lt_leadingPower
  have hsmall := two_pow_spacing_le_cast h
  have hone := unitsPerOne_cast_pos
  generalize (x.shortest tie).significand = n at *
  generalize (x.shortest tie).power = power at *
  obtain ⟨hlow, hup⟩ := abs_le.1 hnear
  have hpositive : (1 : ℚ) ≤ 2 ^ x.spacing := one_le_two_pow_cast x.spacing
  constructor
  · apply Nat.pos_of_ne_zero
    rintro rfl
    rw [size, Nat.cast_zero, zero_mul, zero_mul] at hlow
    linarith
  · have hten : size 1 (x.leadingPower + 1) ≤ 10 ^ 17 * size 1 power := by
      rw [size, size, Nat.cast_one, one_mul, one_mul, ← mul_assoc]
      gcongr
      rw [← zpow_natCast, ← zpow_add₀ (by norm_num)]
      exact zpow_le_zpow_right₀ (by norm_num) (by push_cast at *; omega)
    have hlt : (n : ℚ) * size 1 power < 10 ^ 18 * size 1 power := by
      have hmul : (n : ℚ) * size 1 power = size n power := by
        rw [size, size]
        push_cast
        ring
      linarith
    exact_mod_cast lt_of_mul_lt_mul_right hlt (size_nonneg 1 power)

section Whole

variable {x : Binary64} {m : ℕ}

theorem exists_onGrid?_zero (h : x.magnitude ≠ 0) (tie : TieBreak)
    (hwhole : x.units = m * unitsPerOne) : ∃ n, onGrid? tie x 0 = some n := by
  have hstep : gridStep 0 = (4 * unitsPerOne, 1) := by
    rw [gridStep, if_pos le_rfl, Int.toNat_zero, Nat.pow_eq, pow_zero, Nat.mul_one]
  have hdiv : 4 * x.units * 1 / (4 * unitsPerOne) = m := by
    rw [hwhole, Nat.mul_one, Nat.mul_left_comm]
    exact Nat.mul_div_cancel _ (Nat.mul_pos (by decide) unitsPerOne_pos)
  have hfits : x.interval.contains (m * (4 * unitsPerOne)) 1 = true := by
    have hcentre : m * (4 * unitsPerOne) = 4 * x.units := by
      rw [hwhole]
      ring
    have hpos := units_pos h
    have hbelow := x.reach_pos
    have habove : 0 < 2 ^ x.spacing := Nat.two_pow_pos _
    rw [hcentre]
    refine Interval.contains_of_lt ?_ ?_
    · rw [interval_lower]
      omega
    · rw [interval_upper]
      omega
  simp only [onGrid?, hstep, hdiv, hfits]
  split
  · split <;> exact ⟨_, rfl⟩
  · exact ⟨_, rfl⟩

theorem firstOnGrid_nonneg (h : x.magnitude ≠ 0) (tie : TieBreak)
    (hwhole : x.units = m * unitsPerOne) {power : ℤ} (hpower : 0 ≤ power) (finer : ℕ) :
    0 ≤ (firstOnGrid tie x power finer).2 := by
  induction finer generalizing power with
  | zero => exact hpower
  | succ finer ih =>
    rw [firstOnGrid]
    split
    · exact hpower
    · next hnone =>
      have hne : power ≠ 0 := by
        rintro rfl
        obtain ⟨n, hn⟩ := exists_onGrid?_zero h tie hwhole
        rw [hn] at hnone
        cases hnone
      exact ih (by omega)

theorem leadingPower_nonneg (h : x.magnitude ≠ 0) (hwhole : x.units = m * unitsPerOne) :
    0 ≤ x.leadingPower := by
  have hlt := x.units_lt_leadingPower
  have hone := unitsPerOne_cast_pos
  have hm : 1 ≤ m := by
    apply Nat.pos_of_ne_zero
    rintro rfl
    have := units_pos h
    omega
  have hunits : (unitsPerOne : ℚ) ≤ x.units := by
    rw [hwhole]
    exact_mod_cast Nat.le_mul_of_pos_left _ hm
  by_contra hneg
  have hsize : size 1 (x.leadingPower + 1) ≤ unitsPerOne := by
    have hpow : (10 : ℚ) ^ (x.leadingPower + 1) ≤ 1 := zpow_le_one_of_nonpos₀ (by norm_num) (by omega)
    rw [size, Nat.cast_one, one_mul]
    exact mul_le_of_le_one_left hone.le hpow
  linarith

/-- A whole number has no digits after the point. -/
theorem power_shortest_nonneg (h : x.magnitude ≠ 0) (tie : TieBreak)
    (hwhole : x.units = m * unitsPerOne) : 0 ≤ (x.shortest tie).power :=
  (firstOnGrid_nonneg h tie hwhole (leadingPower_nonneg h hwhole) 16).trans (size_shortest tie x).1

end Whole

end Binary64
end ValidatorGen
