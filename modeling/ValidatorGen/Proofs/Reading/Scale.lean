import ValidatorGen.Proofs.Numeric.Accuracy
import ValidatorGen.Proofs.Reading.Numeral

/-! How well digits and a power of ten are put together. Main statements: the result is at most six
units in the last place away from the value that the digits were printed for, and is that value if
the digits and the power are values themselves. -/
namespace ValidatorGen.Numeral

open Binary64

attribute [local irreducible] unitsPerOne

/-- How powers of ten compare with the ends of the range of values. -/
theorem powers_compare : 10 ^ 308 * unitsPerOne < 1 * ((2 ^ 53 - 1) * 2 ^ 2045)
    ∧ 2 ^ 1024 < 10 ^ 309 ∧ 2 * (2 ^ 64 * 2 ^ 1074) < 10 ^ 617 := by decide +kernel

theorem isFinite_powTen {n : ℕ} (h : n ≤ 308) : (powTen n).isFinite := by
  obtain ⟨hlargest, -, -⟩ := powers_compare
  have hle : 10 ^ n * unitsPerOne ≤ 10 ^ 308 * unitsPerOne := by
    gcongr
    decide
  rw [powTen, ofNat, Nat.pow_eq]
  exact isFinite_ofRatio_of_lt Nat.one_pos le_rfl (hle.trans_lt hlargest)

theorem abs_units_powTen_sub_le {n : ℕ} (h : n ≤ 308) :
    |((powTen n).units : ℚ) - 10 ^ n * unitsPerOne| ≤ precision * (10 ^ n * unitsPerOne) := by
  have hpos : 0 < Nat.pow 10 n := Nat.pow_pos (by decide)
  have hround := abs_units_ofNat_sub_le hpos (isFinite_powTen h)
  rwa [Nat.pow_eq, Nat.cast_pow, Nat.cast_ofNat] at hround

section Near

variable {x : Binary64} {significand : ℕ} {power : ℤ}

theorem size_le (h : |size significand power - x.units| ≤ 2 ^ x.spacing / 2) :
    size significand power ≤ 2 ^ 53 * 2 ^ x.spacing := by
  obtain ⟨-, hle⟩ := abs_le.1 h
  have := x.units_le_cast
  have := one_le_two_pow_cast x.spacing
  linarith

/-- What is off by a part of the digits is near the value that they were printed for. -/
theorem near_of_size (h : |size significand power - x.units| ≤ 2 ^ x.spacing / 2) {q r c : ℚ}
    (hr : 0 ≤ r) (hc : 0 ≤ c)
    (hq : |q - size significand power| ≤ r * precision * size significand power + c) :
    |q - x.units| ≤ (1 / 2 + r + c) * 2 ^ x.spacing := by
  have hone := one_le_two_pow_cast x.spacing
  have hpart : r * precision * size significand power ≤ r * 2 ^ x.spacing := by
    have hmul := mul_le_mul_of_nonneg_left (size_le h) (mul_nonneg hr precision_pos.le)
    have hexact : r * precision * (2 ^ 53 * 2 ^ x.spacing) = r * 2 ^ x.spacing := by
      unfold precision
      ring
    linarith
  have hconst : c ≤ c * 2 ^ x.spacing := le_mul_of_one_le_right hc hone
  calc |q - x.units|
      ≤ |q - size significand power| + |size significand power - x.units| := abs_sub_le ..
    _ ≤ (1 / 2 + r + c) * 2 ^ x.spacing := by linarith

end Near

section Steps

variable {x : Binary64} {significand : ℕ} {n : ℕ}

theorem abs_units_word_sub_le (hpos : 0 < significand) (hword : significand < wordLimit) :
    |((ofNat significand).units : ℚ) - significand * unitsPerOne|
      ≤ precision * (significand * unitsPerOne) :=
  abs_units_ofNat_sub_le hpos (isFinite_word hword)

theorem near_mul_powTen (hx : x.magnitude + 4 < infinityMagnitude) (hpos : 0 < significand)
    (hword : significand < wordLimit) (hn : n ≤ 308)
    (h : |size significand n - x.units| ≤ 2 ^ x.spacing / 2) :
    ((ofNat significand).mul (powTen n)).isFinite
      ∧ |(((ofNat significand).mul (powTen n)).units : ℚ) - x.units| ≤ 4 * 2 ^ x.spacing := by
  have hone := unitsPerOne_cast_pos
  have hscale := one_le_two_pow_cast x.spacing
  have hden : 0 < unitsPerOne * unitsPerOne := Nat.mul_pos unitsPerOne_pos unitsPerOne_pos
  have hproduct := abs_mul_sub_le (by positivity) (by positivity) precision_pos.le
    (precision_le.trans (by norm_num)) (abs_units_word_sub_le hpos hword) (abs_units_powTen_sub_le hn)
  have hquotient : (((ofNat significand).units * (powTen n).units : ℕ) * unitsPerOne
      / (unitsPerOne * unitsPerOne : ℕ) : ℚ)
        = (ofNat significand).units * (powTen n).units / unitsPerOne := by
    push_cast
    field_simp
  have hoff : |((ofNat significand).units * (powTen n).units / unitsPerOne : ℚ) - size significand n|
      ≤ 33 / 16 * precision * size significand n + 0 := by
    have hsplit : ((ofNat significand).units * (powTen n).units / unitsPerOne : ℚ)
        - size significand n = ((ofNat significand).units * (powTen n).units
          - significand * unitsPerOne * (10 ^ n * unitsPerOne)) / unitsPerOne := by
      rw [size, zpow_natCast]
      field_simp
    rw [hsplit, abs_div, abs_of_pos hone, div_le_iff₀ hone]
    refine hproduct.trans (le_of_eq ?_)
    rw [size, zpow_natCast]
    ring
  have hnear := near_of_size h (by norm_num) le_rfl hoff
  rw [← hquotient] at hnear
  have hfinite : (ofRatio ((ofNat significand).units * (powTen n).units)
      (unitsPerOne * unitsPerOne)).isFinite := by
    refine isFinite_ofRatio_of_near hden hx ?_
    have := (abs_le.1 hnear).2
    linarith
  refine ⟨hfinite, (abs_units_ofRatio_sub_units_le hden hfinite (by norm_num) hnear).trans ?_⟩
  gcongr
  norm_num

/-- Dividing by a rounded power adds what the power is off, and makes a constant smaller. -/
theorem abs_div_powTen_sub_le {power : ℤ} (hn : n ≤ 308) {q r c : ℚ} (hr : 0 ≤ r) (hr' : r ≤ 1 / 64)
    (hc : 0 ≤ c) (hq : |q - size significand power| ≤ r * size significand power + c) :
    |q * unitsPerOne / (powTen n).units - size significand (power - n)|
      ≤ (r + 17 / 16 * precision) * size significand (power - n) + 17 / 16 * (c / 10 ^ n) := by
  have hone := unitsPerOne_cast_pos
  have hsize := size_nonneg significand power
  have hdiv := abs_div_sub_le hsize (by positivity) hr hr' hc hq (abs_units_powTen_sub_le hn)
  have hshift : size significand (power - n) = size significand power / (10 ^ n * unitsPerOne)
      * unitsPerOne := by
    rw [size, size, zpow_sub₀ (by norm_num), zpow_natCast]
    field_simp
  have hsplit : q * unitsPerOne / (powTen n).units - size significand (power - n)
      = (q / (powTen n).units - size significand power / (10 ^ n * unitsPerOne)) * unitsPerOne := by
    rw [hshift]
    ring
  rw [hsplit, abs_mul, abs_of_pos hone]
  refine (mul_le_mul_of_nonneg_right hdiv hone.le).trans (le_of_eq ?_)
  rw [hshift]
  field_simp

theorem near_div_powTen (hpos : 0 < significand) (hword : significand < wordLimit) (hn : n ≤ 308)
    (h : |size significand (-n) - x.units| ≤ 2 ^ x.spacing / 2) :
    |(((ofNat significand).div (powTen n)).units : ℚ) - x.units| ≤ 4 * 2 ^ x.spacing := by
  have hscale := one_le_two_pow_cast x.spacing
  have hfinite := isFinite_div_powTen (by decide) (units_word_le hword) n
  have hden : 0 < (powTen n).units := unitsPerOne_pos.trans_le (le_units_powTen n)
  have hword' : |((ofNat significand).units : ℚ) - size significand 0|
      ≤ precision * size significand 0 + 0 := by
    simpa [size] using abs_units_word_sub_le hpos hword
  have hoff := abs_div_powTen_sub_le hn precision_pos.le (precision_le.trans (by norm_num)) le_rfl
    hword'
  rw [zero_sub] at hoff
  have hnear := near_of_size (r := 33 / 16) (c := 0) h (by norm_num) le_rfl
    (hoff.trans (le_of_eq (by ring)))
  refine (abs_units_ofRatio_sub_units_le hden hfinite (by norm_num) hnear).trans ?_
  gcongr
  norm_num

theorem near_div_div_powTen (hpos : 0 < significand) (hword : significand < wordLimit)
    (hn₀ : 0 < n) (hn : n ≤ 308)
    (h : |size significand (-308 - n) - x.units| ≤ 2 ^ x.spacing / 2) :
    |((((ofNat significand).div (powTen 308)).div (powTen n)).units : ℚ) - x.units|
      ≤ 6 * 2 ^ x.spacing := by
  have hscale := one_le_two_pow_cast x.spacing
  have hpositive := precision_pos
  have hε := precision_le
  have hfirst := isFinite_div_powTen (by decide) (units_word_le hword) 308
  have hsecond := isFinite_div_powTen (by decide) (units_div_powTen_le (units_word_le hword) 308) n
  have hden : 0 < (powTen 308).units := unitsPerOne_pos.trans_le (le_units_powTen 308)
  have hden' : 0 < (powTen n).units := unitsPerOne_pos.trans_le (le_units_powTen n)
  have hword' : |((ofNat significand).units : ℚ) - size significand 0|
      ≤ precision * size significand 0 + 0 := by
    simpa [size] using abs_units_word_sub_le hpos hword
  have hquotient := abs_div_powTen_sub_le le_rfl precision_pos.le (hε.trans (by norm_num)) le_rfl
    hword'
  rw [show (0 : ℤ) - (308 : ℕ) = -308 by norm_num, zero_div, mul_zero, add_zero] at hquotient
  have hround := abs_units_ofRatio_sub_le hden hfirst
  have hsize := size_nonneg significand (-308)
  have hfirstOff : |(((ofNat significand).div (powTen 308)).units : ℚ) - size significand (-308)|
      ≤ 25 / 8 * precision * size significand (-308) + 1 / 2 := by
    have hupper := (abs_le.1 hquotient).2
    have hsquare : precision * (33 / 16 * precision * size significand (-308))
        ≤ 1 / 1024 * (33 / 16 * precision * size significand (-308)) := by gcongr
    have hmax : max (1 / 2) (precision
        * ((ofNat significand).units * unitsPerOne / (powTen 308).units))
          ≤ 1 / 2 + 17 / 16 * precision * size significand (-308) := by
      refine max_le ?_ ?_
      · have : 0 ≤ 17 / 16 * precision * size significand (-308) := by positivity
        linarith
      · have hmul := mul_le_mul_of_nonneg_left (sub_le_iff_le_add.1 hupper) hpositive.le
        have hrest : 0 ≤ precision * size significand (-308) := by positivity
        refine hmul.trans ?_
        linarith
    refine (abs_sub_le _ _ _).trans ((add_le_add (hround.trans hmax) hquotient).trans ?_)
    linarith
  have hoff := abs_div_powTen_sub_le hn (by positivity) (by linarith) (by norm_num) hfirstOff
  have hten : (10 : ℚ) ≤ 10 ^ n := by
    simpa using pow_le_pow_right₀ (by norm_num : (1 : ℚ) ≤ 10) hn₀
  have hconst : 17 / 16 * (1 / 2 / 10 ^ n : ℚ) ≤ 1 / 16 := by
    have : (1 / 2 / 10 ^ n : ℚ) ≤ 1 / 2 / 10 := by gcongr
    linarith
  have hnear := near_of_size (r := 67 / 16) (c := 1 / 16) h (by norm_num) (by norm_num)
    (hoff.trans (by linarith))
  refine (abs_units_ofRatio_sub_units_le hden' hsecond (by norm_num) hnear).trans ?_
  gcongr
  norm_num

end Steps
section Scale

variable {x : Binary64} {significand : ℕ} {power : ℤ}

theorem power_le (hx : x.isFinite) (hpos : 0 < significand)
    (h : |size significand power - x.units| ≤ 2 ^ x.spacing / 2) : power ≤ 308 := by
  obtain ⟨u, hu, hone⟩ := exists_unitExponent
  have hle := size_le h
  by_contra hlt
  have hsignificand : (1 : ℚ) ≤ significand := by exact_mod_cast hpos
  have hpow : (10 : ℚ) ^ (309 : ℤ) ≤ 10 ^ power := zpow_le_zpow_right₀ (by norm_num) (by omega)
  have hspacing : (2 : ℚ) ^ x.spacing ≤ 2 ^ (971 + u) :=
    pow_le_pow_right₀ (by norm_num) (by have := spacing_le hx; omega)
  have hlarge : (2 ^ 1024 : ℚ) < 10 ^ (309 : ℤ) := by
    exact_mod_cast powers_compare.2.1
  have hcontra : (10 : ℚ) ^ (309 : ℤ) * 2 ^ u ≤ 2 ^ 1024 * 2 ^ u :=
    calc (10 : ℚ) ^ (309 : ℤ) * 2 ^ u ≤ 1 * 10 ^ power * 2 ^ u := by
          rw [one_mul]
          gcongr
      _ ≤ significand * 10 ^ power * 2 ^ u := by gcongr
      _ = size significand power := by
          rw [size, hone]
          push_cast
          rfl
      _ ≤ 2 ^ 53 * 2 ^ x.spacing := hle
      _ ≤ 2 ^ 53 * 2 ^ (971 + u) := by gcongr
      _ = 2 ^ 1024 * 2 ^ u := by rw [pow_add, ← mul_assoc, ← pow_add]
  exact (hlarge.trans_le (le_of_mul_le_mul_right hcontra (by positivity))).false

theorem le_power (h₀ : x.magnitude ≠ 0) (hword : significand < wordLimit)
    (h : |size significand power - x.units| ≤ 2 ^ x.spacing / 2) : -616 ≤ power := by
  obtain ⟨u, hu, hone⟩ := exists_unitExponent
  by_contra hlt
  have hsignificand : (significand : ℚ) ≤ 2 ^ 64 := by
    have : significand ≤ 2 ^ 64 := hword.le
    exact_mod_cast this
  have hpow : (10 : ℚ) ^ power ≤ 10 ^ (-617 : ℤ) := zpow_le_zpow_right₀ (by norm_num) (by omega)
  have hhalf : (1 / 2 : ℚ) ≤ size significand power := by
    have hunits : (2 ^ x.spacing : ℚ) ≤ x.units := by exact_mod_cast two_pow_spacing_le_units h₀
    have := one_le_two_pow_cast x.spacing
    have := (abs_le.1 h).1
    linarith
  have hsmall : (2 * (2 ^ 64 * 2 ^ u) : ℚ) < 10 ^ 617 := by
    exact_mod_cast hu ▸ powers_compare.2.2
  have hle : size significand power ≤ 2 ^ 64 * 10 ^ (-617 : ℤ) * 2 ^ u := by
    rw [size, hone, Nat.cast_pow, Nat.cast_ofNat]
    gcongr
  have hinverse : (2 ^ 64 * 10 ^ (-617 : ℤ) * 2 ^ u : ℚ) = 2 ^ 64 * 2 ^ u / 10 ^ 617 := by
    rw [zpow_neg, mul_right_comm, div_eq_mul_inv]
    rfl
  rw [hinverse] at hle
  have hcontra := (le_div_iff₀ (by positivity)).1 (hhalf.trans hle)
  generalize (10 : ℚ) ^ 617 = limit at *
  linarith

/-- Digits and a power that were printed for a value are put together, to a value near it. -/
theorem exists_scale (hx : x.magnitude + 4 < infinityMagnitude) (h₀ : x.magnitude ≠ 0)
    (hpos : 0 < significand) (hword : significand < wordLimit)
    (h : |size significand power - x.units| ≤ 2 ^ x.spacing / 2) :
    ∃ y, scale significand power = some y ∧ y.isNegative = false
      ∧ |(y.units : ℚ) - x.units| ≤ 6 * 2 ^ x.spacing := by
  have hhigh := power_le ((isFinite_iff x).2 (by omega)) hpos h
  have hlow := le_power h₀ hword h
  have hwiden : (4 * 2 ^ x.spacing : ℚ) ≤ 6 * 2 ^ x.spacing := by
    gcongr
    norm_num
  rw [scale, if_neg (by omega)]
  by_cases hmul : 0 ≤ power
  · obtain ⟨n, rfl⟩ := Int.eq_ofNat_of_zero_le hmul
    obtain ⟨hfinite, hnear⟩ := near_mul_powTen hx hpos hword (by omega) h
    rw [if_pos hmul, Int.toNat_natCast, if_pos hfinite]
    exact ⟨_, rfl, isNegative_ofRatio .., hnear.trans hwiden⟩
  · rw [if_neg hmul]
    by_cases hdiv : -308 ≤ power
    · obtain ⟨n, hn⟩ := Int.eq_ofNat_of_zero_le (show 0 ≤ -power by omega)
      obtain rfl : power = -n := by omega
      rw [if_pos hdiv, neg_neg, Int.toNat_natCast]
      exact ⟨_, rfl, isNegative_ofRatio .., (near_div_powTen hpos hword (by omega) h).trans hwiden⟩
    · obtain ⟨n, hn⟩ := Int.eq_ofNat_of_zero_le (show 0 ≤ -power - 308 by omega)
      obtain rfl : power = -308 - n := by omega
      rw [if_neg hdiv, if_pos hlow, hn, Int.toNat_natCast]
      exact ⟨_, rfl, isNegative_ofRatio .., near_div_div_powTen hpos hword (by omega) (by omega) h⟩

theorem units_powTen {n : ℕ} (hn : n ≤ 22) : (powTen n).units = 10 ^ n * unitsPerOne := by
  have hsplit : Nat.pow 10 n = 5 ^ n * 2 ^ n := by rw [Nat.pow_eq, ← Nat.mul_pow]
  have hsmall : 5 ^ n < 2 ^ 53 :=
    (Nat.pow_le_pow_right (by decide) hn).trans_lt (by decide : 5 ^ 22 < 2 ^ 53)
  have hfinite := isFinite_powTen (n := n) (by omega)
  rw [powTen, hsplit] at hfinite
  rw [powTen, hsplit, units_ofNat hsmall hfinite, ← hsplit, Nat.pow_eq]

theorem magnitude_ofNat_of_holds (hx : x.isFinite) (h : x.interval.Holds (4 * size significand 0)) :
    (ofNat significand).magnitude = x.magnitude := by
  refine magnitude_ofRatio_of_holds hx Nat.one_pos ?_
  simpa [size] using h

theorem exists_scale_of_holds (hx : x.isFinite) {m i : ℕ} (hm : m < 2 ^ 53)
    (hsplit : significand = m * 2 ^ i) (hword : significand < wordLimit) (hlow : -22 ≤ power)
    (hup : power ≤ 22) (h : x.interval.Holds (4 * size significand power)) :
    ∃ y, scale significand power = some y ∧ y.isNegative = false ∧ y.magnitude = x.magnitude := by
  have hone := unitsPerOne_cast_pos
  have hunits : (ofNat significand).units = significand * unitsPerOne := by
    have hfinite := isFinite_word hword
    rw [hsplit] at hfinite ⊢
    exact units_ofNat hm hfinite
  rw [scale, if_neg (by omega)]
  by_cases hmul : 0 ≤ power
  · obtain ⟨n, rfl⟩ := Int.eq_ofNat_of_zero_le hmul
    have hmag : ((ofNat significand).mul (powTen n)).magnitude = x.magnitude := by
      refine magnitude_ofRatio_of_holds hx (Nat.mul_pos unitsPerOne_pos unitsPerOne_pos) ?_
      rw [hunits, units_powTen (by omega)]
      convert h using 2
      rw [size, zpow_natCast]
      push_cast
      field_simp
    have hfinite : ((ofNat significand).mul (powTen n)).isFinite := by
      rwa [isFinite_iff, hmag, ← isFinite_iff]
    rw [if_pos hmul, Int.toNat_natCast, if_pos hfinite]
    exact ⟨_, rfl, isNegative_ofRatio .., hmag⟩
  · obtain ⟨n, hn⟩ := Int.eq_ofNat_of_zero_le (show 0 ≤ -power by omega)
    obtain rfl : power = -n := by omega
    rw [if_neg hmul, if_pos (by omega), neg_neg, Int.toNat_natCast]
    refine ⟨_, rfl, isNegative_ofRatio .., magnitude_ofRatio_of_holds hx ?_ ?_⟩
    · exact unitsPerOne_pos.trans_le (le_units_powTen n)
    · rw [hunits, units_powTen (by omega)]
      convert h using 2
      rw [size, zpow_neg, zpow_natCast]
      push_cast
      field_simp

end Scale
end ValidatorGen.Numeral
