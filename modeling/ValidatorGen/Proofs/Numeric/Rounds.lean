import ValidatorGen.Proofs.Numeric.Accuracy

/-! Rounding to the nearest value. Values of one sign are ordered like their magnitudes, and the
interval of a value ends half way to its neighbours. Main statements: a number rounds to one value
only, and the numbers in the interval of a value round to it. -/
namespace ValidatorGen

def signFactor (negative : Bool) : ℚ := if negative then -1 else 1

@[simp] theorem abs_signFactor (negative : Bool) : |signFactor negative| = 1 := by
  cases negative <;> simp [signFactor]

@[simp] theorem signFactor_mul_self (negative : Bool) :
    signFactor negative * signFactor negative = 1 := by
  cases negative <;> norm_num [signFactor]

namespace Binary64

attribute [local irreducible] unitsPerOne

/-- The number that a value stands for. Infinity stands for the power of two that would come after
the largest finite value. -/
def toRat (x : Binary64) : ℚ := signFactor x.isNegative * (x.units / unitsPerOne)

/-- Rounding to the nearest value, and to the one with an even last bit if two are equally near.
Zero has no minus sign. -/
structure RoundsTo (q : ℚ) (x : Binary64) : Prop where
  isNumber : x.isNaN = false
  sign : x.isNegative = decide (q < 0)
  nearest (y : Binary64) : y.isNaN = false → |x.toRat - q| ≤ |y.toRat - q|
  even (y : Binary64) : y.isNaN = false → |x.toRat - q| = |y.toRat - q| →
    y.toRat = x.toRat ∨ x.magnitude % 2 = 0

section Order

variable {x y : Binary64}

theorem exists_magnitude_eq (negative : Bool) {m : ℕ} (h : m < signWeight) :
    ∃ z : Binary64, z.isNegative = negative ∧ z.magnitude = m :=
  ⟨_, isNegative_ofMagnitude negative m, magnitude_ofMagnitude negative h⟩

theorem units_of_next (h : y.magnitude = x.magnitude + 1) : y.units = x.units + 2 ^ x.spacing := by
  have hmag : y.magnitude = x.spacing * binade + (x.kept + 1) := by
    have := x.magnitude_eq
    omega
  have hlow : x.spacing = 0 ∨ binade ≤ x.kept + 1 :=
    x.spacing_eq_zero_or.imp_right Nat.le_succ_of_le
  rw [units_of_magnitude_eq hmag hlow x.kept_lt_two_pow, x.units_eq, Nat.succ_mul]

theorem units_lt_of_magnitude_lt (h : x.magnitude < y.magnitude) : x.units < y.units := by
  obtain ⟨k, hk⟩ := Nat.exists_eq_add_of_lt h
  induction k generalizing y with
  | zero =>
    have hpos : 0 < 2 ^ x.spacing := Nat.two_pow_pos _
    have hnext := units_of_next hk
    omega
  | succ k ih =>
    have hbound : x.magnitude + k + 1 < signWeight := by
      have := y.magnitude_lt
      omega
    obtain ⟨z, -, hz⟩ := exists_magnitude_eq false hbound
    have hpos : 0 < 2 ^ z.spacing := Nat.two_pow_pos _
    have hbelow := ih (y := z) (by omega) hz
    have hnext := units_of_next (x := z) (y := y) (by omega)
    omega

theorem units_le_of_magnitude_le (h : x.magnitude ≤ y.magnitude) : x.units ≤ y.units := by
  rcases Nat.lt_or_eq_of_le h with hlt | heq
  · exact (units_lt_of_magnitude_lt hlt).le
  · rw [units, units, spacing, spacing, heq]

theorem units_lt_iff : x.units < y.units ↔ x.magnitude < y.magnitude := by
  refine ⟨fun h => ?_, units_lt_of_magnitude_lt⟩
  by_contra hle
  exact absurd (units_le_of_magnitude_le (not_lt.1 hle)) (not_le.2 h)

theorem units_eq_iff : x.units = y.units ↔ x.magnitude = y.magnitude := by
  have hlt := units_lt_iff (x := x) (y := y)
  have hgt := units_lt_iff (x := y) (y := x)
  omega

theorem units_eq_zero_iff : x.units = 0 ↔ x.magnitude = 0 :=
  units_eq_iff (y := ⟨0⟩)

/-- Below a power of two the spacing is half of what it is above. -/
theorem reach_of_next (h : x.magnitude = y.magnitude + 1) : x.reach = 2 * 2 ^ y.spacing := by
  have hpos := binade_pos
  have hdiv := Nat.div_add_mod x.magnitude binade
  unfold reach spacing
  split
  · next hpower =>
    obtain ⟨hmod, hlarge⟩ := hpower
    obtain ⟨d, hd⟩ : ∃ d, x.magnitude / binade = d + 2 := by
      refine Nat.exists_eq_add_of_le' ?_
      by_contra hless
      have hle : binade * (x.magnitude / binade) ≤ binade * 1 := Nat.mul_le_mul_left _ (by omega)
      omega
    have hbelow : y.magnitude / binade = d + 1 := by
      rw [hd, hmod] at hdiv
      have hsplit : binade * (d + 2) = binade * (d + 1) + binade := Nat.mul_succ ..
      have hcomm := Nat.mul_comm binade (d + 1)
      exact Nat.div_eq_of_lt_le (by omega) (by rw [Nat.succ_mul]; omega)
    rw [hd, hbelow, ← pow_succ']
    rfl
  · next hpower =>
    have hsame : x.magnitude / binade - 1 = y.magnitude / binade - 1 := by
      rcases Nat.eq_zero_or_pos (x.magnitude % binade) with hmod | hmod
      · have hsmall : y.magnitude / binade = 0 := Nat.div_eq_of_lt (by omega)
        have hone : x.magnitude / binade ≤ 1 := Nat.div_le_of_le_mul (by omega)
        omega
      · have hbelow : y.magnitude / binade = x.magnitude / binade := by
          have hlt := Nat.mod_lt x.magnitude hpos
          have hcomm := Nat.mul_comm binade (x.magnitude / binade)
          exact Nat.div_eq_of_lt_le (by omega) (by rw [Nat.succ_mul]; omega)
        rw [hbelow]
    rw [hsame]

/-- Above, the interval of a value ends half way to the next one. -/
theorem interval_upper_of_next (h : y.magnitude = x.magnitude + 1) :
    x.interval.upper = 2 * (x.units + y.units) := by
  have hnext := units_of_next h
  rw [interval_upper]
  omega

theorem interval_lower_of_next (h : x.magnitude = y.magnitude + 1) :
    x.interval.lower = 2 * (x.units + y.units) := by
  have hnext := units_of_next h
  have hreach := reach_of_next h
  rw [interval_lower]
  omega

end Order

section Distance

variable {a b c s : ℚ}

theorem abs_sub_le_of_le_middle (hab : a < b) (hbc : b ≤ c) (hs : 2 * s ≤ a + b) :
    |a - s| ≤ |c - s| ∧ (|a - s| = |c - s| → 2 * s = a + b) := by
  have hc : |c - s| = c - s := abs_of_nonneg (by linarith)
  rw [hc]
  rcases abs_cases (a - s) with ⟨h, -⟩ | ⟨h, -⟩
  · rw [h]
    exact ⟨by linarith, fun _ => by linarith⟩
  · rw [h]
    exact ⟨by linarith, fun _ => by linarith⟩

theorem abs_sub_le_of_middle_le (hab : b < a) (hbc : c ≤ b) (hs : a + b ≤ 2 * s) :
    |a - s| ≤ |c - s| ∧ (|a - s| = |c - s| → 2 * s = a + b) := by
  have hmirror := abs_sub_le_of_le_middle (neg_lt_neg hab) (neg_le_neg hbc)
    (show 2 * -s ≤ -a + -b by linarith)
  simp only [neg_sub_neg, abs_sub_comm s] at hmirror
  exact ⟨hmirror.1, fun h => by linarith [hmirror.2 h]⟩

/-- Between two points that are equally far away there is a nearer one. -/
theorem abs_sub_lt_of_between (hac : a < c) (hcb : c < b) (h : |a - s| = |b - s|) :
    |c - s| < |a - s| := by
  have hmiddle : a - s = -(b - s) := (abs_eq_abs.1 h).resolve_left fun hsame => by linarith
  have hb : |b - s| = b - s := abs_of_pos (by linarith)
  rw [h, hb]
  exact abs_lt.2 ⟨by linarith, by linarith⟩

end Distance

section Nearest

variable {x : Binary64} {s : ℚ}

/-- No value is nearer to what its interval holds, and an odd one is nearer than all others. -/
theorem abs_units_sub_le (h : x.interval.Holds (4 * s)) (y : Binary64) :
    |x.units - s| ≤ |y.units - s|
      ∧ (|x.units - s| = |y.units - s| → y.units = x.units ∨ x.magnitude % 2 = 0) := by
  obtain ⟨hlow, hup, hopen⟩ := h
  have heven : x.interval.closed = true → x.magnitude % 2 = 0 := beq_iff_eq.1
  rcases lt_trichotomy x.magnitude y.magnitude with hlt | heq | hgt
  · obtain ⟨z, -, hz⟩ := exists_magnitude_eq false
      (show x.magnitude + 1 < signWeight from lt_of_le_of_lt hlt y.magnitude_lt)
    have hxz : (x.units : ℚ) < z.units := by exact_mod_cast units_lt_of_magnitude_lt (by omega)
    have hzy : (z.units : ℚ) ≤ y.units := by exact_mod_cast units_le_of_magnitude_le (by omega)
    rw [interval_upper_of_next hz] at hup hopen
    push_cast at hup hopen
    have hs : 2 * s ≤ x.units + z.units := by linarith
    obtain ⟨hle, hmiddle⟩ := abs_sub_le_of_le_middle hxz hzy hs
    refine ⟨hle, fun hsame => .inr (heven (hopen.resolve_right fun hopen => ?_))⟩
    linarith [hmiddle hsame]
  · have hunits : (y.units : ℚ) = x.units := by exact_mod_cast (units_eq_iff.2 heq).symm
    rw [hunits]
    exact ⟨le_rfl, fun _ => .inl (units_eq_iff.2 heq).symm⟩
  · obtain ⟨z, -, hz⟩ := exists_magnitude_eq false (show x.magnitude - 1 < signWeight from
      (Nat.sub_le ..).trans_lt x.magnitude_lt)
    have hzx : (z.units : ℚ) < x.units := by exact_mod_cast units_lt_of_magnitude_lt (by omega)
    have hyz : (y.units : ℚ) ≤ z.units := by exact_mod_cast units_le_of_magnitude_le (by omega)
    rw [interval_lower_of_next (y := z) (by omega)] at hlow hopen
    push_cast at hlow hopen
    have hs : x.units + z.units ≤ 2 * s := by linarith
    obtain ⟨hle, hmiddle⟩ := abs_sub_le_of_middle_le hzx hyz hs
    refine ⟨hle, fun hsame => .inr (heven (hopen.resolve_right fun hopen => ?_))⟩
    linarith [hmiddle hsame]

/-- Of values with the sign of a number, only the sizes count. -/
theorem abs_toRat_sub (x : Binary64) (s : ℚ) :
    |x.toRat - signFactor x.isNegative * (s / unitsPerOne)| = |x.units - s| / unitsPerOne := by
  rw [toRat, ← mul_sub, abs_mul, abs_signFactor, one_mul, ← sub_div, abs_div,
    abs_of_pos unitsPerOne_cast_pos]

theorem abs_toRat_sub_of_ne {negative : Bool} (h : x.isNegative ≠ negative) (hs : 0 ≤ s) :
    |x.toRat - signFactor negative * (s / unitsPerOne)| = (x.units + s) / unitsPerOne := by
  have hneg : signFactor negative = -signFactor x.isNegative := by
    cases negative <;> cases hsign : x.isNegative <;> simp_all [signFactor]
  have hunits : (0 : ℚ) ≤ x.units := Nat.cast_nonneg _
  have hone := unitsPerOne_cast_pos
  rw [toRat, hneg, neg_mul, sub_neg_eq_add, ← mul_add, abs_mul, abs_signFactor, one_mul, ← add_div,
    abs_of_nonneg (by positivity)]

theorem le_abs_toRat_sub (y : Binary64) (negative : Bool) (hs : 0 ≤ s) :
    |y.units - s| / unitsPerOne ≤ |y.toRat - signFactor negative * (s / unitsPerOne)| := by
  by_cases h : y.isNegative = negative
  · rw [← h, abs_toRat_sub]
  · have hunits : (0 : ℚ) ≤ y.units := Nat.cast_nonneg _
    have hone := unitsPerOne_cast_pos
    rw [abs_toRat_sub_of_ne h hs]
    gcongr
    exact abs_le.2 ⟨by linarith, by linarith⟩

theorem roundsTo_of_holds (hx : x.isFinite) (hs : 0 < s) (h : x.interval.Holds (4 * s)) :
    RoundsTo (signFactor x.isNegative * (s / unitsPerOne)) x where
  isNumber := not_isNaN_of_isFinite hx
  sign := by
    have hsize : 0 < s / unitsPerOne := div_pos hs unitsPerOne_cast_pos
    cases x.isNegative with
    | false => simpa [signFactor] using hsize.le
    | true => simpa [signFactor] using hsize
  nearest y _ := by
    have hone := unitsPerOne_cast_pos
    refine le_trans ?_ (le_abs_toRat_sub y x.isNegative hs.le)
    rw [abs_toRat_sub, div_le_div_iff_of_pos_right hone]
    exact (abs_units_sub_le h y).1
  even y _ hsame := by
    have hone := unitsPerOne_cast_pos
    obtain ⟨hle, htie⟩ := abs_units_sub_le h y
    rw [abs_toRat_sub] at hsame
    by_cases hsign : y.isNegative = x.isNegative
    · rw [← hsign, abs_toRat_sub, div_left_inj' hone.ne'] at hsame
      refine (htie hsame).imp_left fun hunits => ?_
      rw [toRat, toRat, hsign, hunits]
    · rw [abs_toRat_sub_of_ne hsign hs.le, div_left_inj' hone.ne'] at hsame
      -- only zero is as near with the other sign
      have hzero : (y.units : ℚ) = 0 := by
        have hunits : (0 : ℚ) ≤ y.units := Nat.cast_nonneg _
        rcases abs_cases ((y.units : ℚ) - s) with ⟨habs, -⟩ | ⟨habs, -⟩ <;> linarith
      have hdistance : |(x.units : ℚ) - s| = |(y.units : ℚ) - s| := by
        rw [hsame, hzero, zero_add, zero_sub, abs_neg, abs_of_pos hs]
      refine (htie hdistance).imp_left fun hunits => ?_
      rw [toRat, toRat, ← hunits, hzero, zero_div, mul_zero, mul_zero]

theorem roundsTo_zero : RoundsTo 0 ⟨0⟩ where
  isNumber := by decide
  sign := by decide
  nearest y _ := by
    have hunits : units ⟨0⟩ = 0 := by decide
    have hzero : toRat ⟨0⟩ = 0 := by simp [toRat, hunits]
    rw [hzero, sub_zero, abs_zero]
    exact abs_nonneg _
  even _ _ _ := .inr (by decide)

end Nearest

/-- What a number rounds to has no larger value with its sign that the number rounds to as well. -/
theorem RoundsTo.not_magnitude_lt {q : ℚ} {x y : Binary64} (hx : RoundsTo q x) (hy : RoundsTo q y) :
    ¬x.magnitude < y.magnitude := by
  intro hlt
  obtain ⟨s, hs⟩ : ∃ s, q = signFactor x.isNegative * (s / unitsPerOne) := by
    refine ⟨signFactor x.isNegative * q * unitsPerOne, ?_⟩
    rw [mul_div_cancel_right₀ _ unitsPerOne_cast_pos.ne', ← mul_assoc, signFactor_mul_self, one_mul]
  have hone := unitsPerOne_cast_pos
  have hsign : y.isNegative = x.isNegative := hy.sign.trans hx.sign.symm
  have hdistance (z : Binary64) (hz : z.isNegative = x.isNegative) :
      |z.toRat - q| = |z.units - s| / unitsPerOne := by rw [hs, ← hz, abs_toRat_sub]
  have hsame : |x.toRat - q| = |y.toRat - q| :=
    le_antisymm (hx.nearest y hy.isNumber) (hy.nearest x hx.isNumber)
  have hunits : (x.units : ℚ) < y.units := by exact_mod_cast units_lt_of_magnitude_lt hlt
  have hne : x.toRat ≠ y.toRat := by
    intro heq
    rw [toRat, toRat, hsign] at heq
    have hfactor : signFactor x.isNegative ≠ 0 := by
      intro hzero
      have habs := abs_signFactor x.isNegative
      rw [hzero, abs_zero] at habs
      exact zero_ne_one habs
    rw [mul_right_inj' hfactor, div_left_inj' hone.ne'] at heq
    exact hunits.ne heq
  -- both are even, so there is a value between them
  have hevenx := (hx.even y hy.isNumber hsame).resolve_left hne.symm
  have heveny := (hy.even x hx.isNumber hsame.symm).resolve_left hne
  obtain ⟨z, hzsign, hz⟩ := exists_magnitude_eq x.isNegative
    (show x.magnitude + 1 < signWeight from lt_of_le_of_lt hlt y.magnitude_lt)
  have hnan : z.isNaN = false := by
    have hnumber := hy.isNumber
    simp only [isNaN, decide_eq_false_iff_not] at hnumber ⊢
    omega
  have hxz : (x.units : ℚ) < z.units := by exact_mod_cast units_lt_of_magnitude_lt (by omega)
  have hzy : (z.units : ℚ) < y.units := by exact_mod_cast units_lt_of_magnitude_lt (by omega)
  rw [hdistance x rfl, hdistance y hsign, div_left_inj' hone.ne'] at hsame
  have hnearer := abs_sub_lt_of_between hxz hzy hsame
  have hnearest := hx.nearest z hnan
  rw [hdistance x rfl, hdistance z hzsign, div_le_div_iff_of_pos_right hone] at hnearest
  exact absurd hnearest (not_le.2 hnearer)

theorem RoundsTo.unique {q : ℚ} {x y : Binary64} (hx : RoundsTo q x) (hy : RoundsTo q y) :
    x = y := by
  have hsign : x.isNegative = y.isNegative := hx.sign.trans hy.sign.symm
  have hmag : x.magnitude = y.magnitude :=
    Nat.le_antisymm (not_lt.1 (hy.not_magnitude_lt hx)) (not_lt.1 (hx.not_magnitude_lt hy))
  rw [← x.ofMagnitude_magnitude, ← y.ofMagnitude_magnitude, hsign, hmag]

end Binary64
end ValidatorGen
