import ValidatorGen.Proofs.Numeric.Rounds
import ValidatorGen.Proofs.Reading.Digits

/-! Literals of values, read again. Main statement: what is read is near the value that was printed,
and has its literal if the value is a whole number of one word or has few digits and a small power of
ten. -/
namespace ValidatorGen.Binary64

open Numeral

attribute [local irreducible] unitsPerOne

/-- Whole numbers of one word. -/
def IsWord (x : Binary64) : Prop := unitsPerOne ∣ x.units ∧ x.units < wordLimit * unitsPerOne

/-- Decimals whose digits and power of ten are values themselves. A whole number without an exponent
that does not fit in a word counts its zeros as digits. -/
def IsShort (x : Binary64) : Prop :=
  (x.shortest .up).significand < 2 ^ 53 ∧ -22 ≤ (x.shortest .up).power
    ∧ (x.shortest .up).power ≤ 22
    ∧ (x.hasExponent = false →
      (x.shortest .up).significand * 10 ^ (x.shortest .up).power.toNat < wordLimit
      ∨ (x.shortest .up).significand * 5 ^ (x.shortest .up).power.toNat < 2 ^ 53)

instance (x : Binary64) : Decidable x.IsShort := inferInstanceAs (Decidable (_ ∧ _))

section Word

variable {x : Binary64}

/-- Sizes are whole multiples of their spacing. -/
theorem units_add_spacing_le (h : x.magnitude ≠ 0) {k : ℕ} (hk : x.units < 2 ^ k) :
    x.units + 2 ^ x.spacing ≤ 2 ^ k := by
  have hle : x.spacing ≤ k :=
    (Nat.pow_le_pow_iff_right (by decide)).1 ((two_pow_spacing_le_units h).trans hk.le)
  obtain ⟨j, rfl⟩ := Nat.exists_eq_add_of_le' hle
  rw [x.units_eq, pow_add] at *
  have hlt := Nat.lt_of_mul_lt_mul_right hk
  calc x.kept * 2 ^ x.spacing + 2 ^ x.spacing = (x.kept + 1) * 2 ^ x.spacing :=
        (Nat.succ_mul ..).symm
    _ ≤ 2 ^ j * 2 ^ x.spacing := Nat.mul_le_mul_right _ hlt

theorem IsWord.hasExponent_eq_false (h : x.IsWord) : x.hasExponent = false := by
  obtain ⟨hwhole, hlt⟩ := h
  have hupper : x.magnitude < exponentLimit := by
    have hword : wordLimit ≤ 10 ^ 21 := by decide
    rw [exponentLimit, ← units_lt_iff, units_powTen (by decide)]
    exact hlt.trans_le (Nat.mul_le_mul_right _ hword)
  have hlower : x.magnitude ≠ 0 → fractionLimit ≤ x.magnitude := by
    intro h₀
    have hone : (ofRatio 1 1000000).units ≤ 2 ^ 0 * unitsPerOne := units_ofRatio_le (by decide)
    have hle : unitsPerOne ≤ x.units := Nat.le_of_dvd (units_pos h₀) hwhole
    refine not_lt.1 fun hless => ?_
    have hunits := units_lt_iff.2 hless
    omega
  rw [hasExponent, Bool.or_eq_false_iff, Bool.and_eq_false_iff]
  refine ⟨by simpa using hupper, ?_⟩
  by_cases h₀ : x.magnitude = 0
  · exact .inl (by simpa using h₀)
  · exact .inr (by simpa using hlower h₀)

theorem IsWord.lt_wordLimit (h : x.IsWord) (h₀ : x.magnitude ≠ 0) {n : ℕ}
    (hn : x.interval.Holds (4 * size n 0)) : n < wordLimit := by
  obtain ⟨u, hu, hone⟩ := exists_unitExponent
  have hword : wordLimit = 2 ^ 64 := by decide
  have hlt : x.units < 2 ^ (64 + u) := by
    rw [pow_add, ← hone]
    exact h.2
  have hadd := units_add_spacing_le h₀ hlt
  have hcast : (x.units + 2 ^ x.spacing : ℚ) ≤ 2 ^ 64 * unitsPerOne := by
    rw [pow_add, ← hone] at hadd
    exact_mod_cast hadd
  have hup := (abs_le.1 (abs_sub_units_le_of_holds hn)).2
  have hspacing := one_le_two_pow_cast x.spacing
  rw [size, zpow_zero, mul_one] at hup
  have hsize : (n * unitsPerOne : ℚ) < 2 ^ 64 * unitsPerOne := by linarith
  rw [hword]
  exact_mod_cast lt_of_mul_lt_mul_right hsize unitsPerOne_cast_pos.le

end Word

/-- What the literal of a value other than zero is put together from. -/
inductive PutTogether (x : Binary64) : Option Number → Prop
  | whole {n : ℕ} : n < wordLimit → x.interval.Holds (4 * size n 0) →
    PutTogether x (some (integerValue x.isNegative n))
  | scaled {significand : ℕ} {power : ℤ} : 0 < significand → significand < wordLimit →
    x.interval.Holds (4 * size significand power) → ¬x.IsWord →
    (x.IsShort → (∃ m i, m < 2 ^ 53 ∧ significand = m * 2 ^ i) ∧ -22 ≤ power ∧ power ≤ 22) →
    PutTogether x (scaled? x.isNegative significand power)

section Literal

variable {x : Binary64}

theorem IsShort.parts (h : x.IsShort) :
    (∃ m i, m < 2 ^ 53 ∧ (x.shortest .up).significand = m * 2 ^ i)
      ∧ -22 ≤ (x.shortest .up).power ∧ (x.shortest .up).power ≤ 22 :=
  ⟨⟨_, 0, h.1, by rw [pow_zero, Nat.mul_one]⟩, h.2.1, h.2.2.1⟩

theorem significand_lt_wordLimit (h₀ : x.magnitude ≠ 0) :
    (x.shortest .up).significand < wordLimit :=
  (significand_shortest h₀ .up).2.trans (by decide)

theorem putTogether_scientificNumeral (h₀ : x.magnitude ≠ 0) (hexponent : x.hasExponent) :
    PutTogether x ((x.shortest .up).scientificNumeral x.isNegative).value? := by
  have hword := significand_lt_wordLimit h₀
  have hcoefficient := (x.shortest .up).coefficient_scientificNumeral x.isNegative
  have hvalue := value?_of_lt (hcoefficient ▸ hword)
  rw [hcoefficient, Decimal.power_scientificNumeral _ (shortest_digits h₀ .up).1.1] at hvalue
  rw [hvalue, if_neg (by simp [Decimal.scientificNumeral])]
  refine .scaled (significand_shortest h₀ .up).1 hword (holds_shortest h₀ .up) (fun hwhole => ?_)
    IsShort.parts
  rw [hwhole.hasExponent_eq_false] at hexponent
  cases hexponent

theorem putTogether_of_fraction (h₀ : x.magnitude ≠ 0) (hfraction : (x.shortest .up).power < 0) :
    PutTogether x ((x.shortest .up).positionalNumeral x.isNegative).value? := by
  have hword := significand_lt_wordLimit h₀
  obtain ⟨hcoefficient, hpower, hsome⟩ :=
    Decimal.parts_positionalNumeral x.isNegative (shortest_digits h₀ .up).1.1 hfraction
  have hvalue := value?_of_lt (hcoefficient ▸ hword)
  rw [hcoefficient, hpower, hsome] at hvalue
  rw [hvalue, if_neg (by simp)]
  refine .scaled (significand_shortest h₀ .up).1 hword (holds_shortest h₀ .up) (fun hwhole => ?_)
    IsShort.parts
  obtain ⟨m, hm⟩ := hwhole.1
  have := power_shortest_nonneg h₀ .up (Nat.mul_comm unitsPerOne m ▸ hm)
  omega

theorem putTogether_of_whole (h₀ : x.magnitude ≠ 0) (hexponent : x.hasExponent = false) {p : ℕ}
    (hp : (x.shortest .up).power = p) :
    PutTogether x ((x.shortest .up).positionalNumeral x.isNegative).value? := by
  have hword := significand_lt_wordLimit h₀
  have hholds := holds_shortest h₀ .up
  rw [Decimal.positionalNumeral_of_whole x.isNegative (shortest_digits h₀ .up).1.1
    (hp ▸ Int.natCast_nonneg p), hp, Int.toNat_natCast]
  rw [hp] at hholds
  by_cases hfits : (x.shortest .up).significand * 10 ^ p < wordLimit
  · have hcoefficient : coefficient
        ⟨x.isNegative, (x.shortest .up).digits ++ List.replicate p '0', none, none⟩
          = (x.shortest .up).significand * 10 ^ p := by
      rw [coefficient, Option.getD_none, List.append_nil, Nat.ofDigitChars_append,
        Nat.ofDigitChars_replicate_zero, Nat.mul_comm, Decimal.significand]
    rw [value?_of_lt (hcoefficient ▸ hfits), hcoefficient]
    refine .whole hfits ?_
    rwa [size_mul_pow, zero_add]
  · obtain ⟨taken, left, hcount, hlt, hvalue⟩ :=
      value?_of_zeros x.isNegative hword (not_lt.1 hfits)
    have hten : 0 < 10 ^ taken := Nat.pow_pos (by decide)
    rw [hvalue]
    refine .scaled (Nat.mul_pos (significand_shortest h₀ .up).1 hten) hlt ?_ (fun hwhole => ?_) ?_
    · rw [← Decimal.significand, size_mul_pow]
      convert hholds using 3
      omega
    · refine hfits (hwhole.lt_wordLimit h₀ ?_)
      rwa [size_mul_pow, zero_add]
    · rintro ⟨-, -, hsmall, hzeros⟩
      have hfive := (hzeros hexponent).resolve_left (by rwa [hp])
      rw [hp, Int.toNat_natCast] at hfive
      refine ⟨⟨(x.shortest .up).significand * 5 ^ taken, taken, ?_, ?_⟩, by omega, by omega⟩
      · have hle : 5 ^ taken ≤ 5 ^ p := Nat.pow_le_pow_right (by decide) (by omega)
        exact (Nat.mul_le_mul_left _ hle).trans_lt hfive
      · rw [Nat.mul_assoc, ← Nat.mul_pow]
        rfl

theorem putTogether_literalNumeral (h₀ : x.magnitude ≠ 0) :
    PutTogether x x.literalNumeral.value? := by
  rw [literalNumeral, if_neg h₀]
  by_cases hexponent : x.hasExponent
  · rw [if_pos hexponent]
    exact putTogether_scientificNumeral h₀ hexponent
  · rw [if_neg hexponent]
    by_cases hfraction : (x.shortest .up).power < 0
    · exact putTogether_of_fraction h₀ hfraction
    · obtain ⟨p, hp⟩ := Int.eq_ofNat_of_zero_le (not_lt.1 hfraction)
      exact putTogether_of_whole h₀ (Bool.eq_false_iff.2 hexponent) hp

end Literal

def withSign (negative : Bool) (x : Binary64) : Binary64 := if negative then x.negate else x

section WithSign

variable {x y : Binary64}

theorem magnitude_withSign (negative : Bool) (x : Binary64) :
    (withSign negative x).magnitude = x.magnitude := by
  unfold withSign
  split
  · exact magnitude_negate x
  · rfl

theorem isNegative_withSign (negative : Bool) (h : x.isNegative = false) :
    (withSign negative x).isNegative = negative := by
  cases negative with
  | false => exact h
  | true =>
    rw [withSign, if_pos rfl, negate, isNegative_ofMagnitude, h]
    rfl

theorem units_eq_of_magnitude (h : x.magnitude = y.magnitude) : x.units = y.units := by
  rw [units, units, spacing, spacing, h]

theorem eq_of_magnitude (hsign : x.isNegative = y.isNegative) (h : x.magnitude = y.magnitude) :
    x = y := by
  rw [← x.ofMagnitude_magnitude, ← y.ofMagnitude_magnitude, hsign, h]

theorem withSign_eq (hsign : y.isNegative = false) (h : y.magnitude = x.magnitude) :
    withSign x.isNegative y = x :=
  eq_of_magnitude (isNegative_withSign _ hsign) ((magnitude_withSign ..).trans h)

theorem toBinary64_integerValue {n : ℕ} (negative : Bool) (h : n < wordLimit) :
    (integerValue negative n).toBinary64 = withSign negative (ofNat n) := by
  have hword : (UInt64.ofNat n).toNat = n := UInt64.toNat_ofNat_of_lt' h
  unfold integerValue withSign
  cases negative with
  | false => exact congrArg ofNat hword
  | true =>
    simp only [Bool.not_true, Bool.false_eq_true, if_false, if_true]
    split
    · rfl
    · exact congrArg (negate ∘ ofNat) hword

end WithSign

/-- A value with the sign of another one and at most six units in its last place away from it. -/
def IsNear (x y : Binary64) : Prop :=
  y.isNegative = x.isNegative ∧ |(y.units : ℤ) - x.units| ≤ 6 * 2 ^ x.spacing

instance (x y : Binary64) : Decidable (x.IsNear y) := inferInstanceAs (Decidable (_ ∧ _))

theorem isNear_self (x : Binary64) : x.IsNear x := ⟨rfl, by simp⟩

theorem isNear_withSign {x y : Binary64} (hsign : y.isNegative = false)
    (h : |(y.units : ℚ) - x.units| ≤ 6 * 2 ^ x.spacing) : x.IsNear (withSign x.isNegative y) := by
  refine ⟨isNegative_withSign _ hsign, ?_⟩
  rw [units_eq_of_magnitude (magnitude_withSign ..)]
  exact_mod_cast h

theorem scaled?_eq_some {negative : Bool} {significand : ℕ} {power : ℤ} {y : Binary64}
    (h : scale significand power = some y) :
    scaled? negative significand power = some (.float (withSign negative y)) := by
  rw [scaled?, h]
  rfl

theorem toBinary64_of_whole {x : Binary64} (hx : x.isFinite) {n : ℕ} (hn : n < wordLimit)
    (hholds : x.interval.Holds (4 * size n 0)) :
    (integerValue x.isNegative n).toBinary64 = x := by
  rw [toBinary64_integerValue x.isNegative hn]
  exact withSign_eq (isNegative_ofRatio ..) (magnitude_ofNat_of_holds hx hholds)

/-- Except for the largest values no rounding leads out of the finite ones. -/
theorem PutTogether.exists_near {x : Binary64} {value? : Option Number} (h : x.PutTogether value?)
    (hx : x.magnitude + 4 < infinityMagnitude) (h₀ : x.magnitude ≠ 0) :
    ∃ v, value? = some v ∧ x.IsNear v.toBinary64 := by
  cases h with
  | whole hn hholds =>
    refine ⟨_, rfl, ?_⟩
    rw [toBinary64_of_whole ((isFinite_iff x).2 (by omega)) hn hholds]
    exact x.isNear_self
  | scaled hpos hword hholds =>
    obtain ⟨y, hy, hsign, hnear⟩ :=
      exists_scale hx h₀ hpos hword (abs_sub_units_le_of_holds hholds)
    exact ⟨_, scaled?_eq_some hy, isNear_withSign hsign hnear⟩

theorem PutTogether.exists_same {x : Binary64} {value? : Option Number} (h : x.PutTogether value?)
    (hx : x.isFinite) (hexact : x.IsWord ∨ x.IsShort) :
    ∃ v, value? = some v ∧ v.toBinary64 = x := by
  cases h with
  | whole hn hholds => exact ⟨_, rfl, toBinary64_of_whole hx hn hholds⟩
  | scaled _ hword hholds hnot hshort =>
    obtain ⟨⟨m, i, hm, hsplit⟩, hlow, hup⟩ := hshort (hexact.resolve_left hnot)
    obtain ⟨y, hy, hsign, hmag⟩ := exists_scale_of_holds hx hm hsplit hword hlow hup hholds
    exact ⟨_, scaled?_eq_some hy, withSign_eq hsign hmag⟩

/-- The largest values are not rounded to infinity. -/
theorem exists_near_of_largest : ∀ negative, ∀ i < 4,
    ((ofMagnitude negative (infinityMagnitude - 4 + i)).literalNumeral.value?.map fun v =>
      decide ((ofMagnitude negative (infinityMagnitude - 4 + i)).IsNear v.toBinary64))
      = some true := by
  decide +kernel

/-- The literal of a value other than zero stands for a number near it. -/
theorem exists_near {x : Binary64} (hx : x.isFinite) (h₀ : x.magnitude ≠ 0) :
    ∃ v, x.literalNumeral.value? = some v ∧ x.IsNear v.toBinary64 := by
  have hlt := (isFinite_iff x).1 hx
  by_cases hlarge : x.magnitude + 4 < infinityMagnitude
  · exact (putTogether_literalNumeral h₀).exists_near hlarge h₀
  · obtain ⟨i, hi⟩ := Nat.exists_eq_add_of_le (show infinityMagnitude - 4 ≤ x.magnitude by omega)
    have hnear := exists_near_of_largest x.isNegative i (by omega)
    rw [← hi, x.ofMagnitude_magnitude] at hnear
    obtain ⟨v, hv, hdecide⟩ := Option.map_eq_some_iff.1 hnear
    exact ⟨v, hv, of_decide_eq_true hdecide⟩

/-- A value is read from the literal of a value, near that one. If the literal has few digits and a
small power of ten, or is a whole number of one word, the two have the same literal. -/
theorem exists_value_literalNumeral {x : Binary64} (hx : x.isFinite) :
    ∃ v, x.literalNumeral.value? = some v ∧ v.toBinary64.isFinite
      ∧ (x.magnitude ≠ 0 → x.IsNear v.toBinary64)
      ∧ (x.magnitude = 0 ∨ x.IsWord ∨ x.IsShort → v.toBinary64.literalChars = x.literalChars) := by
  by_cases h₀ : x.magnitude = 0
  · have hzero : (Number.natural 0).toBinary64.magnitude = 0 := by
      simp [Number.toBinary64, ofNat, magnitude_ofRatio, dropped, roundToEven]
    refine ⟨.natural 0, ?_, isFinite_word (by decide), fun hne => absurd h₀ hne, fun _ => ?_⟩
    · rw [literalNumeral, if_pos h₀]
      rfl
    · rw [literalChars_of_magnitude_eq_zero hzero, literalChars_of_magnitude_eq_zero h₀]
  · obtain ⟨v, hv, hnear⟩ := exists_near hx h₀
    refine ⟨v, hv, isFinite_of_value? hv, fun _ => hnear, fun hexact => ?_⟩
    obtain ⟨w, hw, hsame⟩ :=
      (putTogether_literalNumeral h₀).exists_same hx (hexact.resolve_left h₀)
    obtain rfl : v = w := Option.some.inj (hv.symm.trans hw)
    rw [hsame]

end ValidatorGen.Binary64
