import Mathlib.Algebra.Order.Field.Power
import Mathlib.Algebra.Order.Field.Rat
import Mathlib.Tactic.FieldSimp
import Mathlib.Tactic.Positivity
import Mathlib.Tactic.NormNum
import ValidatorGen.Proofs.Numeric.Nearest

/-! How far rounding moves a value. One rounding costs half of the last of 53 binary digits, or half a
unit for the smallest values; a product or a quotient of rounded numbers adds what they were off. -/
namespace ValidatorGen.Binary64

attribute [local irreducible] unitsPerOne

/-- Half of the last of 53 binary digits, as a part of the whole. -/
def precision : ℚ := 1 / 2 ^ 53

theorem precision_pos : 0 < precision := by
  unfold precision
  norm_num

theorem precision_le : precision ≤ 1 / 1024 := by
  unfold precision
  norm_num

theorem unitsPerOne_cast_pos : (0 : ℚ) < unitsPerOne := by exact_mod_cast unitsPerOne_pos

/-- Digits with a power of ten, in units. -/
def size (significand : ℕ) (power : ℤ) : ℚ := significand * 10 ^ power * unitsPerOne

theorem size_nonneg (significand : ℕ) (power : ℤ) : 0 ≤ size significand power := by
  unfold size
  positivity

/-- Rounding to digits that are a power of two apart moves a quotient by half of that power. -/
theorem abs_roundToEven_sub_le (num : ℕ) {den d : ℕ} (hden : 0 < den) :
    |((roundToEven num (den * 2 ^ d) * 2 ^ d : ℕ) : ℚ) - num / den| ≤ 2 ^ d / 2 := by
  have hpos : 0 < den * 2 ^ d := by positivity
  obtain ⟨hup, hlow⟩ := roundToEven_bounds num hpos
  have hcast : (0 : ℚ) < den := by exact_mod_cast hden
  have hup' : (2 * num : ℚ) ≤ (2 * roundToEven num (den * 2 ^ d) + 1) * (den * 2 ^ d) := by
    exact_mod_cast hup
  have hlow' : (2 * roundToEven num (den * 2 ^ d) * (den * 2 ^ d) : ℚ) ≤ 2 * num + den * 2 ^ d := by
    exact_mod_cast hlow
  generalize roundToEven num (den * 2 ^ d) = n at *
  have hsplit : ((n * 2 ^ d : ℕ) : ℚ) - num / den = (2 * n * (den * 2 ^ d) - 2 * num) / (2 * den) := by
    push_cast
    field_simp
  rw [hsplit, abs_le, le_div_iff₀ (by positivity), div_le_iff₀ (by positivity)]
  constructor <;> linarith

theorem abs_units_ofRatio_sub_le {num den : ℕ} (hden : 0 < den) (h : (ofRatio num den).isFinite) :
    |((ofRatio num den).units : ℚ) - num * unitsPerOne / den|
      ≤ max (1 / 2) (precision * (num * unitsPerOne / den)) := by
  have hcast : (0 : ℚ) < den := by exact_mod_cast hden
  have hround := abs_roundToEven_sub_le (num * unitsPerOne) (d := dropped num den) hden
  rw [← units_ofRatio hden h, Nat.cast_mul] at hround
  refine hround.trans ?_
  rcases binade_le_of_dropped num hden with hzero | hle
  · rw [hzero, pow_zero]
    exact le_max_left ..
  · have hle' : (den * (binade * 2 ^ dropped num den) : ℚ) ≤ num * unitsPerOne := by
      exact_mod_cast hle
    have hbinade : (binade : ℚ) = 2 ^ 52 := by exact_mod_cast binade_eq
    refine le_trans ?_ (le_max_right ..)
    rw [hbinade] at hle'
    rw [precision, ← mul_div_assoc, le_div_iff₀ hcast]
    linarith

section Errors

variable {a s b t r c : ℚ}

/-- The product of two numbers that are off by a part of them. -/
theorem abs_mul_sub_le (hs : 0 ≤ s) (ht : 0 < t) (hr : 0 ≤ r) (hr' : r ≤ 1 / 64)
    (ha : |a - s| ≤ r * s) (hb : |b - t| ≤ precision * t) :
    |a * b - s * t| ≤ (r + 17 / 16 * precision) * (s * t) := by
  have hε := precision_pos
  have hsize : |b| ≤ (1 + precision) * t := by
    have hsplit : |b| ≤ |b - t| + |t| := by simpa using abs_add_le (b - t) t
    rw [abs_of_pos ht] at hsplit
    linarith
  have hsmall : r * precision * (s * t) ≤ 1 / 64 * precision * (s * t) := by gcongr
  have hrest : 0 ≤ precision * (s * t) := by positivity
  calc |a * b - s * t| = |(a - s) * b + s * (b - t)| := by ring_nf
    _ ≤ |(a - s) * b| + |s * (b - t)| := abs_add_le ..
    _ = |a - s| * |b| + s * |b - t| := by rw [abs_mul, abs_mul, abs_of_nonneg hs]
    _ ≤ r * s * ((1 + precision) * t) + s * (precision * t) := by gcongr
    _ = (r + precision) * (s * t) + r * precision * (s * t) := by ring
    _ ≤ (r + 17 / 16 * precision) * (s * t) := by linarith

theorem abs_div_sub_le (hs : 0 ≤ s) (ht : 0 < t) (hr : 0 ≤ r) (hr' : r ≤ 1 / 64) (hc : 0 ≤ c)
    (ha : |a - s| ≤ r * s + c) (hb : |b - t| ≤ precision * t) :
    |a / b - s / t| ≤ (r + 17 / 16 * precision) * (s / t) + 17 / 16 * (c / t) := by
  have hε := precision_pos
  have hε' := precision_le
  obtain ⟨hbelow, -⟩ := abs_le.1 hb
  have hpart : precision * t ≤ 1 / 1024 * t := by gcongr
  have hb₀ : 0 < b := by linarith
  -- dividing by the second number instead of what it should be
  have hratio : t / b ≤ 1 + 2 * precision := by
    have hsquare : precision * (precision * t) ≤ 1 / 1024 * (precision * t) := by gcongr
    have hprod : (1 + 2 * precision) * (t - precision * t) ≤ (1 + 2 * precision) * b := by
      gcongr
      linarith
    rw [div_le_iff₀ hb₀]
    nlinarith [mul_pos hε ht]
  have hratio₀ : 0 ≤ t / b := by positivity
  have hsize : 0 ≤ s / t := by positivity
  have hconst : 0 ≤ c / t := by positivity
  have hfirst : |(a - s) / t| ≤ r * (s / t) + c / t := by
    rw [abs_div, abs_of_pos ht, div_le_iff₀ ht]
    have : (r * (s / t) + c / t) * t = r * s + c := by field_simp
    linarith
  have hsecond : |(t - b) / t| ≤ precision := by
    rw [abs_div, abs_of_pos ht, div_le_iff₀ ht, abs_sub_comm]
    exact hb
  have hsmall : (r + precision) * (2 * precision) ≤ 1 / 16 * precision := by nlinarith
  have hsum : (r + precision) * (2 * precision) * (s / t) ≤ 1 / 16 * precision * (s / t) := by
    gcongr
  have htail : 2 * precision * (c / t) ≤ 1 / 16 * (c / t) := by
    gcongr
    linarith
  calc |a / b - s / t| = |((a - s) / t + s / t * ((t - b) / t)) * (t / b)| := by
        congr 1
        field_simp
        ring
    _ = |(a - s) / t + s / t * ((t - b) / t)| * (t / b) := by rw [abs_mul, abs_of_nonneg hratio₀]
    _ ≤ (|(a - s) / t| + |s / t * ((t - b) / t)|) * (t / b) := by
        gcongr
        exact abs_add_le ..
    _ = (|(a - s) / t| + s / t * |(t - b) / t|) * (t / b) := by
        rw [abs_mul, abs_of_nonneg hsize]
    _ ≤ (r * (s / t) + c / t + s / t * precision) * (1 + 2 * precision) := by gcongr
    _ = (r + precision) * (s / t) + (r + precision) * (2 * precision) * (s / t) + c / t
        + 2 * precision * (c / t) := by ring
    _ ≤ (r + 17 / 16 * precision) * (s / t) + 17 / 16 * (c / t) := by linarith

end Errors

section Nearby

variable {x : Binary64} {num den : ℕ}

theorem units_le_cast (x : Binary64) : (x.units : ℚ) ≤ (2 ^ 53 - 1) * 2 ^ x.spacing := by
  have hkept : x.kept + 1 ≤ 2 ^ 53 := x.kept_lt_two_pow
  have hcast : (x.kept : ℚ) ≤ 2 ^ 53 - 1 := by
    have : (x.kept + 1 : ℚ) ≤ 2 ^ 53 := by exact_mod_cast hkept
    linarith
  rw [x.units_eq]
  push_cast
  gcongr

theorem one_le_two_pow_cast (d : ℕ) : (1 : ℚ) ≤ 2 ^ d := one_le_pow₀ (by norm_num)

/-- What is near a value is near it after one more rounding. -/
theorem abs_units_ofRatio_sub_units_le (hden : 0 < den) (h : (ofRatio num den).isFinite) {c : ℚ}
    (hc : c ≤ 5) (hnear : |(num * unitsPerOne / den : ℚ) - x.units| ≤ c * 2 ^ x.spacing) :
    |((ofRatio num den).units : ℚ) - x.units| ≤ (c + 17 / 16) * 2 ^ x.spacing := by
  have hround := abs_units_ofRatio_sub_le hden h
  have hunits := x.units_le_cast
  have hone := one_le_two_pow_cast x.spacing
  generalize (num * unitsPerOne / den : ℚ) = q at *
  obtain ⟨-, hq⟩ := abs_le.1 hnear
  have hcoarse : c * 2 ^ x.spacing ≤ (5 * 2 ^ x.spacing : ℚ) := by gcongr
  have hmax : max (1 / 2) (precision * q) ≤ 17 / 16 * 2 ^ x.spacing := by
    refine max_le (by linarith) ?_
    have hle : q ≤ (2 ^ 53 + 4) * 2 ^ x.spacing := by linarith
    have hmul := mul_le_mul_of_nonneg_left hle precision_pos.le
    refine hmul.trans ?_
    rw [← mul_assoc]
    gcongr
    unfold precision
    norm_num
  calc |((ofRatio num den).units : ℚ) - x.units|
      ≤ |((ofRatio num den).units : ℚ) - q| + |q - x.units| := abs_sub_le ..
    _ ≤ (c + 17 / 16) * 2 ^ x.spacing := by linarith

/-- Whether an interval holds a number of quarters of a unit. -/
def Interval.Holds (i : Interval) (q : ℚ) : Prop :=
  i.lower ≤ q ∧ q ≤ i.upper ∧ (i.closed = true ∨ i.lower < q ∧ q < i.upper)

theorem Interval.contains_iff {i : Interval} (hden : 0 < den) :
    i.contains num den = true ↔ i.Holds (num / den) := by
  have hcast : (0 : ℚ) < den := by exact_mod_cast hden
  unfold contains Holds
  rw [le_div_iff₀ hcast, div_le_iff₀ hcast, lt_div_iff₀ hcast, div_lt_iff₀ hcast]
  norm_cast
  split
  · next hclosed => simp [hclosed]
  · next hopen =>
    simp only [hopen, Bool.and_eq_true, decide_eq_true_eq]
    exact ⟨fun h => ⟨h.1.le, h.2.le, .inr h⟩, fun h => h.2.2.resolve_left nofun⟩

theorem abs_sub_units_le_of_holds {q : ℚ} (h : x.interval.Holds (4 * q)) :
    |q - x.units| ≤ 2 ^ x.spacing / 2 := by
  obtain ⟨hlow, hup, -⟩ := h
  have hreach : 4 * x.units ≤ x.interval.lower + 2 * 2 ^ x.spacing := by
    have := x.reach_le
    rw [interval_lower]
    omega
  have hreach' : (4 * x.units : ℚ) ≤ x.interval.lower + 2 * 2 ^ x.spacing := by exact_mod_cast hreach
  rw [interval_upper] at hup
  push_cast at hup
  rw [abs_le]
  constructor <;> linarith

theorem magnitude_ofRatio_of_holds (hx : x.isFinite) (hden : 0 < den)
    (h : x.interval.Holds (4 * (num * unitsPerOne / den))) :
    (ofRatio num den).magnitude = x.magnitude := by
  refine magnitude_ofRatio_of_contains hx hden ((Interval.contains_iff hden).2 ?_)
  push_cast
  rwa [mul_div_assoc]

theorem spacing_le (hx : x.isFinite) : x.spacing ≤ 2045 := by
  have hlt : x.magnitude < 2047 * binade := (isFinite_iff x).1 hx
  have := Nat.div_lt_of_lt_mul (Nat.mul_comm 2047 binade ▸ hlt)
  unfold spacing
  omega

/-- Nothing below the largest finite value is rounded to infinity. -/
theorem isFinite_ofRatio_of_lt {e : ℕ} (hden : 0 < den) (he : e ≤ 2045)
    (h : num * unitsPerOne < den * ((2 ^ 53 - 1) * 2 ^ e)) : (ofRatio num den).isFinite := by
  have hlimit : 2 ^ 53 = 2 * binade := by decide
  have hinfinity : infinityMagnitude = 2047 * binade := rfl
  have hkept := kept_lt num den
  have hround := roundToEven_le_succ (num * unitsPerOne) (den * 2 ^ dropped num den)
  have hdrop : dropped num den ≤ e := by
    rcases binade_le_of_dropped num hden with hzero | hle
    · omega
    · by_contra hlt
      have hpow : 2 ^ (e + 1) ≤ 2 ^ dropped num den := Nat.pow_le_pow_right (by decide) (by omega)
      have hmul := Nat.mul_le_mul_left den (Nat.mul_le_mul_left binade hpow)
      have hmore : den * ((2 ^ 53 - 1) * 2 ^ e) ≤ den * (binade * 2 ^ (e + 1)) :=
        calc den * ((2 ^ 53 - 1) * 2 ^ e) ≤ den * (2 * binade * 2 ^ e) :=
              Nat.mul_le_mul_left _ (Nat.mul_le_mul_right _ (hlimit ▸ Nat.sub_le ..))
          _ = den * (binade * 2 ^ (e + 1)) := by ring
      omega
  rw [isFinite_iff, magnitude_ofRatio]
  apply lt_of_le_of_lt (Nat.min_le_right ..)
  rcases Nat.lt_or_eq_of_le hdrop with hlt | heq
  · have hmul : (dropped num den + 1) * binade ≤ 2045 * binade := Nat.mul_le_mul_right _ (by omega)
    rw [Nat.add_mul, Nat.one_mul] at hmul
    omega
  · have hlow : num * unitsPerOne / (den * 2 ^ dropped num den) < 2 ^ 53 - 1 := by
      rw [heq, Nat.div_lt_iff_lt_mul (by positivity)]
      calc num * unitsPerOne < den * ((2 ^ 53 - 1) * 2 ^ e) := h
        _ = (2 ^ 53 - 1) * (den * 2 ^ e) := Nat.mul_left_comm ..
    have hmul : dropped num den * binade ≤ 2045 * binade := Nat.mul_le_mul_right _ (by omega)
    omega

theorem isFinite_ofRatio_of_near (hden : 0 < den) (hx : x.magnitude + 4 < infinityMagnitude)
    (h : (num * unitsPerOne / den : ℚ) < x.units + 4 * 2 ^ x.spacing) :
    (ofRatio num den).isFinite := by
  have hcast : (0 : ℚ) < den := by exact_mod_cast hden
  have hspacing := spacing_le ((isFinite_iff x).2 (by omega))
  have hmag := x.magnitude_eq
  have hlt := x.kept_lt_two_pow
  have hsize : num * unitsPerOne < den * ((x.kept + 4) * 2 ^ x.spacing) := by
    rw [div_lt_iff₀ hcast, x.units_eq] at h
    have hexpand : (num * unitsPerOne : ℚ) < den * ((x.kept + 4) * 2 ^ x.spacing) := by
      push_cast at h
      linarith
    exact_mod_cast hexpand
  rcases Nat.lt_or_eq_of_le hspacing with hless | heq
  · refine isFinite_ofRatio_of_lt (e := x.spacing + 1) hden (by omega) (lt_of_lt_of_le hsize ?_)
    have hkept : x.kept + 4 ≤ (2 ^ 53 - 1) * 2 := by
      have : 2 * binade = 2 ^ 53 := by decide
      omega
    calc den * ((x.kept + 4) * 2 ^ x.spacing)
        ≤ den * ((2 ^ 53 - 1) * 2 * 2 ^ x.spacing) :=
          Nat.mul_le_mul_left _ (Nat.mul_le_mul_right _ hkept)
      _ = den * ((2 ^ 53 - 1) * 2 ^ (x.spacing + 1)) := by ring
  · refine isFinite_ofRatio_of_lt hden hspacing (lt_of_lt_of_le hsize ?_)
    have hkept : x.kept + 4 ≤ 2 ^ 53 - 1 := by
      have : 2 * binade = 2 ^ 53 := by decide
      have : infinityMagnitude = 2047 * binade := rfl
      rw [heq] at hmag
      omega
    exact Nat.mul_le_mul_left _ (Nat.mul_le_mul_right _ hkept)

end Nearby

/-- Natural numbers are large compared with a unit, so that only the digits count. -/
theorem abs_units_ofNat_sub_le {n : ℕ} (hn : 0 < n) (h : (ofNat n).isFinite) :
    |((ofNat n).units : ℚ) - n * unitsPerOne| ≤ precision * (n * unitsPerOne) := by
  obtain ⟨u, hu, hone⟩ := exists_unitExponent
  have hround := abs_units_ofRatio_sub_le Nat.one_pos h
  rw [Nat.cast_one, div_one] at hround
  have hlarge : 2 ^ 53 * 1 ≤ n * unitsPerOne := by
    rw [Nat.mul_one, ← Nat.one_mul (2 ^ 53), hone]
    exact Nat.mul_le_mul hn (Nat.pow_le_pow_right (by decide) (by omega))
  have hcast : (2 ^ 53 * 1 : ℚ) ≤ n * unitsPerOne := by exact_mod_cast hlarge
  refine hround.trans (max_le ?_ le_rfl)
  unfold precision
  linarith

theorem isNegative_ofRatio (num den : ℕ) : (ofRatio num den).isNegative = false :=
  isNegative_ofMagnitude ..

end ValidatorGen.Binary64
