import Mathlib.Tactic.Ring
import Mathlib.Tactic.Linarith
import ValidatorGen.Numeric.Binary64

/-! Bounds on rounded quotients. A quotient below a power of two rounds to at most that power, one
that reaches it to at least that power; so nothing below `2 ^ 1023` rounds to infinity. -/
namespace ValidatorGen.Binary64

theorem binade_pos : 0 < binade := by decide

theorem binade_eq : binade = 2 ^ 52 := by decide

/-- The exponent is given by an equation, so that no tactic multiplies the power out. -/
theorem exists_unitExponent : ∃ u, u = 1074 ∧ unitsPerOne = 2 ^ u := by
  have power (n : Nat) : Nat.pow 2 n = 2 ^ n := Nat.pow_eq
  exact ⟨_, rfl, power 1074⟩

attribute [local irreducible] unitsPerOne

theorem unitsPerOne_pos : 0 < unitsPerOne := by
  obtain ⟨u, -, hone⟩ := exists_unitExponent
  rw [hone]
  positivity

@[simp] theorem isFinite_iff (x : Binary64) : x.isFinite = true ↔ x.magnitude < infinityMagnitude := by
  simp [isFinite]

theorem not_isNaN_of_isFinite {x : Binary64} (h : x.isFinite) : x.isNaN = false := by
  rw [isFinite_iff] at h
  simp only [isNaN, decide_eq_false_iff_not]
  omega

@[simp] theorem magnitude_negate (x : Binary64) : x.negate.magnitude = x.magnitude :=
  magnitude_ofMagnitude _ x.magnitude_lt

@[simp] theorem isFinite_negate (x : Binary64) : x.negate.isFinite = x.isFinite := by
  simp [isFinite]

/-- How many binary digits of a scaled quotient are dropped before it is rounded. -/
def dropped (num den : Nat) : Nat := (num * unitsPerOne / den).log2 - 52

theorem magnitude_ofRatio (num den : Nat) :
    (ofRatio num den).magnitude = min infinityMagnitude
      (dropped num den * binade
        + roundToEven (num * unitsPerOne) (den * 2 ^ dropped num den)) := by
  apply magnitude_ofMagnitude
  have : infinityMagnitude < signWeight := by decide
  omega

theorem le_roundToEven (num den : Nat) : num / den ≤ roundToEven num den := by
  simp only [roundToEven]
  split <;> omega

theorem roundToEven_le_succ (num den : Nat) : roundToEven num den ≤ num / den + 1 := by
  simp only [roundToEven]
  split <;> omega

theorem kept_lt (num den : Nat) :
    num * unitsPerOne / (den * 2 ^ dropped num den) < 2 ^ 53 := by
  have hq := Nat.lt_log2_self (n := num * unitsPerOne / den)
  have hpow : 2 ^ ((num * unitsPerOne / den).log2 + 1) ≤ 2 ^ (53 + dropped num den) :=
    Nat.pow_le_pow_right (by decide) (by unfold dropped; omega)
  rw [← Nat.div_div_eq_div_mul, Nat.div_lt_iff_lt_mul (by positivity), ← pow_add]
  exact lt_of_lt_of_le hq hpow

/-- A quotient below a power of two rounds to at most that power. -/
theorem magnitude_ofRatio_le {num den k : Nat} (h : num < den * 2 ^ k) :
    (ofRatio num den).magnitude ≤ (k + 1022 + 1) * binade := by
  obtain ⟨u, hu, hone⟩ := exists_unitExponent
  have hden : 0 < den := Nat.pos_of_ne_zero fun h0 => by simp [h0] at h
  have hround := roundToEven_le_succ (num * unitsPerOne) (den * 2 ^ dropped num den)
  have hkept := kept_lt num den
  have hscaled : num * unitsPerOne / den < 2 ^ (k + u) := by
    rw [Nat.div_lt_iff_lt_mul hden, hone, pow_add]
    calc num * 2 ^ u < den * 2 ^ k * 2 ^ u := Nat.mul_lt_mul_of_pos_right h (by positivity)
      _ = 2 ^ k * 2 ^ u * den := by ring
  have hdrop : dropped num den ≤ k + 1021 := by
    by_cases hzero : num * unitsPerOne / den = 0
    · simp [dropped, hzero]
    · have := (Nat.log2_lt hzero).2 hscaled
      unfold dropped
      omega
  rw [magnitude_ofRatio]
  calc min infinityMagnitude (dropped num den * binade + _)
    _ ≤ dropped num den * binade + 2 ^ 53 :=
      (Nat.min_le_right ..).trans (Nat.add_le_add_left (hround.trans hkept) _)
    _ ≤ (k + 1021) * binade + 2 * binade :=
      Nat.add_le_add (Nat.mul_le_mul_right _ hdrop) (by decide)
    _ = (k + 1021 + 2) * binade := (Nat.add_mul (k + 1021) 2 binade).symm

theorem le_magnitude_ofRatio {num den k : Nat} (hden : 0 < den) (h : den * 2 ^ k ≤ num) :
    min infinityMagnitude ((k + 1022 + 1) * binade) ≤ (ofRatio num den).magnitude := by
  obtain ⟨u, hu, hone⟩ := exists_unitExponent
  have hround := le_roundToEven (num * unitsPerOne) (den * 2 ^ dropped num den)
  have hscaled : 2 ^ (k + u) ≤ num * unitsPerOne / den := by
    rw [Nat.le_div_iff_mul_le hden, hone, pow_add]
    calc 2 ^ k * 2 ^ u * den = den * 2 ^ k * 2 ^ u := by ring
      _ ≤ num * 2 ^ u := Nat.mul_le_mul_right _ h
  have hne : num * unitsPerOne / den ≠ 0 := by
    have : 0 < 2 ^ (k + u) := by positivity
    omega
  have hlog := (Nat.le_log2 hne).2 hscaled
  have hdrop : (num * unitsPerOne / den).log2 = 52 + dropped num den := by
    unfold dropped
    omega
  have hkept : binade ≤ num * unitsPerOne / (den * 2 ^ dropped num den) := by
    rw [← Nat.div_div_eq_div_mul, Nat.le_div_iff_mul_le (by positivity), binade_eq, ← pow_add,
      ← hdrop]
    exact Nat.log2_self_le hne
  rw [magnitude_ofRatio]
  apply le_min (Nat.min_le_left ..)
  calc min infinityMagnitude ((k + 1022 + 1) * binade)
    _ ≤ (k + 1022 + 1) * binade := Nat.min_le_right ..
    _ = (k + 1022) * binade + 1 * binade := Nat.add_mul (k + 1022) 1 binade
    _ ≤ dropped num den * binade + _ :=
      Nat.add_le_add (Nat.mul_le_mul_right _ (by omega))
        ((Nat.one_mul binade).le.trans (hkept.trans hround))

theorem isFinite_ofRatio {num den k : Nat} (hk : k ≤ 1022) (h : num < den * 2 ^ k) :
    (ofRatio num den).isFinite := by
  have hle := magnitude_ofRatio_le h
  have hmul : (k + 1022 + 1) * binade ≤ 2045 * binade := Nat.mul_le_mul_right _ (by omega)
  have hlt : 2045 * binade < infinityMagnitude := by decide
  rw [isFinite_iff]
  omega

/-- Sizes are counted in units like their bits are ordered. -/
theorem units_le {x : Binary64} {e : Nat} (h : x.magnitude ≤ (e + 1) * binade) :
    x.units ≤ 2 ^ (e + 52) := by
  have hpow : 2 ^ 52 ≤ 2 ^ (e + 52) := Nat.pow_le_pow_right (by decide) (by omega)
  have hmod := Nat.mod_lt x.magnitude binade_pos
  have hdiv := Nat.div_add_mod x.magnitude binade
  unfold units
  split
  · next hsmall => rw [binade_eq] at hsmall; omega
  · next hlarge =>
    rw [Nat.pow_eq]
    have hle : x.magnitude / binade ≤ e + 1 := Nat.div_le_of_le_mul (by linarith)
    have hpos : 1 ≤ x.magnitude / binade := (Nat.le_div_iff_mul_le binade_pos).2 (by omega)
    rcases Nat.lt_or_eq_of_le hle with hlt | heq
    · calc (binade + x.magnitude % binade) * 2 ^ x.spacing ≤ 2 ^ 53 * 2 ^ x.spacing :=
            Nat.mul_le_mul_right _ (by rw [binade_eq] at *; omega)
        _ = 2 ^ (53 + x.spacing) := (pow_add ..).symm
        _ ≤ 2 ^ (e + 52) := Nat.pow_le_pow_right (by decide) (by unfold spacing; omega)
    · have hzero : x.magnitude % binade = 0 := by
        rw [heq, Nat.mul_comm] at hdiv
        omega
      rw [hzero, spacing, heq, Nat.add_zero, binade_eq, ← pow_add]
      exact Nat.pow_le_pow_right (by decide) (by omega)

theorem le_units {x : Binary64} {e : Nat} (h : (e + 1) * binade ≤ x.magnitude) :
    2 ^ (e + 52) ≤ x.units := by
  have hle : e + 1 ≤ x.magnitude / binade := (Nat.le_div_iff_mul_le binade_pos).2 h
  have hlarge : ¬x.magnitude < binade := by
    have : 1 * binade ≤ (e + 1) * binade := Nat.mul_le_mul_right _ (by omega)
    omega
  rw [units, if_neg hlarge, Nat.pow_eq, spacing]
  calc 2 ^ (e + 52) = binade * 2 ^ e := by rw [binade_eq, ← pow_add, Nat.add_comm]
    _ ≤ (binade + x.magnitude % binade) * 2 ^ (x.magnitude / binade - 1) :=
      Nat.mul_le_mul (by omega) (Nat.pow_le_pow_right (by decide) (by omega))

theorem units_ofRatio_le {num den k : Nat} (h : num < den * 2 ^ k) :
    (ofRatio num den).units ≤ 2 ^ k * unitsPerOne := by
  obtain ⟨u, hu, hone⟩ := exists_unitExponent
  have hle := units_le (e := k + 1022) (magnitude_ofRatio_le h)
  rwa [hone, ← pow_add, show k + u = k + 1022 + 52 by omega]

theorem le_units_ofRatio {num den k : Nat} (hden : 0 < den) (hk : k ≤ 1024)
    (h : den * 2 ^ k ≤ num) : 2 ^ k * unitsPerOne ≤ (ofRatio num den).units := by
  obtain ⟨u, hu, hone⟩ := exists_unitExponent
  have hle := le_magnitude_ofRatio hden h
  have hmul : (k + 1022 + 1) * binade ≤ infinityMagnitude := Nat.mul_le_mul_right _ (by omega)
  rw [Nat.min_eq_right hmul] at hle
  rw [hone, ← pow_add, show k + u = k + 1022 + 52 by omega]
  exact le_units (e := k + 1022) hle

theorem le_units_powTen (n : Nat) : unitsPerOne ≤ (powTen n).units := by
  have hpos : 1 * 2 ^ 0 ≤ Nat.pow 10 n := Nat.one_le_pow n 10 (by decide)
  have hle := le_units_ofRatio Nat.one_pos (Nat.zero_le _) hpos
  rw [pow_zero, one_mul] at hle
  rwa [powTen, ofNat]

/-- Dividing by a power of ten does not leave the range that a value is known to be in. -/
theorem lt_units_powTen_mul {x : Binary64} {k : Nat} (n : Nat) (h : x.units ≤ 2 ^ k * unitsPerOne) :
    x.units < (powTen n).units * 2 ^ (k + 1) := by
  have hone : 0 < unitsPerOne := unitsPerOne_pos
  calc x.units ≤ 2 ^ k * unitsPerOne := h
    _ < 2 ^ (k + 1) * unitsPerOne :=
      Nat.mul_lt_mul_of_pos_right (Nat.pow_lt_pow_right (by decide) (by omega)) hone
    _ = unitsPerOne * 2 ^ (k + 1) := Nat.mul_comm ..
    _ ≤ (powTen n).units * 2 ^ (k + 1) := Nat.mul_le_mul_right _ (le_units_powTen n)

end ValidatorGen.Binary64
