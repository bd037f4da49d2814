import Mathlib.Tactic.Ring
import Mathlib.Tactic.Linarith
import ValidatorGen.Proofs.Numeric.Shortest

/-! Which value a quotient is rounded to. Main statement: the quotients in the interval of a value
are those that are rounded to it; so a natural number whose first binary digits are all it has is
kept as it is. -/
namespace ValidatorGen.Binary64

attribute [local irreducible] unitsPerOne

/-- The first binary digits of the size of a value, of which it has at most 53. -/
def kept (x : Binary64) : Nat := x.magnitude - x.spacing * binade

theorem magnitude_eq (x : Binary64) : x.magnitude = x.spacing * binade + x.kept := by
  have hdiv := Nat.div_add_mod x.magnitude binade
  have hle : x.spacing * binade ≤ x.magnitude :=
    (Nat.mul_le_mul_right _ (Nat.sub_le ..)).trans (Nat.div_mul_le_self ..)
  unfold kept
  omega

theorem units_of_magnitude_eq {x : Binary64} {d m : Nat} (h : x.magnitude = d * binade + m)
    (hlow : d = 0 ∨ binade ≤ m) (hup : m ≤ 2 * binade) : x.units = m * 2 ^ d := by
  have hpos := binade_pos
  rcases Nat.lt_or_ge m binade with hsmall | hlarge
  · obtain rfl : d = 0 := by omega
    rw [units, if_pos (by omega), h]
    ring
  · have hge : ¬x.magnitude < binade := by omega
    rcases Nat.lt_or_eq_of_le hup with hlt | rfl
    · have hdiv : x.magnitude / binade = d + 1 :=
        Nat.div_eq_of_lt_le (by linarith) (by linarith)
      have hmod : x.magnitude % binade = m - binade := by
        have := Nat.div_add_mod x.magnitude binade
        rw [hdiv, Nat.mul_add, Nat.mul_comm binade d] at this
        omega
      rw [units, if_neg hge, Nat.pow_eq, spacing, hdiv, hmod, Nat.add_sub_cancel,
        Nat.add_sub_cancel' hlarge]
    · have hmag : x.magnitude = (d + 2) * binade := by rw [h, Nat.add_mul]
      rw [units, if_neg hge, Nat.pow_eq, spacing, hmag, Nat.mul_div_cancel _ hpos, Nat.mul_mod_left,
        Nat.add_zero, show d + 2 - 1 = d + 1 by omega]
      ring

theorem kept_lt_two_pow (x : Binary64) : x.kept < 2 * binade := by
  have hdiv := Nat.div_add_mod x.magnitude binade
  have hmod := Nat.mod_lt x.magnitude binade_pos
  have hmul : x.spacing * binade = x.magnitude / binade * binade - binade := by
    rw [spacing, Nat.sub_mul, Nat.one_mul]
  have := Nat.mul_comm binade (x.magnitude / binade)
  unfold kept
  omega

theorem spacing_eq_zero_or (x : Binary64) : x.spacing = 0 ∨ binade ≤ x.kept := by
  have hdiv := Nat.div_mul_le_self x.magnitude binade
  have hmul : x.spacing * binade = x.magnitude / binade * binade - binade := by
    rw [spacing, Nat.sub_mul, Nat.one_mul]
  rcases Nat.eq_zero_or_pos x.spacing with hzero | hpos
  · exact .inl hzero
  · have hle : 1 * binade ≤ x.spacing * binade := Nat.mul_le_mul_right _ hpos
    unfold kept
    omega

theorem units_eq (x : Binary64) : x.units = x.kept * 2 ^ x.spacing :=
  units_of_magnitude_eq x.magnitude_eq x.spacing_eq_zero_or x.kept_lt_two_pow.le

/-- Rounding moves a quotient by half of one at most. -/
theorem roundToEven_bounds (num : Nat) {den : Nat} (hden : 0 < den) :
    2 * num ≤ (2 * roundToEven num den + 1) * den
      ∧ 2 * roundToEven num den * den ≤ 2 * num + den := by
  have hdiv := Nat.div_add_mod num den
  have hmod := Nat.mod_lt num hden
  have hcomm := Nat.mul_comm den (num / den)
  simp only [roundToEven]
  generalize num / den = q at *
  split
  · next h =>
    constructor
    · calc 2 * num = 2 * (q * den) + 2 * (num % den) := by omega
        _ ≤ 2 * (q * den) + 3 * den := by omega
        _ = (2 * (q + 1) + 1) * den := by ring
    · calc 2 * (q + 1) * den = 2 * (q * den) + 2 * den := by ring
        _ ≤ 2 * num + den := by omega
  · next h =>
    constructor
    · calc 2 * num = 2 * (q * den) + 2 * (num % den) := by omega
        _ ≤ 2 * (q * den) + den := by omega
        _ = (2 * q + 1) * den := by ring
    · calc 2 * q * den = 2 * (q * den) := by ring
        _ ≤ 2 * num + den := by omega

/-- What is not more than half of one away is what a quotient is rounded to, if it is even or if it
is nearer than that. -/
theorem roundToEven_eq {num den n : Nat} (hden : 0 < den) (hlow : 2 * n * den ≤ 2 * num + den)
    (hup : 2 * num ≤ (2 * n + 1) * den)
    (htie : n % 2 = 0 ∨ 2 * n * den < 2 * num + den ∧ 2 * num < (2 * n + 1) * den) :
    roundToEven num den = n := by
  have hdiv := Nat.div_add_mod num den
  have hmod := Nat.mod_lt num hden
  have hle : num / den ≤ n := by
    by_contra hlt
    have hmul := Nat.mul_le_mul_left den (Nat.succ_le_of_lt (Nat.lt_of_not_le hlt))
    have : (2 * n + 1) * den = 2 * (den * n) + den := by ring
    have : den * n.succ = den * n + den := Nat.mul_succ ..
    omega
  have hge : n ≤ num / den + 1 := by
    by_contra hlt
    have hmul := Nat.mul_le_mul_left den (show num / den + 2 ≤ n by omega)
    have : 2 * n * den = 2 * (den * n) := by ring
    have : den * (num / den + 2) = den * (num / den) + 2 * den := by ring
    omega
  have hlow' : 2 * n * den = 2 * (den * n) := by ring
  have hup' : (2 * n + 1) * den = 2 * (den * n) + den := by ring
  rw [hlow'] at hlow htie
  rw [hup'] at hup htie
  simp only [roundToEven]
  generalize num / den = q at *
  obtain rfl | rfl : n = q ∨ n = q + 1 := by omega
  · rw [if_neg (by omega)]
  · rw [Nat.mul_add, Nat.mul_one] at hlow hup htie
    rw [if_pos (by omega)]

theorem roundToEven_mul (n : Nat) {den : Nat} (hden : 0 < den) : roundToEven (n * den) den = n := by
  have : 2 * n * den = 2 * (n * den) := Nat.mul_assoc ..
  have : (2 * n + 1) * den = 2 * (n * den) + den := by ring
  exact roundToEven_eq hden (by omega) (by omega) (.inr (by omega))

/-- So many digits are dropped that at most 53 are left, and fewer only if none is dropped. -/
theorem dropped_eq {num den d : Nat} (hden : 0 < den)
    (hlow : d = 0 ∨ den * (binade * 2 ^ d) ≤ num * unitsPerOne)
    (hup : num * unitsPerOne < den * (2 ^ 53 * 2 ^ d)) : dropped num den = d := by
  have hlt : num * unitsPerOne / den < 2 ^ (53 + d) := by
    rw [Nat.div_lt_iff_lt_mul hden, pow_add]
    exact Nat.mul_comm den _ ▸ hup
  rcases Nat.eq_zero_or_pos (num * unitsPerOne / den) with hzero | hpos
  · rcases hlow with rfl | hlow
    · simp [dropped, hzero]
    · have hpow : 0 < binade * 2 ^ d := Nat.mul_pos binade_pos (by positivity)
      have := (Nat.le_div_iff_mul_le hden).2 (Nat.mul_comm .. ▸ hlow)
      omega
  · have hlog := (Nat.log2_lt hpos.ne').2 hlt
    rcases hlow with rfl | hlow
    · unfold dropped
      omega
    · have hle : 2 ^ (52 + d) ≤ num * unitsPerOne / den := by
        rw [Nat.le_div_iff_mul_le hden, pow_add, ← binade_eq, Nat.mul_comm]
        exact hlow
      have := (Nat.le_log2 hpos.ne').2 hle
      unfold dropped
      omega

theorem binade_le_of_dropped (num : Nat) {den : Nat} (hden : 0 < den) :
    dropped num den = 0 ∨ den * (binade * 2 ^ dropped num den) ≤ num * unitsPerOne := by
  rcases Nat.eq_zero_or_pos (dropped num den) with hzero | hpos
  · exact .inl hzero
  · right
    have hlog : (num * unitsPerOne / den).log2 = 52 + dropped num den := by
      unfold dropped at *
      omega
    have hne : num * unitsPerOne / den ≠ 0 := by
      intro h0
      rw [h0, Nat.log2_zero] at hlog
      omega
    have hle := Nat.log2_self_le hne
    rw [hlog, pow_add, ← binade_eq, Nat.le_div_iff_mul_le hden] at hle
    rwa [Nat.mul_comm]

/-- A finite rounded quotient is made of the digits that are left, rounded. -/
theorem units_ofRatio {num den : Nat} (hden : 0 < den) (h : (ofRatio num den).isFinite) :
    (ofRatio num den).units
      = roundToEven (num * unitsPerOne) (den * 2 ^ dropped num den) * 2 ^ dropped num den := by
  have hmag := magnitude_ofRatio num den
  have hfinite := (isFinite_iff _).1 h
  rw [Nat.min_eq_right (by omega)] at hmag
  have hround := le_roundToEven (num * unitsPerOne) (den * 2 ^ dropped num den)
  have hround' := roundToEven_le_succ (num * unitsPerOne) (den * 2 ^ dropped num den)
  have hkept := kept_lt num den
  refine units_of_magnitude_eq hmag ?_ ?_
  · rcases binade_le_of_dropped num hden with hzero | hle
    · exact .inl hzero
    · right
      refine le_trans ?_ hround
      rw [Nat.le_div_iff_mul_le (by positivity)]
      calc binade * (den * 2 ^ dropped num den) = den * (binade * 2 ^ dropped num den) := by ring
        _ ≤ num * unitsPerOne := hle
  · have : 2 * binade = 2 ^ 53 := by decide
    omega

/-- What an interval contains lies between its ends, and on one of them only if they belong to it. -/
theorem Interval.bounds_of_contains {i : Interval} {num den : Nat} (h : i.contains num den = true) :
    i.lower * den ≤ num ∧ num ≤ i.upper * den
      ∧ (i.closed = true ∨ i.lower * den < num ∧ num < i.upper * den) := by
  unfold contains at h
  split at h
  · next hclosed =>
    simp only [Bool.and_eq_true, decide_eq_true_eq] at h
    exact ⟨h.1, h.2, .inl hclosed⟩
  · simp only [Bool.and_eq_true, decide_eq_true_eq] at h
    exact ⟨h.1.le, h.2.le, .inr h⟩

section Contained

variable {x : Binary64} {num den : Nat}

theorem bounds_of_contains (h : x.interval.contains (4 * (num * unitsPerOne)) den = true) :
    4 * (x.kept * (den * 2 ^ x.spacing)) ≤ 4 * (num * unitsPerOne) + den * x.reach
      ∧ 2 * (num * unitsPerOne) ≤ (2 * x.kept + 1) * (den * 2 ^ x.spacing)
      ∧ (x.kept % 2 = 0
        ∨ 4 * (x.kept * (den * 2 ^ x.spacing)) < 4 * (num * unitsPerOne) + den * x.reach
          ∧ 2 * (num * unitsPerOne) < (2 * x.kept + 1) * (den * 2 ^ x.spacing)) := by
  obtain ⟨hlow, hup, hopen⟩ := Interval.bounds_of_contains h
  have hparity : x.interval.closed = true → x.kept % 2 = 0 := by
    intro hclosed
    have heven : x.magnitude % 2 = 0 := beq_iff_eq.1 hclosed
    have hbinade : x.spacing * binade % 2 = 0 := by
      rw [Nat.mul_mod, show binade % 2 = 0 by decide, Nat.mul_zero, Nat.zero_mod]
    have := x.magnitude_eq
    omega
  have hcentre : 4 * x.units * den = 4 * (x.kept * (den * 2 ^ x.spacing)) := by
    rw [x.units_eq]
    ring
  have hbelow : x.interval.lower * den = 4 * (x.kept * (den * 2 ^ x.spacing)) - den * x.reach := by
    rw [interval_lower, Nat.sub_mul, hcentre, Nat.mul_comm x.reach]
  have habove : x.interval.upper * den
      = 4 * (x.kept * (den * 2 ^ x.spacing)) + 2 * (den * 2 ^ x.spacing) := by
    rw [interval_upper, Nat.add_mul, hcentre]
    ring
  have hhalf : (2 * x.kept + 1) * (den * 2 ^ x.spacing)
      = 2 * (x.kept * (den * 2 ^ x.spacing)) + den * 2 ^ x.spacing := by ring
  rw [hbelow] at hlow hopen
  rw [habove] at hup hopen
  rw [hhalf]
  refine ⟨by omega, by omega, ?_⟩
  rcases hopen with hclosed | hopen
  · exact .inl (hparity hclosed)
  · exact .inr (by omega)

theorem magnitude_ofRatio_of_spacing (hden : 0 < den)
    (h : x.interval.contains (4 * (num * unitsPerOne)) den = true)
    (hsame : x.spacing = 0 ∨ den * (binade * 2 ^ x.spacing) ≤ num * unitsPerOne) :
    (ofRatio num den).magnitude = min infinityMagnitude x.magnitude := by
  obtain ⟨hlow, hup, hopen⟩ := bounds_of_contains h
  have hpos : 0 < den * 2 ^ x.spacing := by positivity
  have hreach : den * x.reach ≤ den * (2 * 2 ^ x.spacing) := Nat.mul_le_mul_left _ x.reach_le
  have hwidth : den * (2 * 2 ^ x.spacing) = 2 * (den * 2 ^ x.spacing) := by ring
  have hcentre : 2 * x.kept * (den * 2 ^ x.spacing) = 2 * (x.kept * (den * 2 ^ x.spacing)) := by ring
  have hdropped : dropped num den = x.spacing := by
    refine dropped_eq hden hsame ?_
    have hlimit : 2 * binade = 2 ^ 53 := by decide
    have hkept := Nat.mul_le_mul_right (den * 2 ^ x.spacing) (Nat.succ_le_of_lt x.kept_lt_two_pow)
    have hleft : den * (2 ^ 53 * 2 ^ x.spacing) = 2 * binade * (den * 2 ^ x.spacing) := by
      rw [hlimit]
      ring
    have hnext : (x.kept + 1) * (den * 2 ^ x.spacing)
        = x.kept * (den * 2 ^ x.spacing) + den * 2 ^ x.spacing := by ring
    rw [Nat.succ_eq_add_one, hnext] at hkept
    have hhalf : (2 * x.kept + 1) * (den * 2 ^ x.spacing)
        = 2 * (x.kept * (den * 2 ^ x.spacing)) + den * 2 ^ x.spacing := by ring
    omega
  have hround : roundToEven (num * unitsPerOne) (den * 2 ^ x.spacing) = x.kept :=
    roundToEven_eq hpos (by omega) hup (hopen.imp_right fun hopen => ⟨by omega, hopen.2⟩)
  rw [magnitude_ofRatio, hdropped, hround, ← x.magnitude_eq]

/-- Below a power of two the spacing is halved; a quotient there in the interval of the power is
carried up to it. -/
theorem magnitude_ofRatio_of_carry (hden : 0 < den)
    (h : x.interval.contains (4 * (num * unitsPerOne)) den = true) (hspacing : x.spacing ≠ 0)
    (hbelow : num * unitsPerOne < den * (binade * 2 ^ x.spacing)) :
    (ofRatio num den).magnitude = min infinityMagnitude x.magnitude := by
  obtain ⟨hlow, -, -⟩ := bounds_of_contains h
  have hbinade := binade_pos
  have hpos : 0 < den * 2 ^ x.spacing := by positivity
  have hreach : den * x.reach ≤ den * (2 * 2 ^ x.spacing) := Nat.mul_le_mul_left _ x.reach_le
  have hwidth : den * (2 * 2 ^ x.spacing) = 2 * (den * 2 ^ x.spacing) := by ring
  have hlimit : den * (binade * 2 ^ x.spacing) = binade * (den * 2 ^ x.spacing) := by ring
  have hkept : x.kept = binade := by
    refine Nat.le_antisymm ?_ (x.spacing_eq_zero_or.resolve_left hspacing)
    by_contra hlt
    have hmul := Nat.mul_le_mul_right (den * 2 ^ x.spacing) (Nat.lt_of_not_le hlt)
    rw [Nat.succ_eq_add_one, Nat.add_mul, Nat.one_mul] at hmul
    omega
  have hmag : x.magnitude = x.spacing * binade + binade := hkept ▸ x.magnitude_eq
  have hexact : den * x.reach = den * 2 ^ x.spacing := by
    have hmod : x.magnitude % binade = 0 := by
      rw [hmag, ← Nat.succ_mul]
      exact Nat.mul_mod_left ..
    have : 0 < x.spacing * binade := Nat.mul_pos (Nat.pos_of_ne_zero hspacing) hbinade
    rw [reach, if_pos ⟨hmod, by omega⟩]
  obtain ⟨t, ht⟩ := Nat.exists_eq_succ_of_ne_zero hspacing
  have hstep : den * 2 ^ x.spacing = 2 * (den * 2 ^ t) := by
    rw [ht, Nat.succ_eq_add_one, pow_succ]
    ring
  have hhalf : 0 < den * 2 ^ t := by positivity
  have hdigits : binade * (2 * (den * 2 ^ t)) = 2 * (binade * (den * 2 ^ t)) := by ring
  have hle : den * 2 ^ t ≤ binade * (den * 2 ^ t) := Nat.le_mul_of_pos_left _ hbinade
  rw [hexact, hkept, hstep, hdigits] at hlow
  rw [hlimit, hstep, hdigits] at hbelow
  have hdropped : dropped num den = t := by
    refine dropped_eq hden (.inr ?_) ?_
    · have : den * (binade * 2 ^ t) = binade * (den * 2 ^ t) := by ring
      omega
    · have : den * (2 ^ 53 * 2 ^ t) = 2 * (binade * (den * 2 ^ t)) := by
        rw [show 2 ^ 53 = 2 * binade by decide]
        ring
      omega
  have hround : roundToEven (num * unitsPerOne) (den * 2 ^ t) = 2 * binade := by
    have : 2 * (2 * binade) * (den * 2 ^ t) = 4 * (binade * (den * 2 ^ t)) := by ring
    have : (2 * (2 * binade) + 1) * (den * 2 ^ t)
        = 4 * (binade * (den * 2 ^ t)) + den * 2 ^ t := by ring
    exact roundToEven_eq hhalf (by omega) (by omega) (.inl (Nat.mul_mod_right ..))
  rw [magnitude_ofRatio, hdropped, hround, hmag, ht, Nat.two_mul, ← Nat.add_assoc, Nat.succ_mul]

/-- The quotients in the interval of a value are rounded to it. -/
theorem magnitude_ofRatio_of_contains (hx : x.isFinite) (hden : 0 < den)
    (h : x.interval.contains (4 * (num * unitsPerOne)) den = true) :
    (ofRatio num den).magnitude = x.magnitude := by
  have hmin : min infinityMagnitude x.magnitude = x.magnitude :=
    Nat.min_eq_right ((isFinite_iff x).1 hx).le
  by_cases hsame : x.spacing = 0 ∨ den * (binade * 2 ^ x.spacing) ≤ num * unitsPerOne
  · exact (magnitude_ofRatio_of_spacing hden h hsame).trans hmin
  · obtain ⟨hspacing, hbelow⟩ := not_or.1 hsame
    exact (magnitude_ofRatio_of_carry hden h hspacing (Nat.lt_of_not_le hbelow)).trans hmin

end Contained

theorem units_ofNat {m i : Nat} (hm : m < 2 ^ 53) (h : (ofNat (m * 2 ^ i)).isFinite) :
    (ofNat (m * 2 ^ i)).units = m * 2 ^ i * unitsPerOne := by
  obtain ⟨u, -, hone⟩ := exists_unitExponent
  have hscaled : m * 2 ^ i * unitsPerOne = m * 2 ^ (i + u) := by
    rw [hone, pow_add, Nat.mul_assoc]
  have hle : dropped (m * 2 ^ i) 1 ≤ i + u := by
    rcases Nat.eq_zero_or_pos m with rfl | hpos
    · simp [dropped]
    · have hlt : m * 2 ^ i * unitsPerOne < 2 ^ (53 + (i + u)) := by
        rw [hscaled, pow_add 2 53]
        exact Nat.mul_lt_mul_of_pos_right hm (Nat.two_pow_pos _)
      have hne : m * 2 ^ i * unitsPerOne ≠ 0 := by
        rw [hscaled]
        positivity
      have := (Nat.log2_lt hne).2 hlt
      rw [dropped, Nat.div_one]
      omega
  obtain ⟨rest, hrest⟩ := Nat.exists_eq_add_of_le hle
  rw [ofNat, units_ofRatio Nat.one_pos h, Nat.one_mul, hscaled, hrest, Nat.add_comm, pow_add,
    ← Nat.mul_assoc, roundToEven_mul _ (Nat.two_pow_pos _)]

end ValidatorGen.Binary64
