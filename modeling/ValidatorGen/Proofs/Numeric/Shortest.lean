import Mathlib.Tactic.NormNum
import ValidatorGen.Numeric.Shortest
import ValidatorGen.Proofs.Json.NumberLiteral
import ValidatorGen.Proofs.Numeric.Rounding

/-! Seventeen digits are enough: on a grid that has so many digits of a value, one of the two
neighbours of the value reads back as it. So the search for the shortest decimal succeeds, and its
digits start with one that is not zero. -/
namespace ValidatorGen.Binary64

attribute [local irreducible] unitsPerOne

theorem units_lt (x : Binary64) : x.units < 2 ^ 53 * 2 ^ x.spacing := by
  have hmod := Nat.mod_lt x.magnitude binade_pos
  rw [binade_eq] at hmod
  unfold units
  split
  · next h =>
    have : 1 ≤ 2 ^ x.spacing := Nat.one_le_two_pow
    rw [binade_eq] at h
    omega
  · rw [Nat.pow_eq]
    exact Nat.mul_lt_mul_of_pos_right (by rw [binade_eq]; omega) (by positivity)

theorem two_pow_spacing_le_units {x : Binary64} (h : x.magnitude ≠ 0) : 2 ^ x.spacing ≤ x.units := by
  unfold units
  split
  · next hsmall =>
    have hzero : x.spacing = 0 := by simp [spacing, Nat.div_eq_of_lt hsmall]
    rw [hzero]
    omega
  · rw [Nat.pow_eq]
    have := binade_pos
    exact Nat.le_mul_of_pos_left _ (by omega)

theorem units_of_mod_eq_zero {x : Binary64} (h : x.magnitude % binade = 0)
    (hlarge : binade < x.magnitude) : x.units = 2 ^ 52 * 2 ^ x.spacing := by
  rw [units, if_neg (by omega), h, Nat.add_zero, Nat.pow_eq, binade_eq]

theorem units_pos {x : Binary64} (h : x.magnitude ≠ 0) : 0 < x.units :=
  lt_of_lt_of_le (by positivity) (two_pow_spacing_le_units h)

/-- How far the numbers that round to a value reach below it, in quarters of a unit. -/
def reach (x : Binary64) : Nat :=
  if x.magnitude % binade = 0 ∧ binade < x.magnitude then 2 ^ x.spacing else 2 * 2 ^ x.spacing

theorem interval_lower (x : Binary64) : x.interval.lower = 4 * x.units - x.reach := rfl

theorem interval_upper (x : Binary64) : x.interval.upper = 4 * x.units + 2 * 2 ^ x.spacing := rfl

theorem reach_le (x : Binary64) : x.reach ≤ 2 * 2 ^ x.spacing := by
  unfold reach
  split <;> omega

theorem reach_pos (x : Binary64) : 0 < x.reach := by
  unfold reach
  split <;> positivity

theorem interval_lower_pos {x : Binary64} (h : x.magnitude ≠ 0) : 0 < x.interval.lower := by
  have := two_pow_spacing_le_units h
  have := x.reach_le
  have : 0 < 2 ^ x.spacing := by positivity
  rw [interval_lower]
  omega

/-- The interval is wider than a step of seventeen digits. -/
theorem four_mul_units_lt (x : Binary64) :
    4 * x.units < 10 ^ 16 * (x.reach + 2 * 2 ^ x.spacing) := by
  have hlt := x.units_lt
  unfold reach
  split
  · next h => rw [units_of_mod_eq_zero h.1 h.2]; omega
  · omega

theorem Interval.contains_of_lt {i : Interval} {num den : Nat} (hlow : i.lower * den < num)
    (hup : num < i.upper * den) : i.contains num den = true := by
  unfold Interval.contains
  split <;> simp <;> omega

theorem Interval.lower_le_of_contains {i : Interval} {num den : Nat}
    (h : i.contains num den = true) : i.lower * den ≤ num := by
  unfold Interval.contains at h
  split at h <;> simp at h <;> omega

theorem gridStep_pos (power : Int) : 0 < (gridStep power).1 ∧ 0 < (gridStep power).2 := by
  have hone := unitsPerOne_pos
  unfold gridStep
  split
  · exact ⟨Nat.mul_pos (by omega) (Nat.pow_pos (by decide)), Nat.one_pos⟩
  · exact ⟨by omega, Nat.pow_pos (by decide)⟩

theorem pos_of_contains {x : Binary64} (h : x.magnitude ≠ 0) {n : Nat} {power : Int}
    (hc : x.interval.contains (n * (gridStep power).1) (gridStep power).2 = true) : 0 < n := by
  rcases Nat.eq_zero_or_pos n with rfl | hn
  · have hle := Interval.lower_le_of_contains hc
    have := Nat.mul_pos (interval_lower_pos h) (gridStep_pos power).2
    omega
  · exact hn

theorem contains_onGrid? {x : Binary64} {tie : TieBreak} {power : Int} {n : Nat}
    (hn : onGrid? tie x power = some n) :
    x.interval.contains (n * (gridStep power).1) (gridStep power).2 = true := by
  simp only [onGrid?] at hn
  split at hn
  · next hboth =>
    obtain ⟨hlow, hhigh⟩ := Bool.and_eq_true_iff.1 hboth
    split at hn
    · exact Option.some.inj hn ▸ hlow
    · exact Option.some.inj hn ▸ hhigh
  · split at hn
    · next hlow => exact Option.some.inj hn ▸ hlow
    · split at hn
      · next hhigh => exact Option.some.inj hn ▸ hhigh
      · contradiction

/-- If a value has seventeen digits on a grid, one of its neighbours reads back as it. -/
theorem exists_onGrid? {x : Binary64} (h : x.magnitude ≠ 0) (tie : TieBreak) {power : Int}
    (hfine : 10 ^ 16 * (gridStep power).1 ≤ 4 * x.units * (gridStep power).2) :
    ∃ n, onGrid? tie x power = some n := by
  rw [← Option.isSome_iff_exists]
  obtain ⟨hstep, hden⟩ := gridStep_pos power
  generalize hs : (gridStep power).1 = s at *
  generalize ht : (gridStep power).2 = t at *
  by_contra hnone
  have hfits : x.interval.contains (4 * x.units * t / s * s) t = false ∧
      x.interval.contains ((4 * x.units * t / s + 1) * s) t = false := by
    simp only [onGrid?, hs, ht] at hnone
    split at hnone
    · split at hnone <;> simp at hnone
    · split at hnone
      · simp at hnone
      · split at hnone
        · simp at hnone
        · next hlow hhigh => exact ⟨by simpa using hlow, by simpa using hhigh⟩
  have hdiv := Nat.div_add_mod (4 * x.units * t) s
  have hmod := Nat.mod_lt (4 * x.units * t) hstep
  have hpow : 0 < 2 ^ x.spacing := by positivity
  have hreach := x.reach_le
  have hpos := x.reach_pos
  have hsize := two_pow_spacing_le_units h
  -- the lower neighbour lies below the interval, the upper one above it
  have hlow : 4 * x.units * t / s * s ≤ x.interval.lower * t := by
    by_contra hlt
    have hup : 4 * x.units * t / s * s < x.interval.upper * t := by
      rw [interval_upper, Nat.add_mul]
      have := Nat.mul_pos (Nat.mul_pos (by decide : 0 < 2) hpow) hden
      rw [Nat.mul_comm _ s]
      omega
    simp [Interval.contains_of_lt (Nat.lt_of_not_le hlt) hup] at hfits
  have hhigh : x.interval.upper * t ≤ (4 * x.units * t / s + 1) * s := by
    by_contra hlt
    have hup : x.interval.lower * t < (4 * x.units * t / s + 1) * s := by
      have : x.interval.lower * t ≤ 4 * x.units * t :=
        Nat.mul_le_mul_right _ (by rw [interval_lower]; omega)
      rw [Nat.add_mul, Nat.mul_comm _ s]
      omega
    simp [Interval.contains_of_lt hup (Nat.lt_of_not_le hlt)] at hfits
  have hwidth : x.interval.upper * t = x.interval.lower * t + (x.reach + 2 * 2 ^ x.spacing) * t := by
    rw [← Nat.add_mul, interval_lower, interval_upper]
    congr 1
    omega
  have hgap : (x.reach + 2 * 2 ^ x.spacing) * t ≤ s := by
    rw [Nat.add_mul _ 1] at hhigh
    omega
  have hlarge : 4 * x.units * t < 10 ^ 16 * s :=
    calc 4 * x.units * t < 10 ^ 16 * (x.reach + 2 * 2 ^ x.spacing) * t :=
          Nat.mul_lt_mul_of_pos_right x.four_mul_units_lt hden
      _ = 10 ^ 16 * ((x.reach + 2 * 2 ^ x.spacing) * t) := Nat.mul_assoc ..
      _ ≤ 10 ^ 16 * s := Nat.mul_le_mul_left _ hgap
  omega

/-- The value in multiples of `10 ^ -324`, rounded down. -/
def tiny (x : Binary64) : Nat := x.units * Nat.pow 10 324 / unitsPerOne

theorem exists_tinyExponent (x : Binary64) :
    ∃ e, e = 324 ∧ x.tiny = x.units * 10 ^ e / unitsPerOne := by
  obtain ⟨e, he⟩ : ∃ e, e = 324 := ⟨_, rfl⟩
  exact ⟨e, he, by rw [tiny, ← he, Nat.pow_eq]⟩

theorem tiny_pos {x : Binary64} (h : x.magnitude ≠ 0) : 0 < x.tiny := by
  have hone : unitsPerOne ≤ Nat.pow 10 324 := by decide +kernel
  rw [tiny, Nat.div_pos_iff]
  exact ⟨unitsPerOne_pos, hone.trans (Nat.le_mul_of_pos_left _ (units_pos h))⟩

theorem ten_pow_le_of_lt_length {n k : Nat} (hn : 0 < n) (hk : k < (Nat.toDigits 10 n).length) :
    10 ^ k ≤ n := by
  rcases Nat.eq_zero_or_pos k with rfl | hpos
  · rwa [pow_zero]
  · by_contra hlt
    have := (Nat.length_toDigits_le_iff (b := 10) (by decide) hpos).2 (Nat.lt_of_not_le hlt)
    omega

/-- Sixteen places after the leading digit of a value, its grid has seventeen digits of it. -/
theorem gridStep_leadingPower {x : Binary64} (h : x.magnitude ≠ 0) :
    10 ^ 16 * (gridStep (x.leadingPower - 16)).1
      ≤ 4 * x.units * (gridStep (x.leadingPower - 16)).2 := by
  obtain ⟨n, hn⟩ : ∃ n, (Nat.toDigits 10 x.tiny).length = n + 1 :=
    Nat.exists_eq_add_one.2 Nat.length_toDigits_pos
  have hlead : x.leadingPower - 16 = (n : Int) - 340 := by
    have hlength : x.leadingPower = ((Nat.toDigits 10 x.tiny).length : Int) - 325 := rfl
    rw [hlength, hn]
    omega
  obtain ⟨e, he, htiny⟩ := x.exists_tinyExponent
  have hsize : 10 ^ n * unitsPerOne ≤ x.units * 10 ^ e := by
    have hle := ten_pow_le_of_lt_length (tiny_pos h) (by rw [hn]; exact Nat.lt_succ_self n)
    rwa [htiny, Nat.le_div_iff_mul_le unitsPerOne_pos] at hle
  rw [hlead]
  unfold gridStep
  split
  · next hpos =>
    -- both sides are multiplied by the powers that the leading digit is counted from
    obtain ⟨k, rfl⟩ : ∃ k, n = e + 16 + k := ⟨n - (e + 16), by omega⟩
    have hk : (((e + 16 + k : Nat) : Int) - 340).toNat = k := by omega
    rw [hk, Nat.pow_eq, Nat.mul_one]
    apply Nat.le_of_mul_le_mul_right _ (show 0 < 10 ^ e by positivity)
    calc 10 ^ 16 * (4 * unitsPerOne * 10 ^ k) * 10 ^ e
        = 4 * (10 ^ (e + 16 + k) * unitsPerOne) := by ring
      _ ≤ 4 * (x.units * 10 ^ e) := Nat.mul_le_mul_left _ hsize
      _ = 4 * x.units * 10 ^ e := by ring
  · next hneg =>
    obtain ⟨k, hk⟩ : ∃ k, n + k = e + 16 := ⟨e + 16 - n, by omega⟩
    have hpower : (-((n : Int) - 340)).toNat = k := by omega
    rw [hpower, Nat.pow_eq]
    apply Nat.le_of_mul_le_mul_right _ (show 0 < 10 ^ n by positivity)
    calc 10 ^ 16 * (4 * unitsPerOne) * 10 ^ n
        = 4 * 10 ^ 16 * (10 ^ n * unitsPerOne) := by ring
      _ ≤ 4 * 10 ^ 16 * (x.units * 10 ^ e) := Nat.mul_le_mul_left _ hsize
      _ = 4 * x.units * 10 ^ (e + 16) := by ring
      _ = 4 * x.units * 10 ^ k * 10 ^ n := by rw [← hk]; ring

/-- What is found reads back as the value, on a grid that is not finer than the last one tried. -/
theorem contains_firstOnGrid {x : Binary64} (h : x.magnitude ≠ 0) (tie : TieBreak) (power : Int)
    (finer : Nat)
    (hfine : 10 ^ 16 * (gridStep (power - finer)).1 ≤ 4 * x.units * (gridStep (power - finer)).2) :
    power - finer ≤ (firstOnGrid tie x power finer).2
      ∧ x.interval.contains
        ((firstOnGrid tie x power finer).1 * (gridStep (firstOnGrid tie x power finer).2).1)
        (gridStep (firstOnGrid tie x power finer).2).2 = true := by
  induction finer generalizing power with
  | zero =>
    rw [Int.natCast_zero, Int.sub_zero] at hfine ⊢
    obtain ⟨n, hn⟩ := exists_onGrid? h tie hfine
    rw [firstOnGrid, hn]
    exact ⟨Int.le_refl power, contains_onGrid? hn⟩
  | succ finer ih =>
    rw [firstOnGrid]
    split
    · next n hn => exact ⟨by omega, contains_onGrid? hn⟩
    · have hnext : power - 1 - (finer : Int) = power - (finer + 1 : Nat) := by omega
      have hrest := ih (power - 1) (hnext ▸ hfine)
      rwa [hnext] at hrest

theorem firstOnGrid_pos {x : Binary64} (h : x.magnitude ≠ 0) (tie : TieBreak) :
    0 < (firstOnGrid tie x x.leadingPower 16).1 :=
  pos_of_contains h
    (contains_firstOnGrid h tie x.leadingPower 16 (gridStep_leadingPower h)).2

/-- Dropping from the end stops at the latest before a first character that is kept. -/
theorem exists_reverse_dropWhile {p : Char → Bool} {c : Char} (hc : p c = false)
    (rest : List Char) :
    ∃ kept, ((c :: rest).reverse.dropWhile p).reverse = c :: kept ∧ ∀ d ∈ kept, d ∈ rest := by
  rw [List.reverse_cons, List.dropWhile_append]
  split
  · exact ⟨[], by simp [hc], by simp⟩
  · refine ⟨(rest.reverse.dropWhile p).reverse, by simp, fun d hd => ?_⟩
    have := (List.dropWhile_sublist p).mem (List.mem_reverse.1 hd)
    exact List.mem_reverse.1 this

theorem shortest_digits {x : Binary64} (h : x.magnitude ≠ 0) (tie : TieBreak) :
    IsDigits (x.shortest tie).digits ∧ (x.shortest tie).digits.head? ≠ some '0' := by
  have hpos := firstOnGrid_pos h tie
  have hdigits := isDigits_toDigits (firstOnGrid tie x x.leadingPower 16).1
  have hhead := head?_toDigits hpos
  simp only [shortest]
  generalize Nat.toDigits 10 (firstOnGrid tie x x.leadingPower 16).1 = digits at *
  obtain ⟨c, rest, rfl⟩ := List.exists_cons_of_ne_nil hdigits.1
  obtain ⟨kept, hkept, hmem⟩ :=
    exists_reverse_dropWhile (p := (· == '0')) (c := c) (by simpa using hhead) rest
  rw [hkept]
  refine ⟨⟨by simp, fun d hd => ?_⟩, by simpa using hhead⟩
  rcases List.mem_cons.1 hd with rfl | hd
  · exact hdigits.2 d (by simp)
  · exact hdigits.2 d (List.mem_cons_of_mem c (hmem d hd))

end ValidatorGen.Binary64
