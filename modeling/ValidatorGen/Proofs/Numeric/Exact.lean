import ValidatorGen.Proofs.Numeric.Rounds
import ValidatorGen.Proofs.Reading.Printed

/-! Number literals are exact. Main statement: the literal of a finite value is a number that rounds
to the value, has an exponent if the value is very large or very small, and no fraction if the value
is a whole number. -/
namespace ValidatorGen

namespace Numeral

/-- The exact number that a literal denotes. -/
def toRat (n : Numeral) : ℚ := signFactor n.negative * (n.coefficient * 10 ^ n.power)

/-- A text is the literal of one numeral only. -/
theorem Written.unique {n m : Numeral} {text : List Char} (hn : n.Written text)
    (hm : m.Written text) : n = m := by
  have hend : ∀ c ∈ ([] : List Char).head?, ¬IsNumeralChar c := nofun
  have hfirst := Reader.outcome_numeral .badNumber hn hend
  have hsecond := Reader.outcome_numeral .badNumber hm hend
  exact congrArg Prod.fst (Except.ok.inj (hfirst.symm.trans hsecond))

end Numeral

namespace Decimal

open Numeral

/-- The literal forms of a decimal denote its digits times its power of ten. -/
theorem toRat_scientificNumeral (negative : Bool) {d : Decimal} (h : d.digits ≠ []) :
    (d.scientificNumeral negative).toRat
      = signFactor negative * (d.significand * 10 ^ d.power) := by
  rw [toRat, coefficient_scientificNumeral, power_scientificNumeral negative h]
  rfl

theorem toRat_positionalNumeral (negative : Bool) {d : Decimal} (h : d.digits ≠ []) :
    (d.positionalNumeral negative).toRat
      = signFactor negative * (d.significand * 10 ^ d.power) := by
  by_cases hpower : d.power < 0
  · obtain ⟨hcoefficient, hscale, -⟩ := parts_positionalNumeral negative h hpower
    rw [toRat, hcoefficient, hscale]
    rfl
  · obtain ⟨p, hp⟩ := Int.eq_ofNat_of_zero_le (not_lt.1 hpower)
    have hcoefficient : coefficient ⟨negative, d.digits ++ List.replicate p '0', none, none⟩
        = d.significand * 10 ^ p := by
      rw [coefficient, Option.getD_none, List.append_nil, Nat.ofDigitChars_append,
        Nat.ofDigitChars_replicate_zero, Nat.mul_comm, significand]
    have hscale : Numeral.power ⟨negative, d.digits ++ List.replicate p '0', none, none⟩ = 0 := rfl
    rw [positionalNumeral_of_whole negative h (not_lt.1 hpower), hp, Int.toNat_natCast, toRat,
      hcoefficient, hscale, zpow_zero, mul_one, zpow_natCast]
    push_cast
    rfl

end Decimal

namespace Binary64

attribute [local irreducible] unitsPerOne

/-- A value, except that zero has no minus sign. -/
def withoutZeroSign (x : Binary64) : Binary64 := if x.magnitude = 0 then ⟨0⟩ else x

section Exact

variable {x : Binary64}

theorem toRat_literalNumeral (h : x.magnitude ≠ 0) :
    x.literalNumeral.toRat = signFactor x.isNegative
      * ((x.shortest .up).significand * 10 ^ (x.shortest .up).power) := by
  have hdigits := (shortest_digits h .up).1.1
  rw [literalNumeral, if_neg h]
  split
  · exact Decimal.toRat_scientificNumeral _ hdigits
  · exact Decimal.toRat_positionalNumeral _ hdigits

theorem roundsTo_literalNumeral (hx : x.isFinite) :
    RoundsTo x.literalNumeral.toRat x.withoutZeroSign := by
  by_cases h : x.magnitude = 0
  · have hzero : x.literalNumeral.toRat = 0 := by
      have hdigit : Numeral.coefficient ⟨false, ['0'], none, none⟩ = 0 := rfl
      rw [literalNumeral, if_pos h, Numeral.toRat, hdigit, Nat.cast_zero, zero_mul, mul_zero]
    rw [hzero, withoutZeroSign, if_pos h]
    exact roundsTo_zero
  · have hholds := holds_shortest h .up
    have hpos : 0 < size (x.shortest .up).significand (x.shortest .up).power := by
      have hsignificand : (0 : ℚ) < (x.shortest .up).significand := by
        exact_mod_cast (significand_shortest h .up).1
      have hone := unitsPerOne_cast_pos
      unfold size
      positivity
    have hrounds := roundsTo_of_holds hx hpos hholds
    rw [size, mul_div_cancel_right₀ _ unitsPerOne_cast_pos.ne', ← toRat_literalNumeral h] at hrounds
    rwa [withoutZeroSign, if_neg h]

theorem abs_toRat (x : Binary64) : |x.toRat| = x.units / unitsPerOne := by
  have hone := unitsPerOne_cast_pos
  rw [toRat, abs_mul, abs_signFactor, one_mul, abs_of_nonneg (by positivity)]

theorem abs_toRat_eq_zero_iff : |x.toRat| = 0 ↔ x.magnitude = 0 := by
  rw [abs_toRat, div_eq_zero_iff, or_iff_left unitsPerOne_cast_pos.ne', Nat.cast_eq_zero,
    units_eq_zero_iff]

end Exact

/-- The value nearest to one millionth, which is a little less. -/
def oneMillionth : Binary64 := ofRatio 1 1000000

theorem oneMillionth_placed : oneMillionth.isFinite = true ∧ oneMillionth.isNegative = false
    ∧ oneMillionth.magnitude ≠ 0
    ∧ oneMillionth.interval.contains (4 * unitsPerOne) 1000000 = true
    ∧ oneMillionth.units * 10 ^ 6 < unitsPerOne
    ∧ unitsPerOne < (oneMillionth.units + 2 ^ oneMillionth.spacing) * 10 ^ 6
    ∧ oneMillionth.literal = "0.000001" := by decide +kernel

theorem roundsTo_oneMillionth : RoundsTo (1 / 10 ^ 6) oneMillionth := by
  obtain ⟨hfinite, hsign, -, hcontains, -⟩ := oneMillionth_placed
  have hholds := (Interval.contains_iff (by decide)).1 hcontains
  rw [Nat.cast_mul, mul_div_assoc] at hholds
  have hone := unitsPerOne_cast_pos
  have hrounds := roundsTo_of_holds hfinite (by positivity) hholds
  rw [hsign, div_div_cancel_left' hone.ne'] at hrounds
  convert hrounds using 1
  norm_num [signFactor]

theorem oneMillionth_lt : |oneMillionth.toRat| < 1 / 10 ^ 6 := by
  obtain ⟨-, -, -, -, hunits, -⟩ := oneMillionth_placed
  have hcast : (oneMillionth.units * 10 ^ 6 : ℚ) < unitsPerOne := by exact_mod_cast hunits
  rw [abs_toRat, div_lt_div_iff₀ unitsPerOne_cast_pos (by positivity), one_mul]
  exact hcast

theorem written_oneMillionth :
    Numeral.Written ⟨false, ['0'], some ['0', '0', '0', '0', '0', '1'], none⟩
      oneMillionth.literal.toList := by
  have hfraction : IsDigits ['0', '0', '0', '0', '0', '1'] := ⟨by decide, List.all_eq_true.1 rfl⟩
  obtain ⟨-, -, -, -, -, -, hliteral⟩ := oneMillionth_placed
  rw [hliteral]
  exact .mk false (.inl rfl) (.present hfraction) .absent

section Limits

variable {x : Binary64}

theorem exponentLimit_le_iff : exponentLimit ≤ x.magnitude ↔ 10 ^ 21 ≤ |x.toRat| := by
  have hunits := Numeral.units_powTen (n := 21) (by decide)
  have hlt := units_lt_iff (x := x) (y := powTen 21)
  rw [abs_toRat, le_div_iff₀ unitsPerOne_cast_pos, exponentLimit, ← not_lt, ← hlt, not_lt, hunits]
  exact_mod_cast Iff.rfl

/-- Below one millionth there are the values below the one nearest to it, and that one itself. -/
theorem magnitude_lt_fractionLimit_iff : x.magnitude < fractionLimit
    ↔ |x.toRat| < 1 / 10 ^ 6 ∧ |x.toRat| ≠ |oneMillionth.toRat| := by
  have hone := unitsPerOne_cast_pos
  have hlt : x.units < oneMillionth.units ↔ x.magnitude < fractionLimit := units_lt_iff
  rw [← hlt, abs_toRat x, abs_toRat oneMillionth, ne_eq, div_left_inj' hone.ne', Nat.cast_inj]
  constructor
  · intro h
    have hcast : (x.units : ℚ) < oneMillionth.units := by exact_mod_cast h
    refine ⟨lt_trans ?_ oneMillionth_lt, h.ne⟩
    rwa [abs_toRat, div_lt_div_iff_of_pos_right hone]
  · rintro ⟨hbelow, hne⟩
    refine lt_of_le_of_ne (not_lt.1 fun habove => ?_) hne
    obtain ⟨hfinite, -, -, -, -, hnext, -⟩ := oneMillionth_placed
    have hbound : infinityMagnitude < signWeight := by decide
    have hmagnitude := (isFinite_iff oneMillionth).1 hfinite
    -- the next value after the nearest one is more than a millionth
    obtain ⟨z, -, hz⟩ := exists_magnitude_eq false
      (show oneMillionth.magnitude + 1 < signWeight by omega)
    rw [← units_of_next hz] at hnext
    have hmag : oneMillionth.magnitude < x.magnitude := units_lt_iff.1 habove
    have hle : z.units ≤ x.units := units_le_of_magnitude_le (by omega)
    rw [div_lt_div_iff₀ hone (by positivity), one_mul] at hbelow
    have hcast : x.units * 10 ^ 6 < unitsPerOne := by exact_mod_cast hbelow
    omega

theorem hasExponent_iff : x.hasExponent = true ↔ 10 ^ 21 ≤ |x.toRat|
    ∨ 0 < |x.toRat| ∧ |x.toRat| < 1 / 10 ^ 6 ∧ |x.toRat| ≠ |oneMillionth.toRat| := by
  rw [← exponentLimit_le_iff, ← magnitude_lt_fractionLimit_iff, abs_pos, ← abs_ne_zero, ne_eq,
    abs_toRat_eq_zero_iff]
  simp [hasExponent]

theorem isSome_exponent_iff : x.literalNumeral.exponent.isSome ↔ x.hasExponent = true := by
  unfold literalNumeral
  split
  · next h =>
    have hzero : |x.toRat| = 0 := abs_toRat_eq_zero_iff.2 h
    have hnone : ¬x.hasExponent = true := by
      rw [hasExponent_iff, hzero]
      norm_num
    exact iff_of_false Bool.false_ne_true hnone
  · split
    · next h => exact iff_of_true rfl h
    · next h => exact iff_of_false Bool.false_ne_true h

end Limits

section Whole

variable {x : Binary64} {k : ℤ}

theorem units_of_toRat_eq (h : x.toRat = k) : x.units = k.natAbs * unitsPerOne := by
  have habs := x.abs_toRat
  rw [h, ← Int.cast_abs, ← Nat.cast_natAbs, eq_div_iff unitsPerOne_cast_pos.ne'] at habs
  exact_mod_cast habs.symm

theorem hasExponent_of_whole (h : x.toRat = k) (hlt : |x.toRat| < 10 ^ 21) :
    x.hasExponent = false := by
  rw [Bool.eq_false_iff, ne_eq, hasExponent_iff, not_or]
  refine ⟨not_le.2 hlt, ?_⟩
  rintro ⟨hpos, hsmall, -⟩
  rw [h, ← Int.cast_abs] at hpos hsmall
  have hone : (1 : ℤ) ≤ |k| := by exact_mod_cast hpos
  have hcast : (1 : ℚ) ≤ (|k| : ℤ) := by exact_mod_cast hone
  have hlimit : (1 / 10 ^ 6 : ℚ) ≤ 1 := by norm_num
  linarith

theorem literalNumeral_of_whole (h₀ : x.magnitude ≠ 0) (h : x.toRat = k)
    (hlt : |x.toRat| < 10 ^ 21) :
    x.literalNumeral = ⟨x.isNegative,
      (x.shortest .up).digits ++ List.replicate (x.shortest .up).power.toNat '0', none, none⟩ := by
  have hexponent := hasExponent_of_whole h hlt
  have hpower := power_shortest_nonneg h₀ .up (units_of_toRat_eq h)
  rw [literalNumeral, if_neg h₀, if_neg (by simp [hexponent])]
  exact Decimal.positionalNumeral_of_whole _ (shortest_digits h₀ .up).1.1 hpower

theorem fraction_of_whole (h : x.toRat = k) (hlt : |x.toRat| < 10 ^ 21) :
    x.literalNumeral.fraction = none := by
  by_cases h₀ : x.magnitude = 0
  · rw [literalNumeral, if_pos h₀]
  · rw [literalNumeral_of_whole h₀ h hlt]

end Whole

theorem sameValue_of_withoutZeroSign_eq {x y : Binary64} (hx : x.isFinite) (hy : y.isFinite)
    (h : x.withoutZeroSign = y.withoutZeroSign) : x.sameValue y = true := by
  have hzero : magnitude ⟨0⟩ = 0 := by decide
  have hsame : x = y ∨ x.magnitude = 0 ∧ y.magnitude = 0 := by
    unfold withoutZeroSign at h
    split at h <;> split at h <;> simp_all
  simpa [sameValue, not_isNaN_of_isFinite hx, not_isNaN_of_isFinite hy] using hsame

/-- Literals are exact. The literal of a finite value denotes a number that rounds to the value; it
has an exponent from `10 ^ 21` on and below one millionth, except for the value that is nearest to
one millionth, and no fraction if the value is a whole number below `10 ^ 21`. So values with the
same literal are equal. -/
theorem literal_exact {x : Binary64} (hx : x.isFinite) :
    IsNumberLiteral x.literal.toList
      ∧ (∀ n : Numeral, n.Written x.literal.toList →
        RoundsTo n.toRat x.withoutZeroSign
          ∧ (n.exponent.isSome ↔ 10 ^ 21 ≤ |x.toRat|
            ∨ 0 < |x.toRat| ∧ |x.toRat| < 1 / 10 ^ 6 ∧ |x.toRat| ≠ |oneMillionth.toRat|)
          ∧ ((∃ k : ℤ, x.toRat = k) → |x.toRat| < 10 ^ 21 → n.fraction = none))
      ∧ ∀ y : Binary64, y.isFinite → x.literal = y.literal → x.sameValue y = true := by
  have hchars (z : Binary64) : z.literal.toList = z.literalChars := String.toList_ofList
  have hwritten := written_literalNumeral hx
  refine ⟨⟨_, hchars x ▸ hwritten⟩, fun n hn => ?_, fun y hy hsame => ?_⟩
  · obtain rfl := (hchars x ▸ hn).unique hwritten
    refine ⟨roundsTo_literalNumeral hx, isSome_exponent_iff.trans hasExponent_iff, ?_⟩
    rintro ⟨k, hk⟩ hlt
    exact fraction_of_whole hk hlt
  · have htext : x.literalChars = y.literalChars := by rw [← hchars, hsame, hchars]
    have hnumeral := hwritten.unique (htext ▸ written_literalNumeral hy)
    have hrounds := roundsTo_literalNumeral hy
    rw [← hnumeral] at hrounds
    exact sameValue_of_withoutZeroSign_eq hx hy ((roundsTo_literalNumeral hx).unique hrounds)

/-- The literal of the value nearest to one millionth has a fraction. -/
theorem literal_exact_oneMillionth :
    oneMillionth.isFinite = true ∧ oneMillionth.literal = "0.000001"
      ∧ RoundsTo (1 * 10 ^ (-6 : ℤ)) oneMillionth.withoutZeroSign
      ∧ ∀ y : Binary64, y.isFinite → oneMillionth.literal = y.literal →
        oneMillionth.sameValue y = true := by
  obtain ⟨hfinite, -, -, -, -, -, hliteral⟩ := oneMillionth_placed
  obtain ⟨-, hexact, hsame⟩ := literal_exact hfinite
  obtain ⟨hrounds, -⟩ := hexact _ written_oneMillionth
  have hvalue : Numeral.toRat ⟨false, ['0'], some ['0', '0', '0', '0', '0', '1'], none⟩
      = 1 * 10 ^ (-6 : ℤ) := by
    have hcoefficient :
        Numeral.coefficient ⟨false, ['0'], some ['0', '0', '0', '0', '0', '1'], none⟩ = 1 := rfl
    have hpower :
        Numeral.power ⟨false, ['0'], some ['0', '0', '0', '0', '0', '1'], none⟩ = -6 := rfl
    rw [Numeral.toRat, hcoefficient, hpower, signFactor, if_neg Bool.false_ne_true, one_mul,
      Nat.cast_one]
  exact ⟨hfinite, hliteral, hvalue ▸ hrounds, hsame⟩

/-- The value nearest to one millionth is less than that, and is written without an exponent. -/
theorem not_exponent_of_oneMillionth : ¬∀ (x : Binary64) (n : Numeral), x.isFinite →
    n.Written x.literal.toList →
      (n.exponent.isSome ↔ 10 ^ 21 ≤ |x.toRat| ∨ 0 < |x.toRat| ∧ |x.toRat| < 1 / 10 ^ 6) := by
  intro h
  obtain ⟨hfinite, -, hnonzero, -⟩ := oneMillionth_placed
  have hpos : 0 < |oneMillionth.toRat| := by
    rwa [abs_pos, ← abs_ne_zero, ne_eq, abs_toRat_eq_zero_iff]
  exact absurd ((h oneMillionth _ hfinite written_oneMillionth).2 (.inr ⟨hpos, oneMillionth_lt⟩))
    (by decide)

end Binary64

end ValidatorGen
