import ValidatorGen.Proofs.Numeric.Decimal
import ValidatorGen.Proofs.Numeric.Literal
import ValidatorGen.Proofs.Reading.Scale

/-! What a literal is put together from. Main statements: digits that fit in a word are all taken, of a
longer whole number that ends in zeros only zeros are left out, and the digits of a decimal are those
of its literal. -/
namespace ValidatorGen

namespace Numeral

theorem le_ofDigitChars (n : ℕ) (digits : List Char) : n ≤ Nat.ofDigitChars 10 digits n := by
  rw [Nat.ofDigitChars_eq_ofDigitChars_zero]
  exact (Nat.le_mul_of_pos_left n (by positivity)).trans (Nat.le_add_right ..)

/-- Digits that stay below the limit are gathered before all others. -/
theorem gather_append {limit n : ℕ} {digits : List Char}
    (h : Nat.ofDigitChars 10 digits n < limit) (rest : List Char) :
    gather limit n (digits ++ rest) = gather limit (Nat.ofDigitChars 10 digits n) rest := by
  induction digits generalizing n with
  | nil => rfl
  | cons d digits ih =>
    rw [Nat.ofDigitChars_cons] at h ⊢
    have hnext : 10 * n + digitValue d < limit := (le_ofDigitChars _ digits).trans_lt h
    rw [List.cons_append, gather]
    simp only [if_pos hnext]
    exact ih h

theorem gather_of_lt {limit n : ℕ} {digits : List Char}
    (h : Nat.ofDigitChars 10 digits n < limit) :
    gather limit n digits = (Nat.ofDigitChars 10 digits n, []) := by
  have hall := gather_append h []
  rwa [List.append_nil, gather] at hall

theorem gather_zeros {limit n : ℕ} (h : n < limit) (count : ℕ) :
    ∃ taken left, taken + left = count ∧ n * 10 ^ taken < limit
      ∧ gather limit n (List.replicate count '0') = (n * 10 ^ taken, List.replicate left '0') := by
  induction count generalizing n with
  | zero => exact ⟨0, 0, rfl, by simpa using h, by simp [gather]⟩
  | succ count ih =>
    have hdigit : 10 * n + digitValue '0' = n * 10 := Nat.mul_comm ..
    rw [List.replicate_succ, gather, hdigit]
    by_cases hnext : n * 10 < limit
    · obtain ⟨taken, left, hcount, hlt, hgather⟩ := ih hnext
      rw [Nat.mul_assoc, ← pow_succ'] at hlt hgather
      simp only [if_pos hnext]
      exact ⟨taken + 1, left, by omega, hlt, hgather⟩
    · simp only [if_neg hnext]
      exact ⟨0, count + 1, by omega, by simpa using h, by simp [List.replicate_succ]⟩

/-- All digits of a literal as one number. -/
def coefficient (n : Numeral) : ℕ := Nat.ofDigitChars 10 (n.whole ++ n.fraction.getD []) 0

/-- The power of ten that the last digit counts. -/
def power (n : Numeral) : ℤ := n.exponentValue - (n.fraction.getD []).length

/-- What digits and a power of ten come to, with a sign. -/
def scaled? (negative : Bool) (significand : ℕ) (power : ℤ) : Option Number :=
  (scale significand power).map fun x => .float (if negative then x.negate else x)

theorem value?_of_lt {n : Numeral} (h : n.coefficient < wordLimit) :
    n.value? = if n.fraction.isNone && n.exponent.isNone then
        some (integerValue n.negative n.coefficient)
      else scaled? n.negative n.coefficient n.power := by
  have hsplit : n.coefficient
      = Nat.ofDigitChars 10 (n.fraction.getD []) (Nat.ofDigitChars 10 n.whole 0) :=
    Nat.ofDigitChars_append 0
  have hwhole : gather wordLimit 0 n.whole = (Nat.ofDigitChars 10 n.whole 0, []) :=
    gather_of_lt ((le_ofDigitChars _ (n.fraction.getD [])).trans_lt (hsplit ▸ h))
  have hfraction := gather_of_lt (hsplit ▸ h)
  rw [← hsplit] at hfraction
  unfold value?
  simp only [hwhole, hfraction, List.isEmpty_nil, Bool.and_true, List.length_nil, Nat.sub_zero]
  by_cases hinteger : (n.fraction.isNone && n.exponent.isNone) = true
  · obtain ⟨hnone, -⟩ := Bool.and_eq_true_iff.1 hinteger
    rw [if_pos hinteger, if_pos hinteger, coefficient, Option.isNone_iff_eq_none.1 hnone,
      Option.getD_none, List.append_nil]
  · have hpower : ((0 : ℕ) : ℤ) - ((n.fraction.getD []).length : ℕ) + n.exponentValue = n.power := by
      unfold power
      push_cast
      ring
    rw [if_neg hinteger, if_neg hinteger, hpower, scaled?]

theorem value?_of_zeros {digits : List Char} {count : ℕ} (negative : Bool)
    (h : Nat.ofDigitChars 10 digits 0 < wordLimit)
    (hlarge : wordLimit ≤ Nat.ofDigitChars 10 digits 0 * 10 ^ count) :
    ∃ taken left, taken + left = count ∧ Nat.ofDigitChars 10 digits 0 * 10 ^ taken < wordLimit
      ∧ value? ⟨negative, digits ++ List.replicate count '0', none, none⟩
        = scaled? negative (Nat.ofDigitChars 10 digits 0 * 10 ^ taken) left := by
  obtain ⟨taken, left, hcount, hlt, hgather⟩ := gather_zeros h count
  have hleft : left ≠ 0 := by
    rintro rfl
    rw [← hcount, Nat.add_zero] at hlarge
    omega
  obtain ⟨rest, rfl⟩ := Nat.exists_eq_succ_of_ne_zero hleft
  refine ⟨taken, rest + 1, hcount, hlt, ?_⟩
  have hgathered := (gather_append h (List.replicate count '0')).trans hgather
  unfold value?
  simp only [hgathered, List.replicate_succ, List.isEmpty_cons, Bool.and_false, Bool.false_eq_true,
    if_false, Option.getD_none, gather, List.length_nil, List.length_cons, List.length_replicate,
    Nat.sub_self, Int.natCast_zero, Int.sub_zero, Int.add_zero, exponentValue, scaled?]

theorem exponentValue_toDigits (n : ℤ) (whole : List Char) (fraction : Option (List Char))
    (negative : Bool) :
    exponentValue ⟨negative, whole, fraction, some (decide (0 ≤ n), Nat.toDigits 10 n.natAbs)⟩ = n := by
  have hdigits : ofDigits (Nat.toDigits 10 n.natAbs) = n.natAbs := Nat.ofDigitChars_ten_toDigits
  by_cases h : 0 ≤ n
  · simp only [exponentValue, h, decide_true, hdigits]
    omega
  · simp only [exponentValue, h, decide_false, hdigits]
    omega

end Numeral

namespace Decimal

open Numeral

theorem coefficient_scientificNumeral (negative : Bool) (d : Decimal) :
    (d.scientificNumeral negative).coefficient = d.significand := by
  have hdigits : d.digits.take 1
      ++ (if d.digits.length ≤ 1 then none else some (d.digits.drop 1)).getD [] = d.digits := by
    split
    · next h => rw [Option.getD_none, List.append_nil, List.take_of_length_le h]
    · exact List.take_append_drop 1 d.digits
  rw [coefficient, scientificNumeral, hdigits, significand]

theorem power_scientificNumeral (negative : Bool) {d : Decimal} (h : d.digits ≠ []) :
    (d.scientificNumeral negative).power = d.power := by
  have hlength : ((if d.digits.length ≤ 1 then none else some (d.digits.drop 1)).getD []).length
      = d.digits.length - 1 := by
    split
    · next h => rw [Option.getD_none, List.length_nil, Nat.sub_eq_zero_of_le h]
    · exact List.length_drop
  have hpos := List.length_pos_of_ne_nil h
  rw [Numeral.power, scientificNumeral, exponentValue_toDigits, hlength, Decimal.power]
  omega

theorem parts_positionalNumeral (negative : Bool) {d : Decimal} (h : d.digits ≠ [])
    (hpower : d.power < 0) :
    (d.positionalNumeral negative).coefficient = d.significand
      ∧ (d.positionalNumeral negative).power = d.power
      ∧ (d.positionalNumeral negative).fraction.isNone = false := by
  have hpos := List.length_pos_of_ne_nil h
  unfold Decimal.power at hpower ⊢
  by_cases hlead : d.lead < 0
  · have hfraction : (List.replicate (-d.lead - 1).toNat '0' ++ d.digits).isEmpty = false := by
      rw [Bool.eq_false_iff, ne_eq, List.isEmpty_iff, List.append_eq_nil_iff]
      exact fun hnil => h hnil.2
    rw [positionalNumeral, positional, if_pos hlead]
    simp only [hfraction, Bool.false_eq_true, if_false, coefficient, Numeral.power, exponentValue,
      Option.getD_some, Option.isNone_some, List.length_append, List.length_replicate, and_true]
    constructor
    · have hzeros : Nat.ofDigitChars 10 ['0'] 0 = 0 := rfl
      rw [Nat.ofDigitChars_append, Nat.ofDigitChars_append, hzeros,
        Nat.ofDigitChars_replicate_zero, Nat.mul_zero, significand]
    · omega
  · obtain ⟨n, hn⟩ := Int.eq_ofNat_of_zero_le (show 0 ≤ d.lead + 1 by omega)
    have hzeros : n - d.digits.length = 0 := by omega
    have hfraction : (d.digits.drop n).isEmpty = false := by
      rw [Bool.eq_false_iff, ne_eq, List.isEmpty_iff, List.drop_eq_nil_iff]
      omega
    rw [positionalNumeral, positional, if_neg hlead]
    simp only [hn, Int.toNat_natCast, hzeros, List.replicate_zero, List.append_nil, hfraction,
      Bool.false_eq_true, if_false, coefficient, Numeral.power, exponentValue, Option.getD_some,
      Option.isNone_some, List.take_append_drop, List.length_drop, and_true]
    exact ⟨rfl, by omega⟩

theorem positionalNumeral_of_whole (negative : Bool) {d : Decimal} (h : d.digits ≠ [])
    (hpower : 0 ≤ d.power) :
    d.positionalNumeral negative
      = ⟨negative, d.digits ++ List.replicate d.power.toNat '0', none, none⟩ := by
  simp [positionalNumeral, positional_of_whole h hpower]

end Decimal
end ValidatorGen
