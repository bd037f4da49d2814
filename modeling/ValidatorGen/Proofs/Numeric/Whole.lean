import Mathlib.Data.List.Induction
import ValidatorGen.Numeric.Literal
import ValidatorGen.Proofs.Numeric.Decimal
import ValidatorGen.Proofs.Numeric.Rounds

/-! Whole numbers below `2 ^ 53`. Main statement: their shortest digits are their own, so they look
the same whether they are written as a value or as an integer. -/
namespace ValidatorGen

theorem digitChar_of_isDigit {d : Char} (h : d.isDigit) :
    d.toNat - '0'.toNat < 10 ∧ Nat.digitChar (d.toNat - '0'.toNat) = d := by
  have hall : ∀ n < 10, Nat.digitChar n = Char.ofNat ('0'.toNat + n) := by decide
  obtain ⟨hlow, hup⟩ := Char.isDigit_iff_toNat.1 h
  have hnine : '9'.toNat = '0'.toNat + 9 := rfl
  have hlt : d.toNat - '0'.toNat < 10 := by omega
  refine ⟨hlt, ?_⟩
  rw [hall _ hlt, Nat.add_sub_cancel' hlow, Char.ofNat_toNat]

theorem toDigits_ofDigitChars {digits : List Char} (h : IsDigits digits)
    (hhead : digits.head? ≠ some '0') :
    Nat.toDigits 10 (Nat.ofDigitChars 10 digits 0) = digits := by
  induction digits using List.reverseRecOn with
  | nil => exact absurd rfl h.1
  | append_singleton front d ih =>
    obtain ⟨hlt, hd⟩ := digitChar_of_isDigit (h.2 d (by simp))
    rw [Nat.ofDigitChars_append, Nat.ofDigitChars_cons, Nat.ofDigitChars_nil]
    cases front with
    | nil =>
      rw [Nat.ofDigitChars_nil, Nat.mul_zero, Nat.zero_add, Nat.toDigits_of_lt_base hlt, hd]
      rfl
    | cons c rest =>
      have hfront : IsDigits (c :: rest) := ⟨nofun, fun e he => h.2 e (List.mem_append_left _ he)⟩
      have hrest := ih hfront (by simpa using hhead)
      have hpos : 0 < Nat.ofDigitChars 10 (c :: rest) 0 := by
        apply Nat.pos_of_ne_zero
        intro hzero
        rw [hzero, Nat.toDigits_zero, List.cons.injEq] at hrest
        simp [← hrest.1] at hhead
      rw [← Nat.toDigits_append_toDigits (by decide) hpos hlt, hrest,
        Nat.toDigits_of_lt_base hlt, hd]

/-- A whole number ends in as many zeros as its power of ten says. -/
theorem Decimal.positional_of_whole {d : Decimal} (h : d.digits ≠ []) (hpower : 0 ≤ d.power) :
    d.positional = (d.digits ++ List.replicate d.power.toNat '0', []) := by
  have hpos := List.length_pos_of_ne_nil h
  unfold power at hpower ⊢
  obtain ⟨n, hn⟩ := Int.eq_ofNat_of_zero_le (show 0 ≤ d.lead + 1 by omega)
  have hlength : d.digits.length ≤ n := by omega
  have hzeros : ((n : ℤ) - (d.digits.length : ℕ)).toNat = n - d.digits.length := by omega
  rw [positional, if_neg (by omega)]
  simp only [hn, Int.toNat_natCast, List.take_of_length_le hlength, List.drop_eq_nil_of_le hlength,
    hzeros]

namespace Binary64

attribute [local irreducible] unitsPerOne

section

variable {x : Binary64} {n : ℕ}

theorem two_pow_spacing_le_unitsPerOne (h : x.units < 2 ^ 53 * unitsPerOne) :
    2 ^ x.spacing ≤ unitsPerOne := by
  obtain ⟨u, -, hone⟩ := exists_unitExponent
  rcases x.spacing_eq_zero_or with hzero | hkept
  · rw [hzero, pow_zero]
    exact unitsPerOne_pos
  · rw [hone] at h ⊢
    have hle : 2 ^ 52 * 2 ^ x.spacing ≤ x.units := by
      rw [x.units_eq, ← binade_eq]
      exact Nat.mul_le_mul_right _ hkept
    have hlt : 2 ^ (52 + x.spacing) < 2 ^ (53 + u) := by
      rw [pow_add, pow_add]
      exact hle.trans_lt h
    have hexponent := (Nat.pow_lt_pow_iff_right (by decide)).1 hlt
    exact Nat.pow_le_pow_right (by decide) (by omega)

theorem significand_of_whole (h₀ : x.magnitude ≠ 0) (h : x.units = n * unitsPerOne)
    (hn : n < 2 ^ 53) : (x.shortest .up).significand * 10 ^ (x.shortest .up).power.toNat = n := by
  have hspacing : 2 ^ x.spacing ≤ unitsPerOne :=
    two_pow_spacing_le_unitsPerOne (h ▸ Nat.mul_lt_mul_of_pos_right hn unitsPerOne_pos)
  obtain ⟨p, hp⟩ := Int.eq_ofNat_of_zero_le (power_shortest_nonneg h₀ .up h)
  have hnear := abs_sub_units_le_of_holds (holds_shortest h₀ .up)
  rw [hp, size, zpow_natCast, h, Nat.cast_mul, ← sub_mul, abs_mul,
    abs_of_pos unitsPerOne_cast_pos] at hnear
  have hcast : (2 ^ x.spacing : ℚ) ≤ unitsPerOne := by exact_mod_cast hspacing
  have hone := unitsPerOne_cast_pos
  have hhalf : |((x.shortest .up).significand * 10 ^ p - n : ℚ)| < 1 := by
    refine lt_of_mul_lt_mul_right (lt_of_le_of_lt hnear ?_) hone.le
    linarith
  rw [hp, Int.toNat_natCast]
  have hint : |((x.shortest .up).significand * 10 ^ p : ℤ) - n| < 1 := by exact_mod_cast hhalf
  exact_mod_cast sub_eq_zero.1 (Int.abs_lt_one_iff.1 hint)

/-- The shortest digits of a whole number below `2 ^ 53` are its own. -/
theorem positional_of_whole (h₀ : x.magnitude ≠ 0) (h : x.units = n * unitsPerOne)
    (hn : n < 2 ^ 53) : (x.shortest .up).positional = (Nat.toDigits 10 n, []) := by
  obtain ⟨hdigits, hhead⟩ := shortest_digits h₀ .up
  have hwhole : IsDigits
      ((x.shortest .up).digits ++ List.replicate (x.shortest .up).power.toNat '0') := by
    refine ⟨by simp [hdigits.1], fun c hc => ?_⟩
    rcases List.mem_append.1 hc with hc | hc
    · exact hdigits.2 c hc
    · rw [(List.mem_replicate.1 hc).2]
      decide
  rw [Decimal.positional_of_whole hdigits.1 (power_shortest_nonneg h₀ .up h),
    ← toDigits_ofDigitChars hwhole (by rwa [List.head?_append_of_ne_nil _ hdigits.1]),
    Nat.ofDigitChars_append, Nat.ofDigitChars_replicate_zero, Nat.mul_comm, ← Decimal.significand,
    significand_of_whole h₀ h hn]

theorem exists_of_isSafeInteger (h : x.isSafeInteger) :
    ∃ n < 2 ^ 53, x.units = n * unitsPerOne := by
  have hlargest : (ofNat 9007199254740991).units = 9007199254740991 * unitsPerOne := by
    decide +kernel
  obtain ⟨hwhole, hmagnitude⟩ : x.units % unitsPerOne = 0 ∧ x.magnitude ≤ safeLimit := by
    simpa [isSafeInteger] using h
  have hunits := units_le_of_magnitude_le hmagnitude
  rw [hlargest, ← Nat.div_mul_cancel (Nat.dvd_of_mod_eq_zero hwhole)] at hunits
  exact ⟨x.units / unitsPerOne,
    (Nat.le_of_mul_le_mul_right hunits unitsPerOne_pos).trans_lt (by norm_num),
    (Nat.div_mul_cancel (Nat.dvd_of_mod_eq_zero hwhole)).symm⟩

theorem toString_truncated (hpos : n ≠ 0) (h : x.units = n * unitsPerOne) :
    (toString x.truncated).toList = x.signed (Nat.toDigits 10 n) := by
  rw [truncated, h, Nat.mul_div_cancel _ unitsPerOne_pos, signed]
  cases x.isNegative with
  | false => simp [toString, Int.repr]
  | true =>
    obtain ⟨m, rfl⟩ := Nat.exists_eq_succ_of_ne_zero hpos
    have hnegative : -((m.succ : ℕ) : ℤ) = Int.negSucc m := rfl
    rw [if_pos rfl, if_pos rfl, hnegative]
    simp [toString, Int.repr]

/-- As an integer a whole number looks the same as with its shortest digits. -/
theorem literal_of_whole (h₀ : x.magnitude ≠ 0) (h : x.isSafeInteger) :
    (toString x.truncated).toList = x.signed ((x.shortest .up).positional.1
      ++ if (x.shortest .up).positional.2.isEmpty then []
        else '.' :: (x.shortest .up).positional.2) := by
  obtain ⟨n, hn, hunits⟩ := exists_of_isSafeInteger h
  have hpos : n ≠ 0 := by
    rintro rfl
    have := units_pos h₀
    omega
  rw [toString_truncated hpos hunits, positional_of_whole h₀ hunits hn]
  simp

end

theorem literalChars_of_magnitude_eq_zero {x : Binary64} (h : x.magnitude = 0) :
    x.literalChars = ['0'] := by
  have hunits : x.units = 0 := units_eq_zero_iff.2 h
  have hnumber : x.isNaN = false ∧ x.isFinite = true := by
    simp only [isNaN, isFinite, h]
    decide
  have hexponent : x.hasExponent = false := by
    simp only [hasExponent, h]
    decide +kernel
  have hsafe : x.isSafeInteger = true := by simp [isSafeInteger, h, hunits]
  have htruncated : x.truncated = 0 := by simp [truncated, hunits]
  simp only [literalChars, hnumber, hexponent, hsafe, htruncated]
  rfl

theorem literalChars_eq {x : Binary64} (hx : x.isFinite) (h₀ : x.magnitude ≠ 0) :
    x.literalChars = if x.hasExponent
      then x.signed ((x.shortest .up).scientific ++ 'e' :: (toString (x.shortest .up).lead).toList)
      else x.signed ((x.shortest .up).positional.1
        ++ if (x.shortest .up).positional.2.isEmpty then []
          else '.' :: (x.shortest .up).positional.2) := by
  rw [literalChars, not_isNaN_of_isFinite hx, hx]
  simp only [Bool.not_true, Bool.false_eq_true, if_false]
  by_cases hexponent : x.hasExponent
  · rw [if_pos hexponent, if_pos hexponent]
  · rw [if_neg hexponent, if_neg hexponent]
    by_cases hsafe : x.isSafeInteger
    · rw [if_pos hsafe, literal_of_whole h₀ hsafe]
    · rw [if_neg hsafe]

end Binary64
end ValidatorGen
