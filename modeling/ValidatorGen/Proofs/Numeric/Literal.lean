import ValidatorGen.Proofs.Numeric.Whole

/-! The literal of a finite value is a number literal, and what its parts are. -/
namespace ValidatorGen

namespace Decimal

def scientificNumeral (negative : Bool) (d : Decimal) : Numeral :=
  ⟨negative, d.digits.take 1, if d.digits.length ≤ 1 then none else some (d.digits.drop 1),
    some (decide (0 ≤ d.lead), Nat.toDigits 10 d.lead.natAbs)⟩

def positionalNumeral (negative : Bool) (d : Decimal) : Numeral :=
  ⟨negative, d.positional.1, if d.positional.2.isEmpty then none else some d.positional.2, none⟩

/-- The digits before the point of a shortest decimal, and those after it if there are any. -/
theorem isWhole_positional {d : Decimal} (h : IsDigits d.digits)
    (hhead : d.digits.head? ≠ some '0') : Numeral.IsWhole d.positional.1 := by
  unfold positional
  split
  · exact .inl rfl
  · next hlead =>
    obtain ⟨c, rest, hc⟩ := List.exists_cons_of_ne_nil h.1
    obtain ⟨n, hn⟩ : ∃ n, (d.lead + 1).toNat = n + 1 := ⟨d.lead.toNat, by omega⟩
    refine .inr ⟨⟨by simp [hc, hn], fun e he => ?_⟩, by simpa [hc, hn] using hhead⟩
    rcases List.mem_append.1 he with he | he
    · exact h.2 e (List.mem_of_mem_take he)
    · rw [(List.mem_replicate.1 he).2]
      decide

theorem fractionWritten_positional {d : Decimal} (h : IsDigits d.digits) :
    Numeral.FractionWritten (if d.positional.2.isEmpty then none else some d.positional.2)
      (if d.positional.2.isEmpty then [] else '.' :: d.positional.2) := by
  split
  · exact .absent
  · next hne =>
    refine .present ⟨by simpa using hne, fun c hc => ?_⟩
    unfold positional at hc
    split at hc
    · rcases List.mem_append.1 hc with hc | hc
      · rw [(List.mem_replicate.1 hc).2]
        decide
      · exact h.2 c hc
    · exact h.2 c (List.mem_of_mem_drop hc)

theorem fractionWritten_scientific {d : Decimal} (h : IsDigits d.digits) :
    Numeral.FractionWritten (if d.digits.length ≤ 1 then none else some (d.digits.drop 1))
      (if d.digits.length ≤ 1 then [] else '.' :: d.digits.drop 1) := by
  split
  · exact .absent
  · next hlength =>
    refine .present ⟨?_, fun c hc => h.2 c (List.mem_of_mem_drop hc)⟩
    rw [ne_eq, List.drop_eq_nil_iff]
    exact hlength

/-- An integer is written as an exponent: digits with a minus if it is negative. -/
theorem exponentWritten_toString (n : Int) :
    Numeral.ExponentWritten (some (decide (0 ≤ n), Nat.toDigits 10 n.natAbs))
      ('e' :: (toString n).toList) := by
  cases n with
  | ofNat n =>
    have := Numeral.ExponentWritten.present 'e' (.inl rfl) .bare (isDigits_toDigits n)
    simpa [toString, Int.repr] using this
  | negSucc n =>
    have := Numeral.ExponentWritten.present 'e' (.inl rfl) .minus
      (isDigits_toDigits (n + 1))
    simpa [toString, Int.repr] using this

theorem written_positionalNumeral {d : Decimal} (negative : Bool) (h : IsDigits d.digits)
    (hhead : d.digits.head? ≠ some '0') :
    (d.positionalNumeral negative).Written (Numeral.minusSign negative ++ (d.positional.1
      ++ if d.positional.2.isEmpty then [] else '.' :: d.positional.2)) := by
  have hwritten := Numeral.Written.mk negative (isWhole_positional h hhead)
    (fractionWritten_positional h) .absent
  simpa only [positionalNumeral, List.append_assoc, List.append_nil] using hwritten

theorem written_scientificNumeral {d : Decimal} (negative : Bool) (h : IsDigits d.digits)
    (hhead : d.digits.head? ≠ some '0') :
    (d.scientificNumeral negative).Written (Numeral.minusSign negative
      ++ (d.scientific ++ 'e' :: (toString d.lead).toList)) := by
  obtain ⟨c, rest, hc⟩ := List.exists_cons_of_ne_nil h.1
  have hwhole : Numeral.IsWhole (d.digits.take 1) :=
    .inr ⟨⟨by simp [hc], fun e he => h.2 e (List.mem_of_mem_take he)⟩, by simpa [hc] using hhead⟩
  have hwritten := Numeral.Written.mk negative hwhole (fractionWritten_scientific h)
    (exponentWritten_toString d.lead)
  simpa only [scientificNumeral, scientific, List.append_assoc] using hwritten

end Decimal

namespace Binary64

theorem signed_eq (x : Binary64) (text : List Char) :
    x.signed text = Numeral.minusSign x.isNegative ++ text := by
  unfold signed Numeral.minusSign
  split <;> rfl

/-- The parts of the literal of a finite value. -/
def literalNumeral (x : Binary64) : Numeral :=
  if x.magnitude = 0 then ⟨false, ['0'], none, none⟩
  else if x.hasExponent then (x.shortest .up).scientificNumeral x.isNegative
  else (x.shortest .up).positionalNumeral x.isNegative

theorem written_literalNumeral {x : Binary64} (h : x.isFinite) :
    x.literalNumeral.Written x.literalChars := by
  by_cases hzero : x.magnitude = 0
  · rw [literalNumeral, if_pos hzero, literalChars_of_magnitude_eq_zero hzero]
    exact .mk false (.inl rfl) .absent .absent
  · obtain ⟨hdigits, hhead⟩ := shortest_digits hzero .up
    rw [literalNumeral, if_neg hzero, literalChars_eq h hzero, signed_eq, signed_eq]
    split
    · exact Decimal.written_scientificNumeral x.isNegative hdigits hhead
    · exact Decimal.written_positionalNumeral x.isNegative hdigits hhead

theorem isNumberLiteral_literalChars {x : Binary64} (h : x.isFinite) :
    IsNumberLiteral x.literalChars := ⟨x.literalNumeral, written_literalNumeral h⟩

end Binary64
end ValidatorGen
