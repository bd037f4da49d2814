import ValidatorGen.Proofs.Json.NumberLiteral
import ValidatorGen.Proofs.Numeric.Rounding
import ValidatorGen.Proofs.Reading.Result

/-! Reading of number literals. Main statements: what is read is a number literal, each literal is
read to its end if no character of a literal follows, and only finite numbers come out. -/
namespace ValidatorGen

open Binary64

attribute [local irreducible] unitsPerOne

namespace Numeral

theorem gather_lt {limit : Nat} (digits : List Char) {n : Nat} (h : n < limit) :
    (gather limit n digits).1 < limit := by
  induction digits generalizing n with
  | nil => exact h
  | cons d digits ih =>
    simp only [gather]
    split
    · next hlt => exact ih hlt
    · exact h

theorem isFinite_div_powTen {x : Binary64} {k : Nat} (hk : k + 1 ≤ 1022)
    (h : x.units ≤ 2 ^ k * unitsPerOne) (n : Nat) : (x.div (powTen n)).isFinite := by
  have hlt := lt_units_powTen_mul n h
  exact isFinite_ofRatio hk hlt

theorem units_div_powTen_le {x : Binary64} {k : Nat} (h : x.units ≤ 2 ^ k * unitsPerOne) (n : Nat) :
    (x.div (powTen n)).units ≤ 2 ^ (k + 1) * unitsPerOne := by
  have hlt := lt_units_powTen_mul n h
  exact units_ofRatio_le hlt

theorem isFinite_word {n : Nat} (h : n < wordLimit) : (ofNat n).isFinite := by
  have hword : n < 1 * 2 ^ 64 := by
    rw [one_mul]
    exact h
  exact isFinite_ofRatio (by decide) hword

theorem units_word_le {n : Nat} (h : n < wordLimit) :
    (ofNat n).units ≤ 2 ^ 64 * unitsPerOne := by
  have hword : n < 1 * 2 ^ 64 := by
    rw [one_mul]
    exact h
  exact units_ofRatio_le hword

theorem isFinite_scale {significand : Nat} (h : significand < wordLimit) {power : Int}
    {x : Binary64} (hx : scale significand power = some x) : x.isFinite := by
  have hfinite := isFinite_word h
  have hunits := units_word_le h
  unfold scale at hx
  simp only at hx
  split at hx
  · split at hx
    · rw [← Option.some.inj hx]
      exact hfinite
    · cases hx
  · split at hx
    · split at hx
      · next hproduct =>
        rw [← Option.some.inj hx]
        exact hproduct
      · cases hx
    · split at hx
      · rw [← Option.some.inj hx]
        exact isFinite_div_powTen (by decide) hunits _
      · split at hx
        · have hfirst := units_div_powTen_le hunits 308
          rw [← Option.some.inj hx]
          exact isFinite_div_powTen (by decide) hfirst _
        · rw [← Option.some.inj hx]
          exact isFinite_word (by decide)

theorem isFinite_integerValue {n : Nat} (h : n < wordLimit) (negative : Bool) :
    (integerValue negative n).toBinary64.isFinite := by
  unfold integerValue
  split
  · exact isFinite_word (UInt64.toNat_lt _)
  · split
    · exact (isFinite_negate _).trans (isFinite_word h)
    · exact (isFinite_negate _).trans (isFinite_word (UInt64.toNat_lt _))

theorem isFinite_of_value? {n : Numeral} {v : Number} (h : n.value? = some v) :
    v.toBinary64.isFinite := by
  have hwhole : (gather wordLimit 0 n.whole).1 < wordLimit := gather_lt _ (by decide)
  unfold value? at h
  simp only at h
  split at h
  · exact Option.some.inj h ▸ isFinite_integerValue hwhole n.negative
  · obtain ⟨x, hx, rfl⟩ := Option.map_eq_some_iff.1 h
    have hfinite := isFinite_scale (gather_lt _ hwhole) hx
    show (if n.negative then x.negate else x).isFinite
    split
    · rwa [isFinite_negate]
    · exact hfinite

end Numeral

namespace Reader

theorem outcome_digits {ds rest : List Char} (atEnd : Cause) (h : IsDigits ds)
    (hrest : ∀ c ∈ rest.head?, c.isDigit = false) :
    (digits atEnd).outcome (ds ++ rest) = .ok (ds, rest) := by
  obtain ⟨htake, hdrop⟩ := span_append h.2 hrest
  have hne : ds ≠ [] := h.1
  simp [digits, htake, hdrop, hne]

theorem digits_sound {atEnd : Cause} {text ds rest : List Char}
    (h : (digits atEnd).result? text = some (ds, rest)) : IsDigits ds ∧ text = ds ++ rest := by
  simp only [digits, result?_bind, result?_span, Option.bind_some, result?_ite] at h
  split at h
  · simp only [result?_peek, Option.bind_some] at h
    split at h <;> cases h
  · next hne =>
    cases h
    refine ⟨⟨?_, ?_⟩, List.takeWhile_append_dropWhile.symm⟩
    · simpa using hne
    · exact List.all_eq_true.1 List.all_takeWhile

theorem outcome_wholeDigits {ds rest : List Char} (atEnd : Cause) (h : Numeral.IsWhole ds)
    (hrest : ∀ c ∈ rest.head?, c.isDigit = false) :
    (wholeDigits atEnd).outcome (ds ++ rest) = .ok (ds, rest) := by
  rcases h with rfl | ⟨hdigits, hzero⟩
  · cases rest with
    | nil => simp [wholeDigits]
    | cons c rest =>
      have hc := hrest c (by simp)
      simp [wholeDigits, hc]
  · have hhead : (ds ++ rest).head? ≠ some '0' := by
      obtain ⟨d, tail, rfl⟩ := List.exists_cons_of_ne_nil hdigits.1
      simpa using hzero
    simp only [wholeDigits, outcome_bind, outcome_peek, Verdict.ok_bind, if_neg hhead]
    exact outcome_digits atEnd hdigits hrest

theorem wholeDigits_sound {atEnd : Cause} {text ds rest : List Char}
    (h : (wholeDigits atEnd).result? text = some (ds, rest)) :
    Numeral.IsWhole ds ∧ text = ds ++ rest := by
  simp only [wholeDigits, result?_bind, result?_peek, Option.bind_some, result?_ite] at h
  split at h
  · next hzero =>
    simp only [result?_skip, Option.bind_some] at h
    obtain ⟨tail, rfl⟩ := List.head?_eq_some_iff.1 hzero
    split at h
    · cases h
    · cases h
      exact ⟨.inl rfl, rfl⟩
  · next hzero =>
    obtain ⟨hdigits, rfl⟩ := digits_sound h
    obtain ⟨d, tail, rfl⟩ := List.exists_cons_of_ne_nil hdigits.1
    exact ⟨.inr ⟨hdigits, by simpa using hzero⟩, rfl⟩

theorem outcome_fraction? {fraction : Option (List Char)} {text rest : List Char} (atEnd : Cause)
    (h : Numeral.FractionWritten fraction text)
    (hrest : ∀ c ∈ rest.head?, c ≠ '.' ∧ c.isDigit = false) :
    (fraction? atEnd).outcome (text ++ rest) = .ok (fraction, rest) := by
  cases h with
  | absent =>
    have hpoint : rest.head? ≠ some '.' := fun hc => (hrest '.' hc).1 rfl
    simp [fraction?, hpoint]
  | present hdigits =>
    have hread := outcome_digits atEnd hdigits fun c hc => (hrest c hc).2
    simp [fraction?, hread]

theorem fraction?_sound {atEnd : Cause} {fraction : Option (List Char)} {text rest : List Char}
    (h : (fraction? atEnd).result? text = some (fraction, rest)) :
    ∃ chars, Numeral.FractionWritten fraction chars ∧ text = chars ++ rest := by
  simp only [fraction?, result?_bind, result?_peek, Option.bind_some, result?_ite] at h
  split at h
  · next hpoint =>
    obtain ⟨tail, rfl⟩ := List.head?_eq_some_iff.1 hpoint
    simp only [result?_skip, Option.bind_some, Option.bind_eq_some_iff] at h
    obtain ⟨⟨ds, middle⟩, hread, h⟩ := h
    cases h
    obtain ⟨hdigits, htail⟩ := digits_sound hread
    exact ⟨'.' :: ds, .present hdigits, by simpa using htail⟩
  · cases h
    exact ⟨[], .absent, rfl⟩

theorem outcome_exponentSign {positive : Bool} {sign ds : List Char} (rest : List Char)
    (h : Numeral.SignWritten positive sign) (hdigits : IsDigits ds) :
    exponentSign.outcome (sign ++ (ds ++ rest)) = .ok (positive, ds ++ rest) := by
  obtain ⟨d, tail, rfl⟩ := List.exists_cons_of_ne_nil hdigits.1
  have hd : d.isDigit := hdigits.2 d (by simp)
  cases h with
  | bare =>
    have hplus : d ≠ '+' := fun heq => by simp [heq] at hd
    have hminus : d ≠ '-' := fun heq => by simp [heq] at hd
    simp [exponentSign, hplus, hminus]
  | plus => simp [exponentSign]
  | minus => simp [exponentSign]

theorem exponentSign_sound {positive : Bool} {text rest : List Char}
    (h : exponentSign.result? text = some (positive, rest)) :
    ∃ sign, Numeral.SignWritten positive sign ∧ text = sign ++ rest := by
  simp only [exponentSign, result?_bind, result?_peek, Option.bind_some] at h
  split at h
  · next hplus =>
    obtain ⟨tail, rfl⟩ := List.head?_eq_some_iff.1 hplus
    cases h
    exact ⟨['+'], .plus, rfl⟩
  · next hminus =>
    obtain ⟨tail, rfl⟩ := List.head?_eq_some_iff.1 hminus
    cases h
    exact ⟨['-'], .minus, rfl⟩
  · cases h
    exact ⟨[], .bare, rfl⟩

theorem outcome_exponent? {exponent : Option (Bool × List Char)} {text rest : List Char}
    (atEnd : Cause) (h : Numeral.ExponentWritten exponent text)
    (hrest : ∀ c ∈ rest.head?, ¬IsNumeralChar c) :
    (exponent? atEnd).outcome (text ++ rest) = .ok (exponent, rest) := by
  cases h with
  | absent =>
    have hmark : ¬(rest.head? = some 'e' ∨ rest.head? = some 'E') := by
      rintro (hc | hc)
      · exact hrest 'e' hc (by simp [IsNumeralChar])
      · exact hrest 'E' hc (by simp [IsNumeralChar])
    simp [exponent?, hmark]
  | present mark hmark hsign hdigits =>
    have hread := outcome_digits atEnd hdigits fun c hc => by
      simpa [IsNumeralChar] using fun hdigit => hrest c hc (.inl hdigit)
    have hsigned := outcome_exponentSign rest hsign hdigits
    simp [exponent?, hmark, hsigned, hread]

theorem exponent?_sound {atEnd : Cause} {exponent : Option (Bool × List Char)}
    {text rest : List Char} (h : (exponent? atEnd).result? text = some (exponent, rest)) :
    ∃ chars, Numeral.ExponentWritten exponent chars ∧ text = chars ++ rest := by
  simp only [exponent?, result?_bind, result?_peek, Option.bind_some, result?_ite] at h
  split at h
  · next hmark =>
    have hexists : ∃ mark tail, (mark = 'e' ∨ mark = 'E') ∧ text = mark :: tail := by
      rcases hmark with hmark | hmark
      · obtain ⟨tail, rfl⟩ := List.head?_eq_some_iff.1 hmark
        exact ⟨'e', tail, by simp⟩
      · obtain ⟨tail, rfl⟩ := List.head?_eq_some_iff.1 hmark
        exact ⟨'E', tail, by simp⟩
    obtain ⟨mark, tail, hcase, rfl⟩ := hexists
    simp only [result?_skip, List.tail_cons, Option.bind_some, Option.bind_eq_some_iff] at h
    obtain ⟨⟨positive, signed⟩, hsigned, ⟨ds, middle⟩, hread, h⟩ := h
    cases h
    obtain ⟨sign, hsign, rfl⟩ := exponentSign_sound hsigned
    obtain ⟨hdigits, rfl⟩ := digits_sound hread
    exact ⟨mark :: (sign ++ ds), .present mark hcase hsign hdigits, by simp⟩
  · cases h
    exact ⟨[], .absent, rfl⟩

theorem exponent_head? {exponent : Option (Bool × List Char)} {text rest : List Char}
    (h : Numeral.ExponentWritten exponent text) (hrest : ∀ c ∈ rest.head?, ¬IsNumeralChar c) :
    ∀ c ∈ (text ++ rest).head?, c ≠ '.' ∧ c.isDigit = false := by
  cases h with
  | absent =>
    intro c hc
    have hc := hrest c hc
    simp only [IsNumeralChar, not_or, Bool.not_eq_true] at hc
    exact ⟨fun heq => hc.2 (by simp [heq]), hc.1⟩
  | present mark hmark _ _ => rcases hmark with rfl | rfl <;> simp

theorem fraction_head? {fraction : Option (List Char)} {text rest : List Char}
    (h : Numeral.FractionWritten fraction text)
    (hrest : ∀ c ∈ rest.head?, c ≠ '.' ∧ c.isDigit = false) :
    ∀ c ∈ (text ++ rest).head?, c.isDigit = false := by
  cases h with
  | absent => exact fun c hc => (hrest c hc).2
  | present _ => simp

theorem whole_head? {whole : List Char} (h : Numeral.IsWhole whole) (rest : List Char) :
    (whole ++ rest).head? ≠ some '-' := by
  rcases h with rfl | ⟨hdigits, -⟩
  · simp
  · obtain ⟨d, tail, rfl⟩ := List.exists_cons_of_ne_nil hdigits.1
    have hd : d.isDigit := hdigits.2 d (by simp)
    rintro heq
    simp only [List.cons_append, List.head?_cons, Option.some.injEq] at heq
    simp [heq] at hd

/-- Reads a literal after its sign. -/
def unsigned (atEnd : Cause) (negative : Bool) : Reader Numeral := do
  let whole ← wholeDigits atEnd
  let fraction ← fraction? atEnd
  let exponent ← exponent? atEnd
  return ⟨negative, whole, fraction, exponent⟩

theorem outcome_numeral_eq (atEnd : Cause) (text : List Char) :
    (numeral atEnd).outcome text = (unsigned atEnd (text.head? = some '-')).outcome
      (if text.head? = some '-' then text.tail else text) := by
  by_cases h : text.head? = some '-' <;> simp [numeral, unsigned, h]

theorem outcome_unsigned {whole fractionChars exponentChars rest : List Char}
    {fraction : Option (List Char)} {exponent : Option (Bool × List Char)} (atEnd : Cause)
    (negative : Bool) (hwhole : Numeral.IsWhole whole)
    (hfraction : Numeral.FractionWritten fraction fractionChars)
    (hexponent : Numeral.ExponentWritten exponent exponentChars)
    (hrest : ∀ c ∈ rest.head?, ¬IsNumeralChar c) :
    (unsigned atEnd negative).outcome (whole ++ (fractionChars ++ (exponentChars ++ rest)))
      = .ok (⟨negative, whole, fraction, exponent⟩, rest) := by
  have hafter := exponent_head? hexponent hrest
  have hreadWhole := outcome_wholeDigits atEnd hwhole (fraction_head? hfraction hafter)
  have hreadFraction := outcome_fraction? atEnd hfraction hafter
  have hreadExponent := outcome_exponent? atEnd hexponent hrest
  simp [unsigned, hreadWhole, hreadFraction, hreadExponent]

theorem unsigned_sound {atEnd : Cause} {negative : Bool} {n : Numeral} {text rest : List Char}
    (h : (unsigned atEnd negative).result? text = some (n, rest)) :
    ∃ chars, n.Written (Numeral.minusSign negative ++ chars) ∧ text = chars ++ rest := by
  simp only [unsigned, result?_bind, Option.bind_eq_some_iff] at h
  obtain ⟨⟨whole, _⟩, hreadWhole, ⟨fraction, _⟩, hreadFraction, ⟨exponent, _⟩, hreadExponent, h⟩ := h
  cases h
  obtain ⟨hwhole, rfl⟩ := wholeDigits_sound hreadWhole
  obtain ⟨fractionChars, hfraction, rfl⟩ := fraction?_sound hreadFraction
  obtain ⟨exponentChars, hexponent, rfl⟩ := exponent?_sound hreadExponent
  have hwritten := Numeral.Written.mk negative hwhole hfraction hexponent
  refine ⟨whole ++ fractionChars ++ exponentChars, ?_, by simp⟩
  simpa using hwritten

/-- A number literal is read to its end. -/
theorem outcome_numeral {n : Numeral} {text rest : List Char} (atEnd : Cause) (h : n.Written text)
    (hrest : ∀ c ∈ rest.head?, ¬IsNumeralChar c) :
    (numeral atEnd).outcome (text ++ rest) = .ok (n, rest) := by
  obtain @⟨negative, whole, fractionChars, exponentChars, fraction, exponent, hwhole, hfraction,
    hexponent⟩ := h
  have hread := outcome_unsigned atEnd negative hwhole hfraction hexponent hrest
  rw [outcome_numeral_eq]
  cases negative with
  | true => simpa [Numeral.minusSign] using hread
  | false =>
    have hminus := whole_head? hwhole (fractionChars ++ (exponentChars ++ rest))
    simp only [Numeral.minusSign, Bool.false_eq_true, if_false, List.nil_append, List.append_assoc,
      hminus, decide_false]
    exact hread

/-- What is read as a numeral is written as one. -/
theorem numeral_sound {atEnd : Cause} {n : Numeral} {text rest : List Char}
    (h : (numeral atEnd).result? text = some (n, rest)) :
    ∃ chars, n.Written chars ∧ text = chars ++ rest := by
  rw [result?_eq_toOption, outcome_numeral_eq, ← result?_eq_toOption] at h
  by_cases hminus : text.head? = some '-'
  · obtain ⟨tail, rfl⟩ := List.head?_eq_some_iff.1 hminus
    simp only [List.head?_cons, decide_true, if_true, List.tail_cons] at h
    obtain ⟨chars, hwritten, rfl⟩ := unsigned_sound h
    exact ⟨'-' :: chars, hwritten, rfl⟩
  · simp only [hminus, decide_false, if_false] at h
    obtain ⟨chars, hwritten, rfl⟩ := unsigned_sound h
    exact ⟨chars, hwritten, rfl⟩

end Reader
end ValidatorGen
