import ValidatorGen.Reading.Numeral

/-! The grammar of number literals, and the decimal digits of natural numbers as a case of it. -/
namespace ValidatorGen

def IsDigits (digits : List Char) : Prop := digits ≠ [] ∧ ∀ c ∈ digits, c.isDigit

namespace Numeral

/-- The digits before the point: a lone zero, or digits that do not start with one. -/
def IsWhole (digits : List Char) : Prop :=
  digits = ['0'] ∨ IsDigits digits ∧ digits.head? ≠ some '0'

inductive FractionWritten : Option (List Char) → List Char → Prop
  | absent : FractionWritten none []
  | present {digits : List Char} : IsDigits digits →
    FractionWritten (some digits) ('.' :: digits)

/-- A plus may be left out. -/
inductive SignWritten : Bool → List Char → Prop
  | bare : SignWritten true []
  | plus : SignWritten true ['+']
  | minus : SignWritten false ['-']

inductive ExponentWritten : Option (Bool × List Char) → List Char → Prop
  | absent : ExponentWritten none []
  | present (mark : Char) {positive : Bool} {sign digits : List Char} :
    mark = 'e' ∨ mark = 'E' → SignWritten positive sign → IsDigits digits →
    ExponentWritten (some (positive, digits)) (mark :: (sign ++ digits))

def minusSign (negative : Bool) : List Char := if negative then ['-'] else []

inductive Written : Numeral → List Char → Prop
  | mk (negative : Bool) {whole fractionChars exponentChars : List Char}
    {fraction : Option (List Char)} {exponent : Option (Bool × List Char)} :
    IsWhole whole → FractionWritten fraction fractionChars →
    ExponentWritten exponent exponentChars →
    Written ⟨negative, whole, fraction, exponent⟩
      (minusSign negative ++ whole ++ fractionChars ++ exponentChars)

end Numeral

/-- The texts of JSON number literals. -/
def IsNumberLiteral (text : List Char) : Prop := ∃ n : Numeral, n.Written text

def IsNumeralChar (c : Char) : Prop := c.isDigit ∨ c ∈ ['-', '+', '.', 'e', 'E']

instance (c : Char) : Decidable (IsNumeralChar c) := inferInstanceAs (Decidable (_ ∨ _))

theorem IsNumeralChar.isBlank {c : Char} (h : IsNumeralChar c) : Reader.isBlank c = false := by
  have hne (d : Char) (hd : ¬IsNumeralChar d) : c ≠ d := fun heq => hd (heq ▸ h)
  simp [Reader.isBlank, hne ' ' (by decide), hne '\t' (by decide), hne '\n' (by decide),
    hne '\r' (by decide)]

theorem IsDigits.isNumeralChar {digits : List Char} (h : IsDigits digits) :
    ∀ c ∈ digits, IsNumeralChar c := fun c hc => .inl (h.2 c hc)

theorem Numeral.Written.isNumeralChar {n : Numeral} {text : List Char} (h : n.Written text) :
    ∀ c ∈ text, IsNumeralChar c := by
  obtain @⟨negative, whole, fractionChars, exponentChars, _, _, hwhole, hfraction, hexponent⟩ := h
  have h1 : ∀ c ∈ minusSign negative, IsNumeralChar c := by
    cases negative <;> simp [minusSign, IsNumeralChar]
  have h2 : ∀ c ∈ whole, IsNumeralChar c := by
    rcases hwhole with rfl | hdigits
    · simp [IsNumeralChar]
    · exact hdigits.1.isNumeralChar
  have h3 : ∀ c ∈ fractionChars, IsNumeralChar c := by
    cases hfraction with
    | absent => simp
    | present hdigits => simpa [IsNumeralChar] using hdigits.isNumeralChar
  have h4 : ∀ c ∈ exponentChars, IsNumeralChar c := by
    cases hexponent with
    | absent => simp
    | present mark hmark hsign hdigits =>
      have hdigits := hdigits.isNumeralChar
      rcases hmark with rfl | rfl <;> cases hsign <;> simpa [IsNumeralChar] using hdigits
  simp only [List.mem_append, or_imp, forall_and]
  exact ⟨⟨⟨h1, h2⟩, h3⟩, h4⟩

theorem Numeral.Written.exists_cons {n : Numeral} {text : List Char} (h : n.Written text) :
    ∃ c tail, text = c :: tail ∧ (c = '-' ∨ c.isDigit) := by
  obtain @⟨negative, whole, fractionChars, exponentChars, _, _, hwhole, -, -⟩ := h
  have hdigit : ∃ c tail, whole = c :: tail ∧ c.isDigit := by
    rcases hwhole with rfl | ⟨hdigits, -⟩
    · exact ⟨'0', [], rfl, by decide⟩
    · obtain ⟨c, tail, rfl⟩ := List.exists_cons_of_ne_nil hdigits.1
      exact ⟨c, tail, rfl, hdigits.2 c (by simp)⟩
  obtain ⟨c, tail, rfl, hc⟩ := hdigit
  cases negative with
  | true => exact ⟨'-', _, rfl, .inl rfl⟩
  | false => exact ⟨c, _, rfl, .inr hc⟩

theorem isDigits_toDigits (n : Nat) : IsDigits (Nat.toDigits 10 n) :=
  ⟨Nat.toDigits_ne_nil, fun _ hc => Nat.isDigit_of_mem_toDigits (by decide) (by decide) hc⟩

theorem head?_toDigits {n : Nat} (h : 0 < n) : (Nat.toDigits 10 n).head? ≠ some '0' := by
  induction n using Nat.strongRecOn with
  | ind n ih =>
    by_cases hn : n < 10
    · rw [Nat.toDigits_of_lt_base hn]
      simpa using Nat.ne_of_gt h
    · have hrest := ih (n / 10) (by omega) (by omega)
      obtain ⟨d, ds, hds⟩ := List.exists_cons_of_ne_nil (Nat.toDigits_ne_nil (n := n / 10) (b := 10))
      rw [Nat.toDigits_of_base_le (by decide) (by omega)]
      simpa [hds] using hrest

theorem isWhole_toDigits (n : Nat) : Numeral.IsWhole (Nat.toDigits 10 n) := by
  rcases Nat.eq_zero_or_pos n with rfl | h
  · exact .inl (Nat.toDigits_zero 10)
  · exact .inr ⟨isDigits_toDigits n, head?_toDigits h⟩

theorem isNumberLiteral_toString (n : Nat) : IsNumberLiteral (toString n).toList := by
  refine ⟨⟨false, Nat.toDigits 10 n, none, none⟩, ?_⟩
  have := Numeral.Written.mk false (isWhole_toDigits n) .absent .absent
  simpa [Numeral.minusSign] using this

end ValidatorGen
