import Mathlib.Computability.RegularExpressions
import ValidatorGen.Package.Name

/-! Names as a regular language. Main statement: a name can be bound if it matches a pattern as a
whole and is no reserved word. -/
namespace ValidatorGen

open RegularExpression

def oneOf (chars : List Char) : RegularExpression Char := (chars.map char).sum

theorem mem_matches_oneOf {chars text : List Char} :
    text ∈ (oneOf chars).matches' ↔ ∃ c ∈ chars, text = [c] := by
  induction chars with
  | nil => simp [oneOf]
  | cons c chars ih =>
    have hsum : oneOf (c :: chars) = char c + oneOf chars := List.sum_cons
    have hone : text ∈ (char c).matches' ↔ text = [c] := Set.mem_singleton_iff
    rw [hsum, matches'_add, Language.mem_add, ih, hone]
    simp

theorem mem_matches_star_oneOf {chars text : List Char} :
    text ∈ (oneOf chars).star.matches' ↔ ∀ c ∈ text, c ∈ chars := by
  rw [matches'_star, Language.mem_kstar]
  constructor
  · rintro ⟨words, rfl, hwords⟩ c hc
    obtain ⟨word, hword, hmem⟩ := List.mem_flatten.1 hc
    obtain ⟨d, hd, rfl⟩ := mem_matches_oneOf.1 (hwords word hword)
    exact List.mem_singleton.1 hmem ▸ hd
  · intro h
    refine ⟨text.map ([·]), by simp [← List.flatMap_def], fun word hword => ?_⟩
    obtain ⟨c, hc, rfl⟩ := List.mem_map.1 hword
    exact mem_matches_oneOf.2 ⟨c, h c hc, rfl⟩

def nameStarts : List Char := "ABCDEFGHIJKLMNOPQRSTUVWXYZabcdefghijklmnopqrstuvwxyz_$".toList

def nameParts : List Char := nameStarts ++ "0123456789".toList

/-- A letter, an underscore or a dollar sign, and then any number of these and of digits. -/
def namePattern : RegularExpression Char := oneOf nameStarts * (oneOf nameParts).star

/-- A class of ASCII characters is the list of its members. -/
theorem mem_of_ascii {p : Char → Bool} {chars : List Char}
    (h : ∀ n < 128, p (.ofNat n) → .ofNat n ∈ chars) {c : Char} (hascii : c.toNat < 128)
    (hc : p c) : c ∈ chars := by
  have := h c.toNat hascii
  rw [Char.ofNat_toNat] at this
  exact this hc

theorem isNamePart_ascii {c : Char} (h : isNamePart c) : c.toNat < 128 := by
  have hupper (h : c.isUpper) : c.toNat ≤ 90 := UInt32.le_iff_toNat_le.1 (of_decide_eq_true h).2
  have hlower (h : c.isLower) : c.toNat ≤ 122 :=
    UInt32.le_iff_toNat_le.1 (of_decide_eq_true (Bool.and_eq_true_iff.1 h).2)
  have hdigit (h : c.isDigit) : c.toNat ≤ 57 :=
    UInt32.le_iff_toNat_le.1 (of_decide_eq_true (Bool.and_eq_true_iff.1 h).2)
  simp only [isNamePart, isNameStart, Bool.or_eq_true, decide_eq_true_eq] at h
  rcases h with ((h | rfl) | rfl) | h
  · rcases Bool.or_eq_true_iff.1 h with h | h
    · exact (hupper h).trans_lt (by decide)
    · exact (hlower h).trans_lt (by decide)
  · decide
  · decide
  · exact (hdigit h).trans_lt (by decide)

theorem isNameStart_iff {c : Char} : isNameStart c ↔ c ∈ nameStarts := by
  constructor
  · intro h
    have hpart : isNamePart c := by simp [isNamePart, h]
    exact mem_of_ascii (by decide +kernel) (isNamePart_ascii hpart) h
  · have hall : nameStarts.all isNameStart := by decide +kernel
    exact List.all_eq_true.1 hall c

theorem isNamePart_iff {c : Char} : isNamePart c ↔ c ∈ nameParts := by
  constructor
  · intro h
    exact mem_of_ascii (by decide +kernel) (isNamePart_ascii h) h
  · have hall : nameParts.all isNamePart := by decide +kernel
    exact List.all_eq_true.1 hall c

theorem isIdentifier_iff_matches {name : List Char} :
    isIdentifier name ↔ name ∈ namePattern.matches' := by
  rw [namePattern, matches'_mul, Language.mem_mul]
  simp only [mem_matches_oneOf, mem_matches_star_oneOf]
  cases name with
  | nil => simp [isIdentifier]
  | cons c rest =>
    simp [isIdentifier, isNameStart_iff, isNamePart_iff]

/-- Names that can be bound match the pattern as a whole and are not reserved. -/
theorem isBindable_iff {name : String} :
    isBindable name ↔ name.toList ∈ namePattern.matches' ∧ name ∉ reservedWords := by
  simp [isBindable, isIdentifier_iff_matches]

end ValidatorGen
