import ValidatorGen.Reading.Text
import ValidatorGen.Text.Quoted

/-! The grammar of string literals. A literal is made of pieces, and its text determines them: no
piece begins with the quote that ends the literal. Quoting writes one piece for each character, so
whatever a text holds it cannot end its literal early. -/
namespace ValidatorGen.Text

/-- A character that stands for itself, a backslash with a letter, or one with four hexadecimal
digits. -/
inductive Piece where
  | plain (c : Char)
  | escape (letter : Char)
  | unit (a b c d : Char)
deriving DecidableEq

namespace Piece

def chars : Piece → List Char
  | plain c => [c]
  | escape letter => ['\\', letter]
  | unit a b c d => ['\\', 'u', a, b, c, d]

def Proper : Piece → Prop
  | plain c => c ≠ '"' ∧ c ≠ '\\' ∧ 0x20 ≤ c.toNat
  | escape letter => (Reader.escapeMeaning? letter).isSome
  | unit a b c d => ∀ x ∈ [a, b, c, d], (Reader.hexDigit? x).isSome

def unitValue (a b c d : Char) : Nat :=
  ((digit a * 16 + digit b) * 16 + digit c) * 16 + digit d
where
  digit (x : Char) : Nat := (Reader.hexDigit? x).getD 0

/-- The character that a piece stands for on its own. -/
def meaning? : Piece → Option Char
  | plain c => some c
  | escape letter => Reader.escapeMeaning? letter
  | unit a b c d => some (Char.ofNat (unitValue a b c d))

/-- The piece that quoting writes for a character. -/
def ofChar (c : Char) : Piece :=
  if c = '"' ∨ c = '\\' then escape c
  else match escapeLetter? c with
    | some letter => escape letter
    | none =>
      if c.toNat < 0x20 then
        unit '0' '0' (Nat.digitChar (c.toNat / 16)) (Nat.digitChar (c.toNat % 16))
      else plain c

end Piece

def bodyChars (pieces : List Piece) : List Char := pieces.flatMap Piece.chars

@[simp] theorem bodyChars_nil : bodyChars [] = [] := rfl

@[simp] theorem bodyChars_cons (p : Piece) (pieces : List Piece) :
    bodyChars (p :: pieces) = p.chars ++ bodyChars pieces := rfl

/-- The texts of JSON string literals. -/
inductive IsLiteral : List Char → Prop
  | mk {pieces : List Piece} : (∀ p ∈ pieces, p.Proper) →
    IsLiteral ('"' :: (bodyChars pieces ++ ['"']))

theorem escapeMeaning?_u : Reader.escapeMeaning? 'u' = none := by decide

/-- A text begins with at most one piece. -/
theorem Piece.chars_append_inj {p q : Piece} (hp : p.Proper) (hq : q.Proper) {u v : List Char}
    (h : p.chars ++ u = q.chars ++ v) : p = q ∧ u = v := by
  cases p <;> cases q <;> simp [chars, Proper] at h hp hq ⊢ <;> grind [escapeMeaning?_u]

theorem quote_cons_ne {p : Piece} (hp : p.Proper) {ps : List Piece} {u v : List Char} :
    bodyChars [] ++ '"' :: u ≠ bodyChars (p :: ps) ++ '"' :: v := by
  cases p <;> simp_all [Piece.chars, Piece.Proper, Ne.symm]

theorem Piece.length_lt (p : Piece) (rest : List Char) : rest.length < (p.chars ++ rest).length := by
  cases p <;> simp only [chars, List.cons_append, List.nil_append, List.length_cons] <;> omega

/-- The first quote that is no part of a piece ends a literal. -/
theorem bodyChars_append_inj {ps qs : List Piece} (hp : ∀ p ∈ ps, p.Proper)
    (hq : ∀ q ∈ qs, q.Proper) {u v : List Char}
    (h : bodyChars ps ++ '"' :: u = bodyChars qs ++ '"' :: v) : ps = qs ∧ u = v := by
  induction ps generalizing qs with
  | nil =>
    cases qs with
    | nil => simpa using h
    | cons q qs => exact absurd h (quote_cons_ne (hq q (by simp)))
  | cons p ps ih =>
    cases qs with
    | nil => exact absurd h.symm (quote_cons_ne (hp p (by simp)))
    | cons q qs =>
      rw [bodyChars_cons, bodyChars_cons, List.append_assoc, List.append_assoc] at h
      obtain ⟨rfl, hrest⟩ := Piece.chars_append_inj (hp p (by simp)) (hq q (by simp)) h
      obtain ⟨rfl, huv⟩ := ih (fun r hr => hp r (by simp [hr])) (fun r hr => hq r (by simp [hr]))
        hrest
      exact ⟨rfl, huv⟩

theorem Piece.chars_ofChar (c : Char) : (ofChar c).chars = Text.escape c := by
  unfold ofChar Text.escape
  split
  · rfl
  · cases escapeLetter? c with
    | some letter => rfl
    | none => by_cases hc : c.toNat < 0x20 <;> simp [hc, chars]

theorem escapeMeaning?_of_escapeLetter? {c letter : Char} (h : escapeLetter? c = some letter) :
    Reader.escapeMeaning? letter = some c := by
  unfold escapeLetter? at h
  repeat' split at h
  all_goals simp at h
  all_goals subst h; simp_all; decide

theorem hexDigit?_digitChar {n : Nat} (h : n < 16) :
    Reader.hexDigit? (Nat.digitChar n) = some n := by
  have all : ∀ n, n < 16 → Reader.hexDigit? (Nat.digitChar n) = some n := by decide
  exact all n h

theorem Piece.proper_ofChar (c : Char) : (ofChar c).Proper := by
  unfold ofChar
  split
  · next h => rcases h with rfl | rfl <;> simp [Proper, Reader.escapeMeaning?]
  · next h =>
    split
    · next letter hletter => simp [Proper, escapeMeaning?_of_escapeLetter? hletter]
    · split
      · next hc =>
        have hzero : (Reader.hexDigit? '0').isSome := by decide
        simp [Proper, hzero, hexDigit?_digitChar (show c.toNat / 16 < 16 by omega),
          hexDigit?_digitChar (show c.toNat % 16 < 16 by omega)]
      · next hc => exact ⟨fun h' => h (.inl h'), fun h' => h (.inr h'), Nat.not_lt.1 hc⟩

theorem Piece.meaning?_ofChar (c : Char) : (ofChar c).meaning? = some c := by
  unfold ofChar
  split
  · next h => rcases h with rfl | rfl <;> decide
  · split
    · next letter hletter => exact escapeMeaning?_of_escapeLetter? hletter
    · split
      · next hc =>
        have hzero : Reader.hexDigit? '0' = some 0 := by decide
        have hvalue : c.toNat / 16 * 16 + c.toNat % 16 = c.toNat := by omega
        simp [meaning?, unitValue, unitValue.digit, hzero,
          hexDigit?_digitChar (show c.toNat / 16 < 16 by omega),
          hexDigit?_digitChar (show c.toNat % 16 < 16 by omega), hvalue]
      · rfl

theorem Piece.ofChar_injective : Function.Injective ofChar := fun c d h =>
  Option.some.inj ((meaning?_ofChar c).symm.trans (h ▸ meaning?_ofChar d))

theorem quoteChars_eq (text : List Char) :
    quoteChars text = '"' :: (bodyChars (text.map Piece.ofChar) ++ ['"']) := by
  simp [quoteChars, bodyChars, List.flatMap_map, Piece.chars_ofChar]

theorem isLiteral_quoteChars (text : List Char) : IsLiteral (quoteChars text) := by
  rw [quoteChars_eq]
  refine .mk fun p hp => ?_
  obtain ⟨c, -, rfl⟩ := List.mem_map.1 hp
  exact Piece.proper_ofChar c

/-- What starts with the literal of a text has no other literal at its start. -/
theorem IsLiteral.eq_of_append_eq {lit lit' u v : List Char} (h : IsLiteral lit)
    (h' : IsLiteral lit') (heq : lit ++ u = lit' ++ v) : lit = lit' ∧ u = v := by
  obtain @⟨ps, hps⟩ := h
  obtain @⟨qs, hqs⟩ := h'
  obtain ⟨rfl, huv⟩ := bodyChars_append_inj hps hqs (by simpa using heq)
  exact ⟨rfl, huv⟩

theorem quoteChars_injective : Function.Injective quoteChars := fun s t h => by
  rw [quoteChars_eq, quoteChars_eq] at h
  have proper (text : List Char) : ∀ p ∈ text.map Piece.ofChar, p.Proper := fun p hp => by
    obtain ⟨c, -, rfl⟩ := List.mem_map.1 hp
    exact Piece.proper_ofChar c
  have hmap := (bodyChars_append_inj (proper s) (proper t) (List.cons.inj h).2).1
  exact (List.map_inj_right fun _ _ hc => Piece.ofChar_injective hc).1 hmap

/-- The characters that pieces stand for. Two units in a row may be a pair of surrogates; without
its partner no surrogate stands for anything. -/
def decode? : List Piece → Option (List Char)
  | [] => some []
  | .unit a b c d :: rest =>
    if Reader.isLowSurrogate (Piece.unitValue a b c d) then none
    else if Reader.isHighSurrogate (Piece.unitValue a b c d) then
      match rest with
      | .unit a' b' c' d' :: rest =>
        if Reader.isLowSurrogate (Piece.unitValue a' b' c' d') then
          (decode? rest).map fun text =>
            Reader.surrogatePair (Piece.unitValue a b c d) (Piece.unitValue a' b' c' d') :: text
        else none
      | _ => none
    else (decode? rest).map fun text => Char.ofNat (Piece.unitValue a b c d) :: text
  | .plain c :: rest => (decode? rest).map fun text => c :: text
  | .escape letter :: rest =>
    (Reader.escapeMeaning? letter).bind fun c => (decode? rest).map fun text => c :: text

end ValidatorGen.Text
