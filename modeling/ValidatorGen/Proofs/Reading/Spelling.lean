import ValidatorGen.Proofs.Reading.Outcome
import ValidatorGen.Proofs.Text.Literal

/-! What is wrong with a literal that stands for no text. -/
namespace ValidatorGen

namespace Text

/-- The characters that pieces stand for, or what keeps them from standing for any. -/
def decode : List Piece → Verdict (List Char)
  | [] => .ok []
  | .unit a b c d :: rest =>
    if Reader.isLowSurrogate (Piece.unitValue a b c d) then .refuse .loneSurrogate
    else if Reader.isHighSurrogate (Piece.unitValue a b c d) then
      match rest with
      | .unit a' b' c' d' :: rest =>
        if Reader.isLowSurrogate (Piece.unitValue a' b' c' d') then
          (fun text => Reader.surrogatePair (Piece.unitValue a b c d)
            (Piece.unitValue a' b' c' d') :: text) <$> decode rest
        else .refuse .loneSurrogate
      | _ => .refuse .surrogateCutShort
    else (fun text => Char.ofNat (Piece.unitValue a b c d) :: text) <$> decode rest
  | .plain c :: rest => (fun text => c :: text) <$> decode rest
  | .escape letter :: rest =>
    match Reader.escapeMeaning? letter with
    | some c => (fun text => c :: text) <$> decode rest
    | none => .refuse .badEscape

section Decode

variable {a b c d : Char} {pieces : List Piece}

theorem decode_low (hlow : Reader.isLowSurrogate (Piece.unitValue a b c d)) :
    decode (.unit a b c d :: pieces) = .refuse .loneSurrogate := by
  unfold decode
  simp [hlow]

theorem decode_pair {a' b' c' d' : Char}
    (hlow : ¬Reader.isLowSurrogate (Piece.unitValue a b c d))
    (hhigh : Reader.isHighSurrogate (Piece.unitValue a b c d)) :
    decode (.unit a b c d :: .unit a' b' c' d' :: pieces)
      = if Reader.isLowSurrogate (Piece.unitValue a' b' c' d') then
          (fun text => Reader.surrogatePair (Piece.unitValue a b c d)
            (Piece.unitValue a' b' c' d') :: text) <$> decode pieces
        else .refuse .loneSurrogate := by
  rw [decode.eq_def]
  simp [hlow, hhigh]

theorem decode_alone (hlow : ¬Reader.isLowSurrogate (Piece.unitValue a b c d))
    (hhigh : Reader.isHighSurrogate (Piece.unitValue a b c d))
    (h : ∀ a' b' c' d', pieces.head? ≠ some (.unit a' b' c' d')) :
    decode (.unit a b c d :: pieces) = .refuse .surrogateCutShort := by
  rw [decode.eq_def]
  simp only [if_neg hlow, if_pos hhigh]
  split
  · exact absurd rfl (h _ _ _ _)
  · rfl

theorem decode_unit (hlow : ¬Reader.isLowSurrogate (Piece.unitValue a b c d))
    (hhigh : ¬Reader.isHighSurrogate (Piece.unitValue a b c d)) :
    decode (.unit a b c d :: pieces)
      = (fun text => Char.ofNat (Piece.unitValue a b c d) :: text) <$> decode pieces := by
  rw [decode.eq_def]
  simp [hlow, hhigh]

end Decode

theorem toOption_decode (pieces : List Piece) : (decode pieces).toOption = decode? pieces := by
  induction pieces using decode.induct with
  | case1 => rfl
  | case2 a b c d pieces hlow =>
    rw [decode_low hlow, decode?.eq_def]
    simp only [if_pos hlow]
    rfl
  | case3 a b c d hlow hhigh a' b' c' d' pieces hlow' ih =>
    rw [decode_pair hlow hhigh, if_pos hlow', toOption_map, ih, decode?.eq_def (.unit a b c d :: _)]
    simp [hlow, hhigh, hlow']
  | case4 a b c d hlow hhigh a' b' c' d' pieces hlow' =>
    rw [decode_pair hlow hhigh, if_neg hlow', decode?.eq_def]
    simp only [if_neg hlow, if_pos hhigh, if_neg hlow']
    rfl
  | case5 a b c d pieces hlow hhigh hnext =>
    have halone : ∀ a b c d, pieces.head? ≠ some (.unit a b c d) := by
      intro a' b' c' d' hhead
      obtain ⟨tail, htail⟩ := List.head?_eq_some_iff.1 hhead
      exact hnext a' b' c' d' tail htail
    rw [decode_alone hlow hhigh halone, decode?.eq_def]
    simp only [if_neg hlow, if_pos hhigh]
    rfl
  | case6 a b c d pieces hlow hhigh ih =>
    rw [decode_unit hlow hhigh, toOption_map, ih, decode?.eq_def (.unit a b c d :: _)]
    simp [hlow, hhigh]
  | case7 c pieces ih => rw [decode, decode?, toOption_map, ih]
  | case8 letter pieces c hletter ih =>
    rw [decode, decode?, hletter]
    simp [ih]
  | case9 letter pieces hletter =>
    rw [decode, decode?, hletter]
    rfl

/-- The pieces that quoting writes for a text. -/
def quotedPieces (text : List Char) : List Piece := text.map Piece.ofChar

theorem proper_quotedPieces (text : List Char) : ∀ p ∈ quotedPieces text, p.Proper := fun p hp => by
  obtain ⟨c, -, rfl⟩ := List.mem_map.1 hp
  exact Piece.proper_ofChar c

theorem unitValue_of_ofChar {char a b c d : Char} (h : Piece.ofChar char = .unit a b c d) :
    Piece.unitValue a b c d = char.toNat ∧ char.toNat < 0x20 := by
  unfold Piece.ofChar at h
  split at h
  · cases h
  · split at h
    · cases h
    · split at h
      · next hchar =>
        cases h
        have hzero : Reader.hexDigit? '0' = some 0 := by decide
        refine ⟨?_, hchar⟩
        simp only [Piece.unitValue, Piece.unitValue.digit, hzero,
          hexDigit?_digitChar (show char.toNat / 16 < 16 by omega),
          hexDigit?_digitChar (show char.toNat % 16 < 16 by omega), Option.getD_some]
        omega
      · cases h

theorem decode_ofChar (char : Char) (pieces : List Piece) :
    decode (Piece.ofChar char :: pieces) = (fun text => char :: text) <$> decode pieces := by
  have hmeaning := Piece.meaning?_ofChar char
  cases hpiece : Piece.ofChar char with
  | plain c =>
    rw [hpiece] at hmeaning
    cases hmeaning
    rw [decode]
  | escape letter =>
    rw [hpiece] at hmeaning
    have hletter : Reader.escapeMeaning? letter = some char := hmeaning
    rw [decode, hletter]
  | unit a b c d =>
    obtain ⟨hvalue, hsmall⟩ := unitValue_of_ofChar hpiece
    have hlow : ¬Reader.isLowSurrogate (Piece.unitValue a b c d) := by
      simp only [Reader.isLowSurrogate, Bool.and_eq_true, decide_eq_true_eq]
      omega
    have hhigh : ¬Reader.isHighSurrogate (Piece.unitValue a b c d) := by
      simp only [Reader.isHighSurrogate, Bool.and_eq_true, decide_eq_true_eq]
      omega
    rw [decode_unit hlow hhigh, hvalue, Char.ofNat_toNat]

theorem decode_quotedPieces (text : List Char) : decode (quotedPieces text) = .ok text := by
  induction text with
  | nil => rfl
  | cons c text ih =>
    have hrest : decode (text.map Piece.ofChar) = .ok text := ih
    rw [quotedPieces, List.map_cons, decode_ofChar, hrest, Verdict.map_ok]

theorem decode?_quotedPieces (text : List Char) : decode? (quotedPieces text) = some text := by
  rw [← toOption_decode, decode_quotedPieces]
  rfl

end Text

end ValidatorGen
