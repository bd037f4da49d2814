import ValidatorGen.Proofs.Reading.Result
import ValidatorGen.Proofs.Reading.Spelling

/-! Reading of string literals. Main statements: a literal is read to its end as the characters that
its pieces stand for, and whatever is read is a literal; reading over a literal never fails. -/
namespace ValidatorGen.Reader

open Text

theorem hexDigits_of_proper {a b c d : Char} (h : (Piece.unit a b c d).Proper) :
    hexDigit? a = some (Piece.unitValue.digit a) ∧ hexDigit? b = some (Piece.unitValue.digit b)
      ∧ hexDigit? c = some (Piece.unitValue.digit c)
      ∧ hexDigit? d = some (Piece.unitValue.digit d) := by
  have digit {x : Char} (hx : x ∈ [a, b, c, d]) : hexDigit? x = some (Piece.unitValue.digit x) := by
    obtain ⟨n, hn⟩ := Option.isSome_iff_exists.1 (h x hx)
    simp [Piece.unitValue.digit, hn]
  exact ⟨digit (by simp), digit (by simp), digit (by simp), digit (by simp)⟩

theorem outcome_hexUnit {a b c d : Char} (h : (Piece.unit a b c d).Proper) (rest : List Char) :
    hexUnit.outcome (a :: b :: c :: d :: rest) = .ok (Piece.unitValue a b c d, rest) := by
  obtain ⟨ha, hb, hc, hd⟩ := hexDigits_of_proper h
  rw [outcome_eq_ok_iff]
  simp [hexUnit, ha, hb, hc, hd, Piece.unitValue]

theorem hexUnit_sound {text rest : List Char} {u : Nat}
    (h : hexUnit.result? text = some (u, rest)) :
    ∃ a b c d, (Piece.unit a b c d).Proper ∧ u = Piece.unitValue a b c d
      ∧ text = a :: b :: c :: d :: rest := by
  rw [result?_eq_some_iff, hexUnit] at h
  split at h
  · next a' b' c' d' hdigits =>
    cases h
    match text with
    | a :: b :: c :: d :: rest =>
      simp only [List.take_succ_cons, List.take_zero, List.mapM_cons, List.mapM_nil,
        Option.pure_def, Option.bind_eq_bind, Option.bind_eq_some_iff, Option.some.injEq] at hdigits
      obtain ⟨_, ha, _, ⟨_, hb, _, ⟨_, hc, _, ⟨_, hd, _, rfl, rfl⟩, rfl⟩, rfl⟩, heq⟩ := hdigits
      cases heq
      refine ⟨a, b, c, d, ?_, ?_, rfl⟩
      · simp [Piece.Proper, ha, hb, hc, hd]
      · simp [Piece.unitValue, Piece.unitValue.digit, ha, hb, hc, hd]
    | [] | [_] | [_, _] | [_, _, _] => simp [Option.bind_eq_some_iff] at hdigits
  · cases h

theorem outcome_unitChar_plain {u : Nat} (hlow : ¬isLowSurrogate u) (hhigh : ¬isHighSurrogate u)
    (rest : List Char) : (unitChar u).outcome rest = .ok (Char.ofNat u, rest) := by
  rw [unitChar, if_neg hlow, if_neg hhigh, outcome_pure]

theorem outcome_pairMark (c : Char) (rest : List Char) :
    (pairMark c).outcome (c :: rest) = .ok ((), rest) := by
  simp [pairMark]

theorem escape_ne_u {letter : Char} (h : (Piece.escape letter).Proper) : letter ≠ 'u' := by
  rintro rfl
  simp [Piece.Proper, escapeMeaning?_u] at h

theorem outcome_pairMark_of_ne {c d : Char} (h : d ≠ c) (rest : List Char) :
    (pairMark c).outcome (d :: rest) = .refuse .surrogateCutShort := by
  simp [pairMark, h]

theorem outcome_unitChar_low {u : Nat} (hlow : isLowSurrogate u) (rest : List Char) :
    (unitChar u).outcome rest = .refuse .loneSurrogate := by
  rw [unitChar, if_pos hlow, outcome_fail]

theorem outcome_unitChar_pair {u : Nat} (hlow : ¬isLowSurrogate u) (hhigh : isHighSurrogate u)
    {a b c d : Char} (h : (Piece.unit a b c d).Proper) (rest : List Char) :
    (unitChar u).outcome ((Piece.unit a b c d).chars ++ rest)
      = if isLowSurrogate (Piece.unitValue a b c d) then
          .ok (surrogatePair u (Piece.unitValue a b c d), rest)
        else .refuse .loneSurrogate := by
  have hread := outcome_hexUnit h rest
  simp [unitChar, hlow, hhigh, pairMark, Piece.chars, hread, outcome_ite]

theorem outcome_unitChar_alone {u : Nat} (hlow : ¬isLowSurrogate u) (hhigh : isHighSurrogate u)
    {pieces : List Piece} (hproper : ∀ p ∈ pieces, p.Proper)
    (h : ∀ a b c d, pieces.head? ≠ some (.unit a b c d)) (rest : List Char) :
    (unitChar u).outcome (bodyChars pieces ++ '"' :: rest) = .refuse .surrogateCutShort := by
  rw [unitChar, if_neg hlow, if_pos hhigh, outcome_bind]
  cases pieces with
  | nil =>
    have hmark := outcome_pairMark_of_ne (c := '\\') (d := '"') (by decide) rest
    simp [hmark, Verdict.refuse]
  | cons p pieces =>
    have hp := hproper p (by simp)
    cases p with
    | plain c =>
      have hmark := outcome_pairMark_of_ne hp.2.1 (bodyChars pieces ++ '"' :: rest)
      simp [Piece.chars, hmark, Verdict.refuse]
    | escape letter =>
      have hmark := outcome_pairMark_of_ne (escape_ne_u hp) (bodyChars pieces ++ '"' :: rest)
      simp [Piece.chars, outcome_pairMark, hmark, Verdict.refuse]
    | unit a b c d => exact absurd rfl (h a b c d)

section Step

variable (ofUnit : Nat → Reader Char) (control : Nat) (done rest : List Char)

theorem outcome_textStep_quote : (textStep ofUnit control done).outcome ('"' :: rest)
    = .ok (.done (.ofList done.reverse), rest) := by simp [textStep]

theorem outcome_textStep_plain {c : Char} (h : (Piece.plain c).Proper) :
    (textStep ofUnit control done).outcome ((Piece.plain c).chars ++ rest)
      = .ok (.again (c :: done), rest) := by
  obtain ⟨hquote, hbackslash, hcontrol⟩ := h
  simp [textStep, Piece.chars, hquote, hbackslash, Nat.not_lt.2 hcontrol]

theorem outcome_textStep_escape {letter c : Char} (h : escapeMeaning? letter = some c) :
    (textStep ofUnit control done).outcome ((Piece.escape letter).chars ++ rest)
      = .ok (.again (c :: done), rest) := by
  have hletter : letter ≠ 'u' := escape_ne_u (by simp [Piece.Proper, h])
  simp [textStep, Piece.chars, escaped, hletter, h]

theorem outcome_textStep_unit {a b c d : Char} (h : (Piece.unit a b c d).Proper) :
    (textStep ofUnit control done).outcome ((Piece.unit a b c d).chars ++ rest)
      = (fun p => (.again (p.1 :: done), p.2))
        <$> (ofUnit (Piece.unitValue a b c d)).outcome rest := by
  have hread := outcome_hexUnit h rest
  simp [textStep, Piece.chars, escaped, hread]

end Step

/-- A literal comes to what its pieces stand for. The cases are those of decoding: a pair of
surrogates is two pieces in one round. -/
theorem comes_text {pieces : List Piece} (hproper : ∀ p ∈ pieces, p.Proper) (control : Nat)
    (done rest : List Char) :
    Comes (textStep unitChar control) done (bodyChars pieces ++ '"' :: rest)
      ((fun chars => (.ofList (done.reverse ++ chars), rest)) <$> decode pieces) := by
  induction pieces using decode.induct generalizing done with
  | case1 =>
    have hquote := outcome_textStep_quote unitChar control done rest
    simpa [decode] using Comes.done hquote
  | case2 a b c d pieces hlow =>
    obtain ⟨hp, -⟩ := List.forall_mem_cons.1 hproper
    have hunit := outcome_textStep_unit unitChar control done (bodyChars pieces ++ '"' :: rest) hp
    rw [outcome_unitChar_low hlow] at hunit
    simpa [decode_low hlow, Verdict.refuse] using Comes.fault hunit
  | case3 a b c d hlow hhigh a' b' c' d' pieces hlow' ih =>
    obtain ⟨hp, hproper⟩ := List.forall_mem_cons.1 hproper
    obtain ⟨hp', hproper⟩ := List.forall_mem_cons.1 hproper
    have hunit := outcome_textStep_unit unitChar control done
      ((Piece.unit a' b' c' d').chars ++ (bodyChars pieces ++ '"' :: rest)) hp
    rw [outcome_unitChar_pair hlow hhigh hp', if_pos hlow'] at hunit
    have hlt := Nat.lt_trans ((Piece.unit a' b' c' d').length_lt (bodyChars pieces ++ '"' :: rest))
      ((Piece.unit a b c d).length_lt _)
    have hcomes := Comes.again hunit hlt (ih hproper _)
    simpa [decode_pair hlow hhigh, hlow'] using hcomes
  | case4 a b c d hlow hhigh a' b' c' d' pieces hlow' =>
    obtain ⟨hp, hproper⟩ := List.forall_mem_cons.1 hproper
    obtain ⟨hp', -⟩ := List.forall_mem_cons.1 hproper
    have hunit := outcome_textStep_unit unitChar control done
      ((Piece.unit a' b' c' d').chars ++ (bodyChars pieces ++ '"' :: rest)) hp
    rw [outcome_unitChar_pair hlow hhigh hp', if_neg hlow'] at hunit
    simpa [decode_pair hlow hhigh, hlow', Verdict.refuse] using Comes.fault hunit
  | case5 a b c d pieces hlow hhigh hnext =>
    obtain ⟨hp, hproper⟩ := List.forall_mem_cons.1 hproper
    have hunit := outcome_textStep_unit unitChar control done (bodyChars pieces ++ '"' :: rest) hp
    have halone : ∀ a b c d, pieces.head? ≠ some (.unit a b c d) := by
      intro a' b' c' d' hhead
      obtain ⟨tail, htail⟩ := List.head?_eq_some_iff.1 hhead
      exact hnext a' b' c' d' tail htail
    rw [outcome_unitChar_alone hlow hhigh hproper halone] at hunit
    simpa [decode_alone hlow hhigh halone, Verdict.refuse] using Comes.fault hunit
  | case6 a b c d pieces hlow hhigh ih =>
    obtain ⟨hp, hproper⟩ := List.forall_mem_cons.1 hproper
    have hunit := outcome_textStep_unit unitChar control done (bodyChars pieces ++ '"' :: rest) hp
    rw [outcome_unitChar_plain hlow hhigh] at hunit
    have hcomes := Comes.again hunit (Piece.length_lt _ _) (ih hproper _)
    simpa [decode_unit hlow hhigh] using hcomes
  | case7 c pieces ih =>
    obtain ⟨hp, hproper⟩ := List.forall_mem_cons.1 hproper
    have hplain := outcome_textStep_plain unitChar control done (bodyChars pieces ++ '"' :: rest) hp
    have hcomes := Comes.again hplain (Piece.length_lt _ _) (ih hproper _)
    simpa [decode] using hcomes
  | case8 letter pieces c hc ih =>
    obtain ⟨-, hproper⟩ := List.forall_mem_cons.1 hproper
    have hescape := outcome_textStep_escape unitChar control done
      (bodyChars pieces ++ '"' :: rest) hc
    have hcomes := Comes.again hescape (Piece.length_lt _ _) (ih hproper _)
    simpa [decode, hc] using hcomes
  | case9 letter pieces hletter =>
    obtain ⟨hp, -⟩ := List.forall_mem_cons.1 hproper
    obtain ⟨c, hc⟩ := Option.isSome_iff_exists.1 hp
    rw [hc] at hletter
    cases hletter

/-- A literal is read to its end, or refused for what its pieces do not stand for. -/
theorem outcome_text {pieces : List Piece} (hproper : ∀ p ∈ pieces, p.Proper) (rest : List Char) :
    text.outcome (bodyChars pieces ++ '"' :: rest)
      = (fun chars => (.ofList chars, rest)) <$> decode pieces := by
  have hloop := (comes_text hproper 1 [] rest).loop
  simpa [text] using hloop

theorem result?_text {pieces : List Piece} (hproper : ∀ p ∈ pieces, p.Proper) (rest : List Char) :
    text.result? (bodyChars pieces ++ '"' :: rest)
      = (decode? pieces).map fun chars => (.ofList chars, rest) := by
  rw [result?_eq_toOption, outcome_text hproper, toOption_map, toOption_decode]

/-- Reading over a literal, each piece is one round and surrogates need no partners. -/
theorem comes_skipText {pieces : List Piece} (hproper : ∀ p ∈ pieces, p.Proper)
    (done rest : List Char) : ∃ s, Comes (textStep (fun _ => pure ' ') 0) done
      (bodyChars pieces ++ '"' :: rest) (.ok (s, rest)) := by
  induction pieces generalizing done with
  | nil => exact ⟨_, .done (outcome_textStep_quote _ 0 done rest)⟩
  | cons p pieces ih =>
    obtain ⟨hp, hproper⟩ := List.forall_mem_cons.1 hproper
    have hstep : ∃ c, (textStep (fun _ => pure ' ') 0 done).outcome
        (p.chars ++ (bodyChars pieces ++ '"' :: rest))
        = .ok (.again (c :: done), bodyChars pieces ++ '"' :: rest) := by
      cases p with
      | plain c => exact ⟨c, outcome_textStep_plain _ 0 done _ hp⟩
      | escape letter =>
        obtain ⟨c, hc⟩ := Option.isSome_iff_exists.1 hp
        exact ⟨c, outcome_textStep_escape _ 0 done _ hc⟩
      | unit a b c d => exact ⟨' ', outcome_textStep_unit _ 0 done _ hp⟩
    obtain ⟨c, hc⟩ := hstep
    obtain ⟨s, hs⟩ := ih hproper (c :: done)
    have hcomes := Comes.again hc (Piece.length_lt _ _) hs
    exact ⟨s, by simpa using hcomes⟩

theorem outcome_skipText {pieces : List Piece} (hproper : ∀ p ∈ pieces, p.Proper)
    (rest : List Char) : skipText.outcome (bodyChars pieces ++ '"' :: rest) = .ok ((), rest) := by
  obtain ⟨s, hs⟩ := comes_skipText hproper [] rest
  rw [skipText, outcome_discard, hs.loop]
  rfl

theorem pairMark_sound {c : Char} {t rest : List Char}
    (h : (pairMark c).result? t = some ((), rest)) : t = c :: rest := by
  cases t with
  | nil => cases h
  | cons d t =>
    by_cases hd : d = c
    · rw [hd, result?_of_outcome (outcome_pairMark c t)] at h
      cases h
      rw [hd]
    · rw [result?_eq_toOption, outcome_pairMark_of_ne hd] at h
      cases h

/-- What is read for a unit is the unit after it, or nothing. -/
def TakesPieces (ofUnit : Nat → Reader Char) : Prop :=
  ∀ ⦃u : Nat⦄ ⦃char : Char⦄ ⦃t rest : List Char⦄, (ofUnit u).result? t = some (char, rest) →
    ∃ pieces : List Piece, (∀ p ∈ pieces, p.Proper) ∧ t = bodyChars pieces ++ rest

theorem takesPieces_pure (char : Char) : TakesPieces fun _ => pure char := by
  rintro u _ t _ ⟨⟩
  exact ⟨[], by simp, rfl⟩

theorem takesPieces_unitChar : TakesPieces unitChar := by
  intro u char t rest h
  simp only [unitChar, result?_ite] at h
  split at h
  · cases h
  split at h
  · simp only [result?_bind, Option.bind_eq_some_iff, result?_ite] at h
    obtain ⟨⟨_, t₁⟩, hbackslash, ⟨_, t₂⟩, hu, ⟨low, t₃⟩, hread, h⟩ := h
    obtain rfl := pairMark_sound hbackslash
    obtain rfl := pairMark_sound hu
    obtain ⟨a', b', c', d', hproper, rfl, rfl⟩ := hexUnit_sound hread
    split at h
    · simp only [result?_pure, Option.some.injEq, Prod.mk.injEq] at h
      obtain ⟨-, rfl⟩ := h
      exact ⟨[.unit a' b' c' d'], by simpa using hproper, by simp [Piece.chars]⟩
    · cases h
  · cases h
    exact ⟨[], by simp, rfl⟩

section Pieces

variable {ofUnit : Nat → Reader Char} (hunit : TakesPieces ofUnit)
include hunit

theorem escaped_sound {char : Char} {t rest : List Char}
    (h : (escaped ofUnit).result? t = some (char, rest)) :
    ∃ pieces : List Piece, (∀ p ∈ pieces, p.Proper) ∧ '\\' :: t = bodyChars pieces ++ rest := by
  simp only [escaped, result?_bind, result?_peek, Option.bind_some] at h
  cases t with
  | nil => cases h
  | cons letter t =>
    simp only [List.head?_cons, result?_ite] at h
    split at h
    · next hu =>
      subst hu
      simp only [result?_bind, result?_skip, List.tail_cons, Option.bind_some,
        Option.bind_eq_some_iff] at h
      obtain ⟨⟨u, t₁⟩, hread, h⟩ := h
      obtain ⟨a, b, c, d, hproper, rfl, rfl⟩ := hexUnit_sound hread
      obtain ⟨pieces, hpieces, rfl⟩ := hunit h
      exact ⟨.unit a b c d :: pieces, List.forall_mem_cons.2 ⟨hproper, hpieces⟩,
        by simp [Piece.chars]⟩
    · cases hletter : escapeMeaning? letter with
      | none =>
        rw [hletter] at h
        cases h
      | some meaning =>
        rw [hletter] at h
        cases h
        exact ⟨[.escape letter], by simp [Piece.Proper, hletter], by simp [Piece.chars]⟩

theorem textStep_sound {control : Nat} {done t rest : List Char} {round : Round (List Char) String}
    (h : (textStep ofUnit control done).result? t = some (round, rest)) :
    ((∃ s, round = .done s) ∧ t = '"' :: rest)
      ∨ ∃ (next : List Char) (pieces : List Piece), round = .again next
        ∧ (∀ p ∈ pieces, p.Proper) ∧ t = bodyChars pieces ++ rest := by
  simp only [textStep, result?_bind, result?_peek, Option.bind_some] at h
  cases t with
  | nil => cases h
  | cons c t =>
    simp only [List.head?_cons, result?_ite] at h
    split at h
    · next hquote =>
      cases h
      exact .inl ⟨⟨_, rfl⟩, by rw [hquote, List.tail_cons]⟩
    · next hquote =>
      split at h
      · next hbackslash =>
        subst hbackslash
        simp only [result?_bind, result?_skip, List.tail_cons, Option.bind_some,
          Option.bind_eq_some_iff] at h
        obtain ⟨⟨char, t₁⟩, hread, h⟩ := h
        cases h
        obtain ⟨pieces, hpieces, htext⟩ := escaped_sound hunit hread
        exact .inr ⟨_, pieces, rfl, hpieces, htext⟩
      · next hbackslash =>
        split at h
        · cases h
        · next hcontrol =>
          cases h
          refine .inr ⟨_, [.plain c], rfl, ?_, by simp [Piece.chars]⟩
          simpa [Piece.Proper] using ⟨hquote, hbackslash, Nat.not_lt.1 hcontrol⟩

theorem literal_sound {control : Nat} {done t rest : List Char} {s : String}
    (h : (loop (textStep ofUnit control) done).result? t = some (s, rest)) :
    ∃ pieces : List Piece, (∀ p ∈ pieces, p.Proper) ∧ t = bodyChars pieces ++ '"' :: rest := by
  have hruns := runs_of_loop h
  clear h
  induction hruns with
  | done hround =>
    obtain ⟨-, rfl⟩ | ⟨_, _, hagain, -⟩ := textStep_sound hunit hround
    · exact ⟨[], by simp, rfl⟩
    · cases hagain
  | again hround _ ih =>
    obtain ⟨⟨_, hdone⟩, -⟩ | ⟨_, first, -, hfirst, rfl⟩ := textStep_sound hunit hround
    · cases hdone
    · obtain ⟨pieces, hpieces, rfl⟩ := ih
      refine ⟨first ++ pieces, ?_, ?_⟩
      · simpa [or_imp, forall_and] using ⟨hfirst, hpieces⟩
      · simp [bodyChars]

end Pieces

theorem text_sound {t rest : List Char} {s : String} (h : text.result? t = some (s, rest)) :
    ∃ (pieces : List Piece) (chars : List Char), (∀ p ∈ pieces, p.Proper)
      ∧ t = bodyChars pieces ++ '"' :: rest ∧ decode? pieces = some chars ∧ s = .ofList chars := by
  obtain ⟨pieces, hproper, rfl⟩ := literal_sound takesPieces_unitChar h
  rw [result?_text hproper, Option.map_eq_some_iff] at h
  obtain ⟨chars, hdecode, heq⟩ := h
  cases heq
  exact ⟨pieces, chars, hproper, rfl, hdecode, rfl⟩

theorem skipText_sound {t rest : List Char} (h : skipText.result? t = some ((), rest)) :
    ∃ pieces : List Piece, (∀ p ∈ pieces, p.Proper) ∧ t = bodyChars pieces ++ '"' :: rest := by
  rw [skipText, result?_discard, Option.map_eq_some_iff] at h
  obtain ⟨⟨s, middle⟩, hread, heq⟩ := h
  cases heq
  exact literal_sound (takesPieces_pure ' ') hread

end ValidatorGen.Reader
