import ValidatorGen.Proofs.Reading.Container
import ValidatorGen.Reading.Skip

/-! Reading over a value. Main statement: a written value is read over to its end, to whatever depth
it is nested and whatever its numbers and texts stand for. -/
namespace ValidatorGen.Reader

open Json

theorem outcome_skipHead_blanks {before : List Char} (h : IsBlanks before) {c : Char}
    (hc : isBlank c = false) (brackets : List Bracket) (rest : List Char) :
    (skipHead brackets).outcome (before ++ c :: rest) = (skipHead brackets).outcome (c :: rest) := by
  rw [skipHead, outcome_afterBlanks h hc, outcome_noBlanks hc]

theorem outcome_skipHead_number {n : Numeral} {text rest : List Char} (h : n.Written text)
    (hrest : Follows rest) (brackets : List Bracket) :
    (skipHead brackets).outcome (text ++ rest) = .ok (.after brackets, rest) := by
  have hread := outcome_numeral .badNumber h hrest
  obtain ⟨c, tail, rfl, hfirst⟩ := h.exists_cons
  have hc : IsNumeralChar c := h.isNumeralChar c (by simp)
  have hne (d : Char) (hd : ¬IsNumeralChar d) : c ≠ d := fun heq => hd (heq ▸ hc)
  rw [List.cons_append] at hread ⊢
  rw [skipHead, outcome_noBlanks hc.isBlank]
  simp [skipNumber, hfirst, hread, hne '[' (by decide), hne '{' (by decide), hne '"' (by decide),
    hne 'n' (by decide), hne 't' (by decide), hne 'f' (by decide)]

theorem outcome_skipName {before blanks : List Char} {pieces : List Text.Piece}
    (hbefore : IsBlanks before) (hproper : ∀ p ∈ pieces, p.Proper) (hblanks : IsBlanks blanks)
    (rest : List Char) :
    skipName.outcome (before ++ '"' :: (Text.bodyChars pieces ++ '"' :: (blanks ++ ':' :: rest)))
      = .ok ((), rest) := by
  have htext := outcome_skipText hproper (blanks ++ ':' :: rest)
  have hcolon := outcome_colon hblanks rest
  rw [skipName, outcome_afterBlanks hbefore (by decide)]
  simp [htext, hcolon]

/-- The form is read over wherever it is written. -/
def Skips (form : Form) : Prop :=
  ∀ ⦃before chars rest : List Char⦄ ⦃brackets : List Bracket⦄ ⦃verdict : Verdict (Unit × List Char)⦄,
    IsBlanks before → Written form chars → Follows rest →
    Comes skipStep (.after brackets) rest verdict →
    Comes skipStep (.before brackets) (before ++ (chars ++ rest)) verdict

theorem skips_of_skipHead {form : Form} (h : ∀ chars rest brackets, Written form chars →
    Follows rest → (skipHead brackets).outcome (chars ++ rest) = .ok (.after brackets, rest)) :
    Skips form := by
  intro before chars rest brackets verdict hbefore hwritten hrest hafter
  have hhead := h chars rest brackets hwritten hrest
  obtain ⟨c, tail, rfl, hblank, -⟩ := hwritten.exists_cons
  rw [List.cons_append] at hhead ⊢
  have hround : (skipStep (.before brackets)).outcome (before ++ c :: (tail ++ rest))
      = .ok (.again (.after brackets), rest) := by
    rw [skipStep, outcome_map, outcome_skipHead_blanks hbefore hblank, hhead]
    rfl
  exact .again hround (by simp; omega) hafter

section Items

variable {rest : List Char} {brackets : List Bracket} {verdict : Verdict (Unit × List Char)}
  (hafter : Comes skipStep (.after brackets) rest verdict)
include hafter

theorem comes_skip_items {items : List Form} (hskips : ∀ form ∈ items, Skips form)
    {chars : List Char} (h : ItemsWritten false items chars) :
    Comes skipStep (.after (.list :: brackets)) (chars ++ rest) verdict := by
  induction items generalizing chars with
  | nil =>
    obtain @⟨-, blanks, hblanks⟩ := h
    have hround : (skipStep (.after (.list :: brackets))).outcome (blanks ++ ']' :: rest)
        = .ok (.again (.after brackets), rest) := by
      rw [skipStep, outcome_map, skipInList, outcome_afterBlanks hblanks (by decide)]
      rfl
    have hcomes := Comes.again hround (by simp; omega) hafter
    simpa using hcomes
  | cons form items ih =>
    obtain ⟨hform, hitems⟩ := List.forall_mem_cons.1 hskips
    cases h with
    | @item _ _ chars tail _ _ hseparator hwritten htail =>
      obtain ⟨blanks, blanks', rfl, hblanks, hblanks'⟩ := hseparator.exists_comma
      have hround : (skipStep (.after (.list :: brackets))).outcome
          (blanks ++ ',' :: (blanks' ++ (chars ++ (tail ++ rest))))
          = .ok (.again (.before (.list :: brackets)), blanks' ++ (chars ++ (tail ++ rest))) := by
        rw [skipStep, outcome_map, skipInList, outcome_afterBlanks hblanks (by decide)]
        rfl
      have hitem := hform hblanks' hwritten (htail.follows rest) (ih hitems htail)
      have hcomes := Comes.again hround (by simp; omega) hitem
      simpa using hcomes

theorem comes_skip_members {members : List (List Text.Piece × Form)}
    (hskips : ∀ member ∈ members, Skips member.2) {chars : List Char}
    (h : MembersWritten false members chars) :
    Comes skipStep (.after (.object :: brackets)) (chars ++ rest) verdict := by
  induction members generalizing chars with
  | nil =>
    obtain @⟨-, blanks, hblanks⟩ := h
    have hround : (skipStep (.after (.object :: brackets))).outcome (blanks ++ '}' :: rest)
        = .ok (.again (.after brackets), rest) := by
      rw [skipStep, outcome_map, skipInObject, outcome_afterBlanks hblanks (by decide)]
      rfl
    have hcomes := Comes.again hround (by simp; omega) hafter
    simpa using hcomes
  | cons member members ih =>
    obtain ⟨hform, hmembers⟩ := List.forall_mem_cons.1 hskips
    cases h with
    | @member _ _ blanks₁ blanks₂ chars tail name _ _ hseparator hproper hblanks₁ hblanks₂ hwritten
        htail =>
      obtain ⟨blanks, blanks', rfl, hblanks, hblanks'⟩ := hseparator.exists_comma
      have hname := outcome_skipName hblanks' hproper hblanks₁ (blanks₂ ++ (chars ++ (tail ++ rest)))
      have hround : (skipStep (.after (.object :: brackets))).outcome (blanks ++ ',' :: (blanks'
          ++ '"' :: (Text.bodyChars name ++ '"' ::
            (blanks₁ ++ ':' :: (blanks₂ ++ (chars ++ (tail ++ rest)))))))
          = .ok (.again (.before (.object :: brackets)), blanks₂ ++ (chars ++ (tail ++ rest))) := by
        rw [skipStep, outcome_map, skipInObject, outcome_afterBlanks hblanks (by decide)]
        simp [hname]
      have hmember := hform hblanks₂ hwritten (htail.follows rest) (ih hmembers htail)
      have hcomes := Comes.again hround (by simp; omega) hmember
      simpa using hcomes

theorem comes_skip_list {items : List Form} (hskips : ∀ form ∈ items, Skips form)
    {before chars : List Char} (hbefore : IsBlanks before) (h : ItemsWritten true items chars) :
    Comes skipStep (.before brackets) (before ++ '[' :: (chars ++ rest)) verdict := by
  have hstep (tail : List Char) : (skipStep (.before brackets)).outcome (before ++ '[' :: tail)
      = (fun p => (.again p.1, p.2)) <$> (openList brackets).outcome tail := by
    rw [skipStep, outcome_map, outcome_skipHead_blanks hbefore (by decide)]
    rfl
  cases h with
  | @close _ blanks hblanks =>
    have hround : (skipStep (.before brackets)).outcome (before ++ '[' :: (blanks ++ ']' :: rest))
        = .ok (.again (.after brackets), rest) := by
      rw [hstep, openList, outcome_afterBlanks hblanks (by decide)]
      rfl
    have hcomes := Comes.again hround (by simp; omega) hafter
    simpa using hcomes
  | @item _ blanks chars tail form items hseparator hwritten htail =>
    obtain ⟨hform, hitems⟩ := List.forall_mem_cons.1 hskips
    cases hseparator with
    | first hblanks =>
      have hitem := hform isBlanks_nil hwritten (htail.follows rest)
        (comes_skip_items hafter hitems htail)
      obtain ⟨c, more, rfl, hblank, hclose⟩ := hwritten.exists_cons
      have hround : (skipStep (.before brackets)).outcome
          (before ++ '[' :: (blanks ++ c :: (more ++ (tail ++ rest))))
          = .ok (.again (.before (.list :: brackets)), c :: (more ++ (tail ++ rest))) := by
        rw [hstep, openList, outcome_afterBlanks hblanks hblank]
        simp [hclose]
      have hcomes := Comes.again hround (by simp; omega) hitem
      simpa using hcomes

theorem comes_skip_object {members : List (List Text.Piece × Form)}
    (hskips : ∀ member ∈ members, Skips member.2) {before chars : List Char}
    (hbefore : IsBlanks before) (h : MembersWritten true members chars) :
    Comes skipStep (.before brackets) (before ++ '{' :: (chars ++ rest)) verdict := by
  have hstep (tail : List Char) : (skipStep (.before brackets)).outcome (before ++ '{' :: tail)
      = (fun p => (.again p.1, p.2)) <$> (openObject brackets).outcome tail := by
    rw [skipStep, outcome_map, outcome_skipHead_blanks hbefore (by decide)]
    rfl
  cases h with
  | @close _ blanks hblanks =>
    have hround : (skipStep (.before brackets)).outcome (before ++ '{' :: (blanks ++ '}' :: rest))
        = .ok (.again (.after brackets), rest) := by
      rw [hstep, openObject, outcome_afterBlanks hblanks (by decide)]
      rfl
    have hcomes := Comes.again hround (by simp; omega) hafter
    simpa using hcomes
  | @member _ blanks blanks₁ blanks₂ chars tail name form members hseparator hproper hblanks₁
      hblanks₂ hwritten htail =>
    obtain ⟨hform, hmembers⟩ := List.forall_mem_cons.1 hskips
    cases hseparator with
    | first hblanks =>
      have hname := outcome_skipName isBlanks_nil hproper hblanks₁
        (blanks₂ ++ (chars ++ (tail ++ rest)))
      have hround : (skipStep (.before brackets)).outcome (before ++ '{' :: (blanks ++ '"' ::
          (Text.bodyChars name ++ '"' :: (blanks₁ ++ ':' ::
            (blanks₂ ++ (chars ++ (tail ++ rest)))))))
          = .ok (.again (.before (.object :: brackets)), blanks₂ ++ (chars ++ (tail ++ rest))) := by
        rw [List.nil_append] at hname
        rw [hstep, openObject, outcome_afterBlanks hblanks (by decide)]
        simp [hname]
      have hmember := hform hblanks₂ hwritten (htail.follows rest)
        (comes_skip_members hafter hmembers htail)
      have hcomes := Comes.again hround (by simp; omega) hmember
      simpa using hcomes

end Items

/-- Every form is read over. The brackets that are open around it wait on the stack. -/
theorem skips (form : Form) : Skips form := by
  induction form using Form.induct with
  | null =>
    refine skips_of_skipHead fun chars rest brackets hwritten _ => ?_
    cases hwritten
    have hhead : (skipHead brackets).outcome ("null".toList ++ rest)
        = (fun p => (.after brackets, p.2)) <$> (word "null".toList).outcome ("null".toList ++ rest) :=
      rfl
    rw [hhead, outcome_word]
    rfl
  | boolean b =>
    refine skips_of_skipHead fun chars rest brackets hwritten _ => ?_
    cases hwritten
    have hhead : (skipHead brackets).outcome ((if b then "true" else "false").toList ++ rest)
        = (fun p => (.after brackets, p.2)) <$> (word (if b then "true" else "false").toList).outcome
          ((if b then "true" else "false").toList ++ rest) := by
      cases b <;> rfl
    rw [hhead, outcome_word]
    rfl
  | number n =>
    refine skips_of_skipHead fun chars rest brackets hwritten hrest => ?_
    cases hwritten with
    | number hnumber => exact outcome_skipHead_number hnumber hrest brackets
  | text pieces =>
    refine skips_of_skipHead fun chars rest brackets hwritten hrest => ?_
    cases hwritten with
    | text hproper =>
      have htext := outcome_skipText hproper rest
      have hhead (tail : List Char) : (skipHead brackets).outcome ('"' :: tail)
          = skipText.outcome tail >>= fun p => .ok (.after brackets, p.2) :=
        outcome_bind skipText (fun _ => pure (SkipState.after brackets)) tail
      simp [hhead, htext]
  | list items ih =>
    intro before chars rest brackets verdict hbefore hwritten _ hafter
    cases hwritten with
    | list hitems => exact comes_skip_list hafter ih hbefore hitems
  | object members ih =>
    intro before chars rest brackets verdict hbefore hwritten _ hafter
    cases hwritten with
    | object hmembers => exact comes_skip_object hafter ih hbefore hmembers

end ValidatorGen.Reader
