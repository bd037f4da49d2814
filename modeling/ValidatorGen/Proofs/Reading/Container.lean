import ValidatorGen.Proofs.Json.Grammar
import ValidatorGen.Proofs.Reading.Numeral
import ValidatorGen.Proofs.Reading.Text

/-! Reading of what stands around values: blanks, words, and the punctuation of lists and objects.
Main statements: whether another item or member comes is told by the separator before it. -/
namespace ValidatorGen.Reader

open Json

variable {α : Type}

theorem dropWhile_blanks {blanks : List Char} (h : IsBlanks blanks) {c : Char}
    (hc : isBlank c = false) (rest : List Char) :
    (blanks ++ c :: rest).dropWhile isBlank = c :: rest := by
  have hrest : ∀ d ∈ (c :: rest).head?, isBlank d = false := by simpa using hc
  exact (span_append h hrest).2

/-- Blanks are read over, and the character after them decides. -/
theorem outcome_afterBlanks {before : List Char} (h : IsBlanks before) {c : Char}
    (hc : isBlank c = false) (next : Option Char → Reader α) (rest : List Char) :
    (blanks >>= fun _ => peek >>= next).outcome (before ++ c :: rest)
      = (next (some c)).outcome (c :: rest) := by
  rw [outcome_blanks_bind, dropWhile_blanks h hc, outcome_peek_bind]
  rfl

theorem outcome_noBlanks {c : Char} (hc : isBlank c = false) (next : Option Char → Reader α)
    (rest : List Char) : (blanks >>= fun _ => peek >>= next).outcome (c :: rest)
      = (next (some c)).outcome (c :: rest) := outcome_afterBlanks isBlanks_nil hc next rest

theorem outcome_word (w rest : List Char) : (word w).outcome (w ++ rest) = .ok ((), rest) := by
  induction w with
  | nil => rfl
  | cons c w ih => simp [word, ih]

theorem outcome_head_blanks {before : List Char} (h : IsBlanks before) {c : Char}
    (hc : isBlank c = false) (rest : List Char) :
    head.outcome (before ++ c :: rest) = head.outcome (c :: rest) := by
  rw [head, outcome_afterBlanks h hc, outcome_noBlanks hc]

theorem outcome_head_quote (rest : List Char) :
    head.outcome ('"' :: rest) = (fun p => (.text p.1, p.2)) <$> text.outcome rest := by
  rw [← outcome_map]
  rfl

theorem outcome_colon {blanks : List Char} (h : IsBlanks blanks) (rest : List Char) :
    colon.outcome (blanks ++ ':' :: rest) = .ok ((), rest) := by
  rw [colon, outcome_afterBlanks h (by decide)]
  rfl

/-- What is between the name and the value of a member. -/
inductive IsColon : List Char → Prop
  | mk {blanks blanks' : List Char} : IsBlanks blanks → IsBlanks blanks' →
    IsColon (blanks ++ ':' :: blanks')

theorem outcome_moreItems_close {blanks : List Char} (h : IsBlanks blanks) (first : Bool)
    (rest : List Char) :
    (moreItems first).outcome (blanks ++ ']' :: rest) = .ok (false, ']' :: rest) := by
  rw [moreItems, outcome_afterBlanks h (by decide)]
  rfl

theorem outcome_moreItems_item {first : Bool} {separator : List Char}
    (h : Separator first separator) {c : Char} (hblank : isBlank c = false) (hclose : c ≠ ']')
    (rest : List Char) :
    (moreItems first).outcome (separator ++ c :: rest) = .ok (true, c :: rest) := by
  cases h with
  | first hblanks =>
    rw [moreItems, outcome_afterBlanks hblanks hblank]
    simp [hclose]
  | later hblanks hblanks' =>
    have hdrop := dropWhile_blanks hblanks' hblank rest
    rw [List.append_assoc, List.cons_append, moreItems, outcome_afterBlanks hblanks (by decide)]
    simp [hdrop, hclose]

theorem outcome_closeList {blanks : List Char} (h : IsBlanks blanks) (rest : List Char) :
    closeList.outcome (blanks ++ ']' :: rest) = .ok ((), rest) := by
  rw [closeList, outcome_afterBlanks h (by decide)]
  rfl

theorem outcome_closeList_item {separator : List Char} (h : Separator false separator) {c : Char}
    (hblank : isBlank c = false) (hclose : c ≠ ']') (rest : List Char) :
    closeList.outcome (separator ++ c :: rest) = .refuse .trailingCharacters := by
  obtain ⟨blanks, blanks', rfl, hblanks, hblanks'⟩ := h.exists_comma
  have hdrop := dropWhile_blanks hblanks' hblank rest
  rw [List.append_assoc, List.cons_append, closeList, outcome_afterBlanks hblanks (by decide)]
  simp [hdrop, hclose, outcome_ite]

theorem outcome_nextName_close {blanks : List Char} (h : IsBlanks blanks) (first : Bool)
    (rest : List Char) :
    (nextName first).outcome (blanks ++ '}' :: rest) = .ok (none, '}' :: rest) := by
  rw [nextName, outcome_afterBlanks h (by decide)]
  rfl

theorem outcome_name {pieces : List Text.Piece} (h : ∀ p ∈ pieces, p.Proper) (rest : List Char) :
    nextName.name.outcome ('"' :: (Text.bodyChars pieces ++ '"' :: rest))
      = (fun chars => (some (.ofList chars), rest)) <$> Text.decode pieces := by
  have htext := outcome_text h rest
  rw [nextName.name, outcome_peek_bind]
  simp only [List.head?_cons, if_true, outcome_skip_bind, List.tail_cons, bind_pure_comp,
    outcome_map, htext]
  cases Text.decode pieces <;> rfl

theorem outcome_nextName_name {first : Bool} {separator : List Char}
    (h : Separator first separator) {pieces : List Text.Piece} (hproper : ∀ p ∈ pieces, p.Proper)
    (rest : List Char) :
    (nextName first).outcome (separator ++ '"' :: (Text.bodyChars pieces ++ '"' :: rest))
      = (fun chars => (some (.ofList chars), rest)) <$> Text.decode pieces := by
  rw [← outcome_name hproper rest]
  cases h with
  | first hblanks =>
    rw [nextName, outcome_afterBlanks hblanks (by decide)]
    rfl
  | later hblanks hblanks' =>
    have hdrop := dropWhile_blanks hblanks' (show isBlank '"' = false by decide)
      (Text.bodyChars pieces ++ '"' :: rest)
    rw [List.append_assoc, List.cons_append, nextName, outcome_afterBlanks hblanks (by decide)]
    simp [hdrop]

end ValidatorGen.Reader
