import Mathlib.Data.List.Basic
import ValidatorGen.Proofs.Text.Literal
import ValidatorGen.Text.Visible

/-! The visible form of a text. Main statement: it ends at its last quote, whatever follows, and
different texts have different forms. -/
namespace ValidatorGen.Text

theorem toDigits_sixteen_injective {n m : Nat} (h : Nat.toDigits 16 n = Nat.toDigits 16 m) :
    n = m := by
  have hdigit {a b : Nat} (ha : a < 16) (hb : b < 16) (hab : a.digitChar = b.digitChar) : a = b :=
    Option.some.inj ((hexDigit?_digitChar ha).symm.trans (hab ▸ hexDigit?_digitChar hb))
  induction n using Nat.strongRecOn generalizing m with
  | ind n ih =>
    by_cases hn : n < 16 <;> by_cases hm : m < 16
    · rw [Nat.toDigits_of_lt_base hn, Nat.toDigits_of_lt_base hm] at h
      exact hdigit hn hm (List.cons.inj h).1
    · rw [Nat.toDigits_of_lt_base hn, Nat.toDigits_of_base_le (by decide) (by omega)] at h
      simpa using congrArg List.length h
    · rw [Nat.toDigits_of_lt_base hm, Nat.toDigits_of_base_le (by decide) (by omega)] at h
      simpa using congrArg List.length h
    · rw [Nat.toDigits_of_base_le (by decide) (show 16 ≤ n by omega),
        Nat.toDigits_of_base_le (by decide) (show 16 ≤ m by omega)] at h
      obtain ⟨hfront, hlast⟩ := List.append_inj' h rfl
      have hquotient := ih (n / 16) (by omega) hfront
      have hremainder := hdigit (Nat.mod_lt n (by decide)) (Nat.mod_lt m (by decide))
        (List.cons.inj hlast).1
      omega

theorem brace_notMem_toDigits (n : Nat) : '}' ∉ Nat.toDigits 16 n := by
  have hdigit : ∀ k < 16, k.digitChar ≠ '}' := by decide
  induction n using Nat.strongRecOn with
  | ind n ih =>
    by_cases hn : n < 16
    · rw [Nat.toDigits_of_lt_base hn, List.mem_singleton]
      exact (hdigit n hn).symm
    · rw [Nat.toDigits_of_base_le (by decide) (by omega), List.mem_append, List.mem_singleton, not_or]
      exact ⟨ih _ (by omega), (hdigit _ (Nat.mod_lt n (by decide))).symm⟩

def letters : List (Char × Char) :=
  [('\x00', '0'), ('\t', 't'), ('\r', 'r'), ('\n', 'n'), ('"', '"'), ('\\', '\\')]

/-- The ways in which a character is shown. -/
inductive Shown : Char → List Char → Prop
  | letter {c l : Char} (h : (c, l) ∈ letters) : Shown c ['\\', l]
  | code (c : Char) : Shown c ('\\' :: 'u' :: '{' :: (Nat.toDigits 16 c.toNat ++ ['}']))
  | plain {c : Char} (hquote : c ≠ '"') (hbackslash : c ≠ '\\') : Shown c [c]

theorem shown_showChar (c : Char) : Shown c (showChar c) := by
  unfold showChar
  split
  · next h => exact .letter (by simp [h, letters])
  split
  · next h => exact .letter (by simp [h, letters])
  split
  · next h => exact .letter (by simp [h, letters])
  split
  · next h => exact .letter (by simp [h, letters])
  split
  · next h => exact .letter (by rcases h with rfl | rfl <;> decide)
  split
  · exact .code c
  · next h _ => exact .plain (fun hc => h (.inl hc)) fun hc => h (.inr hc)

theorem ne_u_of_mem_letters {c l : Char} (h : (c, l) ∈ letters) : l ≠ 'u' := by
  have hall : ∀ pair ∈ letters, pair.2 ≠ 'u' := by decide
  exact hall _ h

theorem letters_injective {c c' l : Char} (h : (c, l) ∈ letters) (h' : (c', l) ∈ letters) :
    c = c' := by
  have hall : ∀ a ∈ letters, ∀ b ∈ letters, a.2 = b.2 → a.1 = b.1 := by decide
  exact hall _ h _ h' rfl

/-- The first bracket that closes a code ends it. -/
theorem append_brace_inj {xs ys u v : List Char} (hx : '}' ∉ xs) (hy : '}' ∉ ys)
    (h : xs ++ '}' :: u = ys ++ '}' :: v) : xs = ys ∧ u = v := by
  induction xs generalizing ys with
  | nil =>
    cases ys with
    | nil => exact ⟨rfl, (List.cons.inj h).2⟩
    | cons y ys => exact absurd (List.mem_cons.2 (.inl (List.cons.inj h).1)) hy
  | cons x xs ih =>
    cases ys with
    | nil => exact absurd (List.mem_cons.2 (.inl (List.cons.inj h).1.symm)) hx
    | cons y ys =>
      simp only [List.cons_append, List.cons.injEq, List.mem_cons, not_or] at h hx hy
      obtain ⟨rfl, hrest⟩ := ih hx.2 hy.2 h.2
      exact ⟨by rw [h.1], hrest⟩

/-- A text begins with at most one shown character. -/
theorem Shown.append_inj {c c' : Char} {s s' u u' : List Char} (h : Shown c s) (h' : Shown c' s')
    (heq : s ++ u = s' ++ u') : c = c' ∧ u = u' := by
  cases h with
  | letter hl =>
    cases h' <;> simp only [List.cons_append, List.nil_append, List.cons.injEq, true_and] at heq
    case letter hl' =>
      obtain ⟨rfl, rfl⟩ := heq
      exact ⟨letters_injective hl hl', rfl⟩
    case code => exact absurd heq.1 (ne_u_of_mem_letters hl)
    case plain _ hne => exact absurd heq.1.symm hne
  | code =>
    cases h' <;> simp only [List.cons_append, List.append_assoc, List.nil_append, List.cons.injEq,
      true_and] at heq
    case letter hl' => exact absurd heq.1.symm (ne_u_of_mem_letters hl')
    case code =>
      obtain ⟨hdigits, hrest⟩ :=
        append_brace_inj (brace_notMem_toDigits _) (brace_notMem_toDigits _) heq
      exact ⟨Char.toNat_inj.1 (toDigits_sixteen_injective hdigits), hrest⟩
    case plain _ hne => exact absurd heq.1.symm hne
  | plain _ hne =>
    cases h' <;> simp only [List.cons_append, List.nil_append, List.cons.injEq] at heq
    case letter => exact absurd heq.1 hne
    case code => exact absurd heq.1 hne
    case plain => exact heq

theorem Shown.ne_quote_cons {c : Char} {s : List Char} (h : Shown c s) (u v : List Char) :
    s ++ u ≠ '"' :: v := by
  cases h <;> simp_all

theorem flatMap_showChar_append_inj {a b u v : List Char}
    (h : a.flatMap showChar ++ '"' :: u = b.flatMap showChar ++ '"' :: v) : a = b ∧ u = v := by
  induction a generalizing b with
  | nil =>
    cases b with
    | nil => simpa using h
    | cons c b =>
      rw [List.flatMap_cons, List.append_assoc] at h
      exact absurd h.symm ((shown_showChar c).ne_quote_cons _ _)
  | cons c a ih =>
    rw [List.flatMap_cons, List.append_assoc] at h
    cases b with
    | nil => exact absurd h ((shown_showChar c).ne_quote_cons _ _)
    | cons c' b =>
      rw [List.flatMap_cons, List.append_assoc] at h
      obtain ⟨rfl, hrest⟩ := (shown_showChar c).append_inj (shown_showChar c') h
      obtain ⟨rfl, hafter⟩ := ih hrest
      exact ⟨rfl, hafter⟩

theorem visible_append_inj {a b u v : String} (h : visible a ++ u = visible b ++ v) :
    a = b ∧ u = v := by
  have hchars := congrArg String.toList h
  simp only [visible, String.toList_append, String.toList_ofList, List.cons_append,
    List.append_assoc, List.nil_append, List.cons.injEq, true_and] at hchars
  obtain ⟨htext, hrest⟩ := flatMap_showChar_append_inj hchars
  exact ⟨String.toList_inj.1 htext, String.toList_inj.1 hrest⟩

end ValidatorGen.Text
