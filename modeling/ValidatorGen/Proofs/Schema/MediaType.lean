import Mathlib.Data.List.Forall2
import Mathlib.Data.List.TakeWhile
import ValidatorGen.Schema.MediaType

/-! Which media types announce JSON. Main statement: parameters, the case of letters and white space
around the type do not count, and of the rest the subtype decides, which is `json` or ends with
`+json`. -/
namespace ValidatorGen

theorem toNat_toLower (c : Char) :
    c.toLower.toNat = if 65 ≤ c.toNat ∧ c.toNat ≤ 90 then c.toNat + 32 else c.toNat := by
  have hval (d : Char) : d.toNat = d.val.toNat := rfl
  unfold Char.toLower
  simp only [hval, UInt32.le_iff_toNat_le, ge_iff_le, UInt32.reduceToNat, Char.reduceVal]
  split
  · simp only [UInt32.toNat_add, UInt32.toNat_sub, UInt32.reduceToNat]
    omega
  · rfl

theorem toNat_toUpper (c : Char) :
    c.toUpper.toNat = if 97 ≤ c.toNat ∧ c.toNat ≤ 122 then c.toNat - 32 else c.toNat := by
  have hval (d : Char) : d.toNat = d.val.toNat := rfl
  unfold Char.toUpper
  simp only [hval, UInt32.le_iff_toNat_le, UInt32.reduceToNat, Char.reduceVal]
  split
  · simp only [UInt32.toNat_add, UInt32.toNat_sub, UInt32.reduceToNat]
    omega
  · rfl

/-- What comes before the letters is no small form of anything else. -/
theorem toLower_eq_iff {c d : Char} (h : d.toNat < 65) : c.toLower = d ↔ c = d := by
  rw [← Char.toNat_inj, ← Char.toNat_inj, toNat_toLower]
  split <;> omega

/-- A character as it is, as its capital or as its small letter, as far as ASCII has one. -/
def CaseVariant (c d : Char) : Prop := d = c ∨ d = c.toUpper ∨ d = c.toLower

instance (c d : Char) : Decidable (CaseVariant c d) := inferInstanceAs (Decidable (_ ∨ _ ∨ _))

theorem CaseVariant.toLower_eq {c d : Char} (h : CaseVariant c d) : d.toLower = c.toLower := by
  rcases h with rfl | rfl | rfl
  · rfl
  · rw [← Char.toNat_inj, toNat_toLower, toNat_toLower, toNat_toUpper]
    split_ifs <;> omega
  · rw [← Char.toNat_inj, toNat_toLower c.toLower, toNat_toLower c]
    split_ifs <;> omega

theorem map_toLower_of_caseVariant {s t : List Char} (h : List.Forall₂ CaseVariant s t) :
    t.map Char.toLower = s.map Char.toLower := by
  induction h with
  | nil => rfl
  | cons hc _ ih => rw [List.map_cons, List.map_cons, hc.toLower_eq, ih]

namespace Text

theorem isWhiteSpace_toLower (c : Char) : isWhiteSpace c.toLower = isWhiteSpace c := by
  unfold isWhiteSpace
  rw [toNat_toLower]
  split
  · grind
  · rfl

theorem trim_blanks_append {w : List Char} (h : ∀ c ∈ w, isWhiteSpace c) (text : List Char) :
    trim (w ++ text) = trim text := by
  rw [trim, List.dropWhile_append_of_pos h, trim]

theorem trim_append_blanks {w : List Char} (h : ∀ c ∈ w, isWhiteSpace c) (text : List Char) :
    trim (text ++ w) = trim text := by
  have hreverse : ∀ c ∈ w.reverse, isWhiteSpace c := by simpa using h
  unfold trim
  rw [List.dropWhile_append]
  split
  · next hempty =>
    rw [List.isEmpty_iff.1 hempty, List.dropWhile_eq_nil_iff.2 h]
  · rw [List.reverse_append, List.dropWhile_append_of_pos hreverse]

theorem trim_of_forall {text : List Char} (h : ∀ c ∈ text, isWhiteSpace c = false) :
    trim text = text := by
  have hkeep (l : List Char) (hl : ∀ c ∈ l, isWhiteSpace c = false) :
      l.dropWhile isWhiteSpace = l := by
    cases l with
    | nil => rfl
    | cons c rest => simp [hl c]
  rw [trim, hkeep text h, hkeep _ (by simpa using h), List.reverse_reverse]

theorem trim_sublist (text : List Char) : (trim text).Sublist text := by
  have hback := ((List.dropWhile_sublist isWhiteSpace).trans
    (List.reverse_sublist.2 (List.dropWhile_sublist isWhiteSpace (l := text)))).reverse
  rwa [List.reverse_reverse] at hback

theorem trim_map_toLower (text : List Char) :
    trim (text.map Char.toLower) = (trim text).map Char.toLower := by
  have hclass : isWhiteSpace ∘ Char.toLower = isWhiteSpace := funext isWhiteSpace_toLower
  simp only [trim, List.dropWhile_map, ← List.map_reverse, hclass]

end Text

namespace MediaType

/-- Capitals may as well be made small first. -/
theorem essence_eq (text : List Char) :
    essence text = Text.trim ((text.map Char.toLower).takeWhile (· ≠ ';')) := by
  have hclass : (fun c : Char => decide (c.toLower ≠ ';')) = fun c => decide (c ≠ ';') :=
    funext fun c => by simp [toLower_eq_iff (c := c) (d := ';') (by decide)]
  rw [essence, List.takeWhile_map, Text.trim_map_toLower]
  exact congrArg (fun p => (Text.trim (text.takeWhile p)).map Char.toLower) hclass.symm

theorem essence_of_caseVariant {s t : List Char} (h : List.Forall₂ CaseVariant s t) :
    essence t = essence s := by
  rw [essence_eq, essence_eq, map_toLower_of_caseVariant h]

theorem essence_append_parameters (text : List Char) {q : List Char}
    (h : ∀ c ∈ q.head?, c = ';') : essence (text ++ q) = essence text := by
  have hstop : q.takeWhile (· ≠ ';') = [] := by
    cases q with
    | nil => rfl
    | cons c rest => simp [h c rfl]
  unfold essence
  rw [List.takeWhile_append, hstop, List.append_nil]
  split
  · next hwhole => rw [(List.takeWhile_prefix _).eq_of_length hwhole]
  · rfl

/-- White space around a type does not count, whether or not there are parameters. -/
theorem essence_between_blanks {w w' : List Char} (hw : ∀ c ∈ w, Text.isWhiteSpace c)
    (hw' : ∀ c ∈ w', Text.isWhiteSpace c) (text : List Char) :
    essence (w ++ text ++ w') = essence text := by
  have hkeep {blanks : List Char} (h : ∀ c ∈ blanks, Text.isWhiteSpace c) :
      ∀ c ∈ blanks, decide (c ≠ ';') = true := by
    intro c hc
    refine decide_eq_true ?_
    rintro rfl
    exact absurd (h _ hc) (by decide)
  unfold essence
  rw [List.append_assoc, List.takeWhile_append_of_pos (hkeep hw), Text.trim_blanks_append hw,
    List.takeWhile_append]
  split
  -- If there are parameters inside, the blanks at the end belong to them.
  · next hwhole =>
    rw [List.takeWhile_eq_self_iff.2 (hkeep hw'), Text.trim_append_blanks hw',
      (List.takeWhile_prefix _).eq_of_length hwhole]
  · rfl

/-- Free of separators and white space. -/
def IsPlain (s : String) : Prop :=
  ∀ c ∈ s.toList, c ≠ '/' ∧ c ≠ ';' ∧ Text.isWhiteSpace c = false

instance (s : String) : Decidable (IsPlain s) := List.decidableBAll _ _

def IsBlank (s : String) : Prop := ∀ c ∈ s.toList, Text.isWhiteSpace c

instance (s : String) : Decidable (IsBlank s) := List.decidableBAll _ _

theorem essence_plain {a b : String} (ha : IsPlain a) (hb : IsPlain b) :
    essence (a.toList ++ '/' :: b.toList)
      = a.toList.map Char.toLower ++ '/' :: b.toLower.toList := by
  have hall : ∀ c ∈ a.toList ++ '/' :: b.toList, c ≠ ';' ∧ Text.isWhiteSpace c = false := by
    intro c hc
    rcases List.mem_append.1 hc with hc | hc
    · exact (ha c hc).2
    · rcases List.mem_cons.1 hc with rfl | hc
      · decide
      · exact (hb c hc).2
  have htake : (a.toList ++ '/' :: b.toList).takeWhile (· ≠ ';') = a.toList ++ '/' :: b.toList :=
    List.takeWhile_eq_self_iff.2 fun c hc => decide_eq_true (hall c hc).1
  have hlower : b.toLower.toList = b.toList.map Char.toLower := String.toList_map
  rw [essence, htake, Text.trim_of_forall fun c hc => (hall c hc).2, List.map_append, List.map_cons,
    hlower]
  rfl

theorem subtype?_append {a : List Char} (ha : '/' ∉ a) (b : List Char) :
    subtype? (a ++ '/' :: b) = some b := by
  have hslash : ∀ c ∈ a, decide (c ≠ '/') = true := fun c hc =>
    decide_eq_true fun h => ha (h ▸ hc)
  rw [subtype?, List.dropWhile_append_of_pos hslash]
  rfl

theorem subtype?_eq_none {text : List Char} (h : '/' ∉ text) : subtype? text = none := by
  have hdrop : text.dropWhile (· ≠ '/') = [] :=
    List.dropWhile_eq_nil_iff.2 fun c hc => decide_eq_true fun heq => h (heq ▸ hc)
  rw [subtype?, hdrop]

theorem isJsonSubtype_iff {subtype : String} : isJsonSubtype subtype.toList
    ↔ subtype = "json" ∨ ∃ front, subtype = front ++ "+json" := by
  rw [isJsonSubtype, Bool.or_eq_true, decide_eq_true_eq, List.isSuffixOf_iff_suffix,
    String.toList_inj]
  refine or_congr_right ⟨?_, ?_⟩
  · rintro ⟨front, hfront⟩
    exact ⟨.ofList front, String.toList_injective (by simp [← hfront])⟩
  · rintro ⟨front, rfl⟩
    exact ⟨front.toList, String.toList_append.symm⟩

/-- Parameters, the case of letters and white space around a type do not count. What is left
announces JSON if its subtype is `json` or ends with `+json`, and not if it has no slash. -/
theorem isJson_iff :
    (∀ a b m w w' q : String, IsPlain a → IsPlain b →
      List.Forall₂ CaseVariant (a ++ "/" ++ b).toList m.toList → IsBlank w → IsBlank w' →
      (q = "" ∨ ∃ rest, q = ";" ++ rest) →
      (isJson (w ++ m ++ w' ++ q) ↔ b.toLower = "json" ∨ ∃ front, b.toLower = front ++ "+json"))
      ∧ ∀ text : String, '/' ∉ text.toList.takeWhile (· ≠ ';') → isJson text = false := by
  refine ⟨fun a b m w w' q ha hb hm hw hw' hq => ?_, fun text h => ?_⟩
  · have hm' : List.Forall₂ CaseVariant (a.toList ++ '/' :: b.toList) m.toList := by
      simpa using hm
    have hq' : ∀ c ∈ q.toList.head?, c = ';' := by
      rcases hq with rfl | ⟨rest, rfl⟩ <;> simp
    have hessence : essence (w ++ m ++ w' ++ q).toList
        = a.toList.map Char.toLower ++ '/' :: b.toLower.toList := by
      rw [String.toList_append, String.toList_append, String.toList_append,
        essence_append_parameters _ hq', essence_between_blanks hw hw',
        essence_of_caseVariant hm', essence_plain ha hb]
    have hslash : '/' ∉ a.toList.map Char.toLower := by
      intro hmem
      obtain ⟨c, hc, hlower⟩ := List.mem_map.1 hmem
      exact (ha c hc).1 ((toLower_eq_iff (by decide)).1 hlower)
    rw [isJson, hessence, subtype?_append hslash, Option.map_some, Option.getD_some,
      isJsonSubtype_iff]
  · have hslash : '/' ∉ essence text.toList := by
      intro hmem
      obtain ⟨c, hc, hlower⟩ := List.mem_map.1 hmem
      obtain rfl := (toLower_eq_iff (by decide)).1 hlower
      exact h ((Text.trim_sublist _).mem hc)
    rw [isJson, subtype?_eq_none hslash]
    rfl

/-- Slashes and suffixes among the parameters make no difference. -/
theorem isJson_linkedData :
    isJson ("\u00A0 " ++ "Application/LD+JSON" ++ "\t" ++ "; profile=\"a/b+xml\"; q=1") = true
      ∧ isJson "text; format=a/b+json" = false := by
  have hjson := isJson_iff.1 "application" "ld+json" "Application/LD+JSON" "\u00A0 " "\t"
    "; profile=\"a/b+xml\"; q=1" (by decide +kernel) (by decide +kernel) (by decide +kernel)
    (by decide +kernel) (by decide +kernel) (.inr ⟨" profile=\"a/b+xml\"; q=1", by decide +kernel⟩)
  exact ⟨hjson.2 (.inr ⟨"ld", by decide +kernel⟩), isJson_iff.2 _ (by decide +kernel)⟩

end MediaType
end ValidatorGen
