import ValidatorGen.Proofs.Schema.OfForm

/-! Levels of nesting. Main statement: a form that has a value within so many levels describes the
same with more of them. -/
namespace ValidatorGen

open Json

theorem Record.ofItems_congr {value value' : (s : Shape) → Form → Verdict s.Value}
    {items : List Form} (h : ∀ form ∈ items, ∀ s, value s form = value' s form)
    (keywords : List Keyword) (i : Nat) (r : Record) :
    ofItems value keywords i r items = ofItems value' keywords i r items := by
  induction items generalizing keywords i r with
  | nil => cases keywords <;> rfl
  | cons form items ih =>
    obtain ⟨hform, hitems⟩ := List.forall_mem_cons.1 h
    have hrest := ih hitems
    cases keywords with
    | nil => rfl
    | cons k keywords => simp only [ofItems, hform, hrest]

section More

variable {levels more : Nat} {form : Form} {value : Json}
  (h : form.value? levels = some value)
include h

theorem isScalar_of_value? (hzero : levels = 0) : form.IsScalar := by
  subst hzero
  cases form with
  | null | boolean b | number n | text pieces => trivial
  | list items | object members => cases h

theorem Messages.entryOfForm_of_le (hle : levels ≤ more) :
    entryOfForm more form = entryOfForm levels form := by
  cases form with
  | null | boolean b | number n | text pieces => rfl
  | list items | object members =>
    cases levels with
    | zero => cases h
    | succ levels =>
      obtain ⟨more, rfl⟩ := Nat.exists_eq_add_one_of_ne_zero (Nat.ne_zero_of_lt hle)
      rfl

theorem Messages.ofForm_of_le (hle : levels ≤ more) : ofForm more form = ofForm levels form := by
  cases form with
  | null | boolean b | number n | text pieces => rfl
  | list items =>
    cases levels with
    | zero => cases h
    | succ levels =>
      obtain ⟨more, rfl⟩ := Nat.exists_eq_add_one_of_ne_zero (Nat.ne_zero_of_lt hle)
      rfl
  | object members =>
    cases levels with
    | zero => cases h
    | succ levels =>
      obtain ⟨more, rfl⟩ := Nat.exists_eq_add_one_of_ne_zero (Nat.ne_zero_of_lt hle)
      refine foldMembers_congr (fun member hmember m name => ?_) empty
      obtain ⟨v, hv⟩ := exists_value_of_object h member hmember
      unfold memberOfForm
      rw [entryOfForm_of_le hv (Nat.le_of_succ_le_succ hle)]

end More

/-- More levels than a form needs change nothing. -/
theorem Shape.ofForm_of_le {levels more : Nat} (hle : levels ≤ more) {form : Form} {value : Json}
    (h : form.value? levels = some value) (s : Shape) :
    ofForm more s form = ofForm levels s form := by
  induction levels generalizing more form value s with
  | zero =>
    have hscalar := isScalar_of_value? h rfl
    rw [ofForm_of_isScalar _ s hscalar, ofForm_of_isScalar _ s hscalar]
  | succ levels ih =>
    obtain ⟨more, rfl⟩ := Nat.exists_eq_add_one_of_ne_zero (Nat.ne_zero_of_lt hle)
    have hinner : levels ≤ more := Nat.le_of_succ_le_succ hle
    by_cases hscalar : form.IsScalar
    · rw [ofForm_of_isScalar _ s hscalar, ofForm_of_isScalar _ s hscalar]
    cases form with
    | null | boolean b | number n | text pieces => exact absurd trivial hscalar
    | list items =>
      have hsame (form : Form) (hform : form ∈ items) (s : Shape) :
          ofForm more s form = ofForm levels s form := by
        obtain ⟨v, hv⟩ := exists_value_of_list h form hform
        exact ih hinner hv s
      cases s with
      | node => exact congrArg _ (Record.ofItems_congr hsame Keyword.all 0 .empty)
      | messages => exact Messages.ofForm_of_le h hle
      | text | count | number | properties | names => rfl
    | object members =>
      have hsame (member : List Text.Piece × Form) (hmember : member ∈ members) (s : Shape) :
          ofForm more s member.2 = ofForm levels s member.2 := by
        obtain ⟨v, hv⟩ := exists_value_of_object h member hmember
        exact ih hinner hv s
      cases s with
      | node =>
        refine congrArg _ (foldMembers_congr (fun member hmember r name => ?_) Record.empty)
        unfold Record.memberOfForm
        cases Keyword.ofName? name with
        | none => rfl
        | some k =>
          have hk := hsame member hmember k.shape
          simp only [hk]
      | properties =>
        refine foldMembers_congr (fun member hmember properties name => ?_) []
        rw [hsame member hmember]
      | messages => exact Messages.ofForm_of_le h hle
      | text | count | number | names => rfl

theorem Node.ofForm_of_le {levels more : Nat} (hle : levels ≤ more) {form : Form} {value : Json}
    (h : form.value? levels = some value) : ofForm more form = ofForm levels form := by
  rw [ofForm, ofForm, Shape.ofForm_of_le hle h]

end ValidatorGen
