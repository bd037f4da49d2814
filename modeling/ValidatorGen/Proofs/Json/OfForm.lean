import ValidatorGen.Proofs.Json.Grammar
import ValidatorGen.Proofs.Json.Names
import ValidatorGen.Proofs.Reading.Spelling

/-! What forms come to, part after part, and what is wrong with the first part that comes to nothing.
Main statement: a form comes to a value exactly if it spells one. -/
namespace ValidatorGen

open Json

/-- The number that a literal stands for, unless it is too large. -/
def Numeral.verdict (n : Numeral) : Verdict Number :=
  match n.value? with
  | some value => .ok value
  | none => .refuse .numberTooLarge

theorem Numeral.toOption_verdict (n : Numeral) : n.verdict.toOption = n.value? := by
  unfold verdict
  cases n.value? <;> rfl

namespace Json.Form

/-- The head of a form, unless its literal has no meaning. -/
def head : Form → Verdict Head
  | .null => .ok .null
  | .boolean b => .ok (.boolean b)
  | .number n => .number <$> n.verdict
  | .text pieces => (fun chars => .text (.ofList chars)) <$> Text.decode pieces
  | .list _ => .ok .list
  | .object _ => .ok .object

theorem head_of_isScalar {form : Form} {h : Head} (hscalar : form.IsScalar)
    (hhead : form.head = .ok h) : h ≠ .list ∧ h ≠ .object := by
  cases form with
  | null | boolean b =>
    cases hhead
    exact ⟨nofun, nofun⟩
  | number n =>
    rw [head] at hhead
    cases hvalue : n.verdict with
    | error c =>
      rw [hvalue] at hhead
      cases hhead
    | ok value =>
      rw [hvalue] at hhead
      cases hhead
      exact ⟨nofun, nofun⟩
  | text pieces =>
    rw [head] at hhead
    cases hdecode : Text.decode pieces with
    | error c =>
      rw [hdecode] at hhead
      cases hhead
    | ok chars =>
      rw [hdecode] at hhead
      cases hhead
      exact ⟨nofun, nofun⟩
  | list _ | object _ => exact hscalar.elim

end Json.Form

section Fold

variable {σ : Type}

/-- Takes items one after the other, the first of them having this index. -/
def foldItems (step : σ → Form → Verdict σ) : Nat → σ → List Form → Verdict σ
  | _, state, [] => .ok state
  | i, state, form :: items => do
    foldItems step (i + 1) (← Verdict.within (.index i) (step state form)) items

/-- Takes members one after the other. Until a name is read, the member has none. -/
def foldMembers (step : σ → String → Form → Verdict σ) :
    σ → List (List Text.Piece × Form) → Verdict σ
  | state, [] => .ok state
  | state, (name, form) :: members => do
    let chars ← Verdict.within .unnamed (Text.decode name)
    foldMembers step (← step state (.ofList chars) form) members

theorem foldMembers_congr {step step' : σ → String → Form → Verdict σ}
    {members : List (List Text.Piece × Form)}
    (h : ∀ member ∈ members, ∀ state name, step state name member.2 = step' state name member.2)
    (state : σ) : foldMembers step state members = foldMembers step' state members := by
  induction members generalizing state with
  | nil => rfl
  | cons member members ih =>
    obtain ⟨hmember, hmembers⟩ := List.forall_mem_cons.1 h
    have hrest := ih hmembers
    simp only [foldMembers, hmember, hrest]

end Fold

section Values

variable {levels : Nat}

theorem exists_value_of_mem_items {items : List Form} {values : List Json}
    (h : itemValues? items levels = some values) :
    ∀ form ∈ items, ∃ value, form.value? levels = some value := by
  induction items generalizing values with
  | nil => simp
  | cons form items ih =>
    simp only [itemValues?, Option.bind_eq_some_iff, Option.map_eq_some_iff] at h
    obtain ⟨value, hvalue, rest, hrest, -⟩ := h
    exact List.forall_mem_cons.2 ⟨⟨value, hvalue⟩, ih hrest⟩

theorem exists_value_of_mem_members {members : List (List Text.Piece × Form)}
    {values : List (String × Json)} (h : memberValues? members levels = some values) :
    ∀ member ∈ members, ∃ value, member.2.value? levels = some value := by
  induction members generalizing values with
  | nil => simp
  | cons member members ih =>
    simp only [memberValues?, Option.bind_eq_some_iff, Option.map_eq_some_iff] at h
    obtain ⟨chars, -, value, hvalue, rest, hrest, -⟩ := h
    exact List.forall_mem_cons.2 ⟨⟨value, hvalue⟩, ih hrest⟩

theorem exists_value_of_list {items : List Form} {value : Json}
    (h : Form.value? (.list items) (levels + 1) = some value) :
    ∀ form ∈ items, ∃ value, form.value? levels = some value := by
  obtain ⟨values, hvalues, -⟩ := Option.map_eq_some_iff.1 h
  exact exists_value_of_mem_items hvalues

theorem exists_value_of_object {members : List (List Text.Piece × Form)} {value : Json}
    (h : Form.value? (.object members) (levels + 1) = some value) :
    ∀ member ∈ members, ∃ value, member.2.value? levels = some value := by
  obtain ⟨values, hvalues, -⟩ := Option.map_eq_some_iff.1 h
  exact exists_value_of_mem_members hvalues

end Values

section Option

variable {σ : Type} {levels : Nat}

theorem toOption_foldItems {step : σ → Form → Verdict σ} {f : σ → Json → Option σ}
    {items : List Form}
    (h : ∀ form ∈ items, ∀ state, (step state form).toOption = (form.value? levels).bind (f state))
    (i : Nat) (state : σ) : (foldItems step i state items).toOption
      = (itemValues? items levels).bind fun values => values.foldlM f state := by
  induction items generalizing i state with
  | nil => rfl
  | cons form items ih =>
    obtain ⟨hform, hitems⟩ := List.forall_mem_cons.1 h
    rw [foldItems, toOption_bind, Verdict.toOption_within, hform, itemValues?]
    cases form.value? levels with
    | none => rfl
    | some value =>
      cases hstep : f state value with
      | none => cases itemValues? items levels <;> simp [hstep]
      | some next =>
        rw [Option.bind_some, hstep, Option.bind_some, ih hitems]
        cases itemValues? items levels <;> simp [hstep]

theorem toOption_foldMembers {step : σ → String → Form → Verdict σ}
    {f : σ → String × Json → Option σ} {members : List (List Text.Piece × Form)}
    (h : ∀ member ∈ members, ∀ state name, (step state name member.2).toOption
      = (member.2.value? levels).bind fun value => f state (name, value)) (state : σ) :
    (foldMembers step state members).toOption
      = (memberValues? members levels).bind fun values => values.foldlM f state := by
  induction members generalizing state with
  | nil => rfl
  | cons member members ih =>
    obtain ⟨name, form⟩ := member
    obtain ⟨hmember, hmembers⟩ := List.forall_mem_cons.1 h
    rw [foldMembers, toOption_bind, Verdict.toOption_within, Text.toOption_decode, memberValues?]
    cases Text.decode? name with
    | none => rfl
    | some chars =>
      rw [Option.bind_some, toOption_bind, hmember]
      cases form.value? levels with
      | none => rfl
      | some value =>
        cases hstep : f state (.ofList chars, value) with
        | none => cases memberValues? members levels <;> simp [hstep]
        | some next =>
          rw [Option.bind_some, hstep, Option.bind_some, ih hmembers]
          cases memberValues? members levels <;> simp [hstep]

end Option

namespace Json

/-- The value with this head, if it is not made of parts. -/
def Head.bare : Head → Json
  | .null | .list | .object => .null
  | .boolean b => .boolean b
  | .number n => .number n
  | .text s => .text s

/-- The value of a form, with the members of objects filed in any way. -/
def ofForm (file : Filing) : Nat → Form → Verdict Json
  | 0, .list _ | 0, .object _ => .refuse .tooDeep
  | inner + 1, .list items =>
    (fun done => .list done.reverse)
      <$> foldItems (fun done form => (· :: done) <$> ofForm file inner form) 0 [] items
  | inner + 1, .object members =>
    .object <$> foldMembers (fun done name form =>
      (file name · done) <$> Verdict.within (.key name) (ofForm file inner form)) [] members
  | _, form => Head.bare <$> form.head

theorem ofForm_of_isScalar (file : Filing) (levels : Nat) {form : Form} (h : form.IsScalar) :
    ofForm file levels form = Head.bare <$> form.head := by
  cases form with
  | list items | object members => exact h.elim
  | null | boolean b | number n | text pieces => cases levels <;> rfl

theorem toOption_ofForm_scalar (file : Filing) (levels : Nat) {form : Form} (h : form.IsScalar) :
    (ofForm file levels form).toOption = (form.value? levels).map (refile file) := by
  rw [ofForm_of_isScalar file levels h, toOption_map]
  cases form with
  | null | boolean b => rfl
  | number n =>
    rw [Form.head, toOption_map, Numeral.toOption_verdict, Form.value?]
    cases n.value? <;> rfl
  | text pieces =>
    rw [Form.head, toOption_map, Text.toOption_decode, Form.value?]
    cases Text.decode? pieces <;> rfl
  | list items | object members => exact h.elim

/-- A form comes to a value exactly if it spells one. -/
theorem toOption_ofForm (file : Filing) (levels : Nat) (form : Form) :
    (ofForm file levels form).toOption = (form.value? levels).map (refile file) := by
  by_cases hscalar : form.IsScalar
  · exact toOption_ofForm_scalar file levels hscalar
  induction levels generalizing form with
  | zero =>
    cases form with
    | null | boolean b | number n | text pieces => exact absurd trivial hscalar
    | list items | object members => rfl
  | succ inner ih =>
    have hinner (form : Form) :
        (ofForm file inner form).toOption = (form.value? inner).map (refile file) := by
      by_cases hscalar : form.IsScalar
      · exact toOption_ofForm_scalar file inner hscalar
      · exact ih form hscalar
    cases form with
    | null | boolean b | number n | text pieces => exact absurd trivial hscalar
    | list items =>
      have hstep (form : Form) (done : List Json) :
          ((· :: done) <$> ofForm file inner form).toOption
            = (form.value? inner).bind fun value => some (value.refile file :: done) := by
        rw [toOption_map, hinner]
        cases form.value? inner <;> rfl
      rw [ofForm, toOption_map, toOption_foldItems fun form _ => hstep form, Form.value?]
      cases itemValues? items inner with
      | none => rfl
      | some values =>
        have hfold := List.foldlM_pure (m := Option)
          (f := fun done value => refile file value :: done) (b := []) (l := values)
        simp only [Option.pure_def] at hfold
        simp [refile, refileItems_eq_map, hfold]
    | object members =>
      have hstep (form : Form) (done : List (String × Json)) (name : String) :
          ((file name · done) <$> Verdict.within (.key name) (ofForm file inner form)).toOption
            = (form.value? inner).bind fun value => some (file name (value.refile file) done) := by
        rw [toOption_map, Verdict.toOption_within, hinner]
        cases form.value? inner <;> rfl
      rw [ofForm, toOption_map, toOption_foldMembers (f := fun done member =>
        some (file member.1 (member.2.refile file) done)) fun member _ done name =>
          hstep member.2 done name, Form.value?]
      cases memberValues? members inner with
      | none => rfl
      | some values =>
        have hfold := List.foldlM_pure (m := Option)
          (f := fun done member => file member.1 (refile file member.2) done) (b := [])
          (l := values)
        simp only [Option.pure_def] at hfold
        simp [refile, refileMembers_eq_foldl, hfold]

end Json
end ValidatorGen
