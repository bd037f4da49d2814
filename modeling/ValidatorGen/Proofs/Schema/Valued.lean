import ValidatorGen.Proofs.Schema.OfForm

/-! Forms that have a value say as keywords what their values say. -/
namespace ValidatorGen

open Json

variable {levels : Nat}

/-- If no step fails, the steps come to a fold. -/
theorem foldlM_some {σ τ : Type} (step : σ → τ → σ) (init : σ) (items : List τ) :
    items.foldlM (fun state item => some (step state item)) init = some (items.foldl step init) :=
  List.foldlM_pure

/-- Names are read one after the other, the last one first. -/
def addName (names : List String) (item : Json) : Option (List String) :=
  item.head.asText.toOption.map (· :: names)

theorem foldlM_addName (items : List Json) (names : List String) :
    (items.foldlM addName names).map List.reverse
      = (namesOfItems items).toOption.map (names.reverse ++ ·) := by
  induction items generalizing names with
  | nil => simp [namesOfItems, Except.toOption]
  | cons item items ih =>
    rw [List.foldlM_cons, namesOfItems, toOption_bind, addName]
    cases item.head.asText.toOption with
    | none => rfl
    | some name =>
      have hrest := ih (name :: names)
      simp [hrest, Function.comp_def]

def addProperty (properties : List (String × Node)) (member : String × Json) :
    Option (List (String × Node)) :=
  (Node.ofJson member.2).toOption.map (Entries.put member.1 · properties)

theorem foldlM_addProperty (members : List (String × Json)) (properties : List (String × Node)) :
    members.foldlM addProperty properties = (propertiesOfMembers members properties).toOption := by
  induction members generalizing properties with
  | nil => simp [propertiesOfMembers, Except.toOption]
  | cons member members ih =>
    obtain ⟨name, value⟩ := member
    rw [List.foldlM_cons, addProperty, Node.ofJson, propertiesOfMembers, toOption_bind,
      toOption_bind]
    cases (Shape.ofJson .node value).toOption with
    | none => rfl
    | some node? =>
      simp only [Option.bind_some, toOption_bind]
      cases (requireNode node?).toOption with
      | none => rfl
      | some node => exact ih _

def Record.addMember (r : Record) (member : String × Json) : Option Record :=
  match Keyword.ofName? member.1 with
  | none => some r
  | some k => if r.has k then none else (k.shape.ofJson member.2).toOption.map (r.set k)

theorem foldlM_addMember (members : List (String × Json)) (r : Record) :
    members.foldlM Record.addMember r = (recordOfMembers members r).toOption := by
  induction members generalizing r with
  | nil => simp [recordOfMembers, Except.toOption]
  | cons member members ih =>
    obtain ⟨name, value⟩ := member
    rw [List.foldlM_cons, Record.addMember, recordOfMembers]
    cases Keyword.ofName? name with
    | none => exact ih r
    | some k =>
      by_cases hk : r.has k
      · simp [hk, Except.toOption]
      · simp only [hk, Bool.false_eq_true, if_false, toOption_bind, Record.add, toOption_map]
        cases (k.shape.ofJson value).toOption with
        | none => rfl
        | some v => exact ih _

theorem Json.Form.head_of_value {form : Form} {value : Json} (hscalar : form.IsScalar)
    (h : form.value? levels = some value) : form.head = .ok value.head ∧ value.IsScalar := by
  cases form with
  | null | boolean b =>
    cases h
    exact ⟨rfl, trivial⟩
  | number n =>
    obtain ⟨number, hnumber, rfl⟩ := Option.map_eq_some_iff.1 h
    rw [← Numeral.toOption_verdict] at hnumber
    rw [head, toOption_eq_some_iff.1 hnumber]
    exact ⟨rfl, trivial⟩
  | text pieces =>
    obtain ⟨chars, hchars, rfl⟩ := Option.map_eq_some_iff.1 h
    rw [← Text.toOption_decode] at hchars
    rw [head, toOption_eq_some_iff.1 hchars]
    exact ⟨rfl, trivial⟩
  | list items | object members => exact hscalar.elim

theorem Shape.ofJson_of_isScalar (s : Shape) {value : Json} (hscalar : value.IsScalar) :
    s.ofJson value = s.ofHead value.head := by
  cases value with
  | null | boolean b | number n | text text => cases s <;> rfl
  | list items | object members => exact hscalar.elim

theorem toOption_foldMembers_of_values {σ : Type} (step : σ → String → Form → Verdict σ)
    {f : σ → String × Json → Option σ}
    (hstep : ∀ state name form value, form.value? levels = some value →
      (step state name form).toOption = f state (name, value))
    {members : List (List Text.Piece × Form)} {values : List (String × Json)}
    (h : memberValues? members levels = some values) (state : σ) :
    (foldMembers step state members).toOption = values.foldlM f state := by
  have hmember : ∀ member ∈ members, ∀ state name, (step state name member.2).toOption
      = (member.2.value? levels).bind fun value => f state (name, value) := by
    intro member hmem state name
    obtain ⟨value, hvalue⟩ := exists_value_of_mem_members h member hmem
    rw [hvalue, hstep state name member.2 value hvalue]
    rfl
  rw [toOption_foldMembers hmember, h]
  rfl

namespace Messages

def entryText? : Json → Option String
  | .text message => some message
  | _ => none

def insertEntry (m : Messages) (name : String) : Option String → Messages
  | some message => m.insert name message
  | none => m

theorem insertEntry_entryText? (m : Messages) (name : String) (value : Json) :
    insertEntry m name (entryText? value) = ofJson.addMember m (name, value) := by
  cases value <;> rfl

theorem toOption_entryOfForm {form : Form} {value : Json} (h : form.value? levels = some value) :
    (entryOfForm levels form).toOption = some (entryText? value) := by
  have hscalars (hscalar : form.IsScalar) : entryOfForm levels form = form.head >>= entryOfHead := by
    cases form with
    | list items | object members => exact hscalar.elim
    | null | boolean b | number n | text pieces => cases levels <;> rfl
  by_cases hscalar : form.IsScalar
  · obtain ⟨hhead, hvalue⟩ := Form.head_of_value hscalar h
    rw [hscalars hscalar, hhead]
    cases value with
    | list items | object members => exact hvalue.elim
    | null | boolean b | number n | text text => rfl
  cases levels with
  | zero =>
    cases form with
    | null | boolean b | number n | text pieces => exact absurd trivial hscalar
    | list items | object members => cases h
  | succ inner =>
    cases form with
    | null | boolean b | number n | text pieces => exact absurd trivial hscalar
    | list items =>
      obtain ⟨values, -, rfl⟩ := Option.map_eq_some_iff.1 h
      rfl
    | object members =>
      obtain ⟨values, hvalues, rfl⟩ := Option.map_eq_some_iff.1 h
      have hfold := toOption_foldMembers_of_values (fun _ _ _ => .ok ())
        (f := fun _ _ => some ()) (fun _ _ _ _ _ => rfl) hvalues ()
      rw [foldlM_some (fun _ _ => ())] at hfold
      rw [entryOfForm, toOption_map, hfold]
      rfl

theorem toOption_memberOfForm (m : Messages) (name : String) {form : Form} {value : Json}
    (h : form.value? levels = some value) :
    (memberOfForm levels m name form).toOption = some (ofJson.addMember m (name, value)) := by
  have hentry := toOption_eq_some_iff.1 (toOption_entryOfForm h)
  rw [memberOfForm, hentry, ← insertEntry_entryText?]
  cases entryText? value <;> rfl

theorem toOption_ofForm {form : Form} {value : Json} (h : form.value? levels = some value) :
    (ofForm levels form).toOption = some (ofJson value) := by
  by_cases hscalar : form.IsScalar
  · have hform : ofForm levels form = (fun _ => empty) <$> form.head := by
      cases form with
      | list items | object members => exact hscalar.elim
      | null | boolean b | number n | text pieces => cases levels <;> rfl
    obtain ⟨hhead, hvalue⟩ := Form.head_of_value hscalar h
    rw [hform, hhead]
    cases value with
    | list items | object members => exact hvalue.elim
    | null | boolean b | number n | text text => rfl
  cases levels with
  | zero =>
    cases form with
    | null | boolean b | number n | text pieces => exact absurd trivial hscalar
    | list items | object members => cases h
  | succ inner =>
    cases form with
    | null | boolean b | number n | text pieces => exact absurd trivial hscalar
    | list items =>
      obtain ⟨values, -, rfl⟩ := Option.map_eq_some_iff.1 h
      rfl
    | object members =>
      obtain ⟨values, hvalues, rfl⟩ := Option.map_eq_some_iff.1 h
      have hfold := toOption_foldMembers_of_values (memberOfForm inner)
        (f := fun m member => some (ofJson.addMember m member))
        (fun m name _ _ hvalue => toOption_memberOfForm m name hvalue) hvalues empty
      rw [foldlM_some] at hfold
      exact hfold

end Messages

section Parts

variable (hvalue : ∀ s form value, form.value? levels = some value →
  (Shape.ofForm levels s form).toOption = (s.ofJson value).toOption)
include hvalue

theorem Record.toOption_memberOfForm_of_value (r : Record) (name : String) {form : Form}
    {value : Json} (h : form.value? levels = some value) :
    (r.memberOfForm (Shape.ofForm levels) name form).toOption = r.addMember (name, value) := by
  unfold memberOfForm addMember
  cases Keyword.ofName? name with
  | none => rfl
  | some k =>
    by_cases hk : r.has k
    · simp only [hk, if_true]
      rfl
    · simp only [hk, Bool.false_eq_true, if_false, toOption_map, Verdict.toOption_within,
        hvalue k.shape form value h]

theorem Record.toOption_ofItems (keywords : List Keyword) (i : Nat) (r : Record)
    {items : List Form} {values : List Json} (h : itemValues? items levels = some values) :
    (ofItems (Shape.ofForm levels) keywords i r items).toOption
      = (recordOfItems values keywords r).toOption := by
  induction keywords generalizing i r items values with
  | nil =>
    cases items with
    | nil =>
      cases h
      rfl
    | cons form items =>
      simp only [itemValues?, Option.bind_eq_some_iff, Option.map_eq_some_iff] at h
      obtain ⟨value, -, rest, -, rfl⟩ := h
      rfl
  | cons k keywords ih =>
    cases items with
    | nil =>
      cases h
      rw [ofItems, recordOfItems]
      split <;> rfl
    | cons form items =>
      simp only [itemValues?, Option.bind_eq_some_iff, Option.map_eq_some_iff] at h
      obtain ⟨value, hform, rest, hrest, rfl⟩ := h
      rw [ofItems, recordOfItems, toOption_bind, Verdict.toOption_within,
        hvalue k.shape form value hform, toOption_bind, add, toOption_map]
      cases (k.shape.ofJson value).toOption with
      | none => rfl
      | some v => exact ih (i + 1) (r.set k v) hrest

end Parts

theorem toOption_nameOfForm {form : Form} {value : Json} (h : form.value? levels = some value) :
    (nameOfForm form).toOption = value.head.asText.toOption := by
  by_cases hscalar : form.IsScalar
  · rw [nameOfForm, (Form.head_of_value hscalar h).1, Verdict.ok_bind]
    cases value.head.asText <;> rfl
  cases levels with
  | zero =>
    cases form with
    | null | boolean b | number n | text pieces => exact absurd trivial hscalar
    | list items | object members => cases h
  | succ inner =>
    cases form with
    | null | boolean b | number n | text pieces => exact absurd trivial hscalar
    | list items | object members =>
      obtain ⟨values, -, rfl⟩ := Option.map_eq_some_iff.1 h
      rfl

namespace Shape

theorem toOption_ofForm_scalar (s : Shape) {form : Form} {value : Json} (hscalar : form.IsScalar)
    (h : form.value? levels = some value) :
    (s.ofForm levels form).toOption = (s.ofJson value).toOption := by
  obtain ⟨hhead, hvalue⟩ := Form.head_of_value hscalar h
  rw [ofForm_of_isScalar levels s hscalar, hhead, s.ofJson_of_isScalar hvalue, Verdict.ok_bind]
  cases s.ofHead value.head <;> rfl

/-- A form with a value is read as this value is. -/
theorem toOption_ofForm (s : Shape) {form : Form} {value : Json}
    (h : form.value? levels = some value) :
    (s.ofForm levels form).toOption = (s.ofJson value).toOption := by
  by_cases hscalar : form.IsScalar
  · exact s.toOption_ofForm_scalar hscalar h
  induction levels generalizing s form value with
  | zero =>
    cases form with
    | null | boolean b | number n | text pieces => exact absurd trivial hscalar
    | list items | object members => cases h
  | succ inner ih =>
    have hinner (s : Shape) (form : Form) (value : Json) (h : form.value? inner = some value) :
        (ofForm inner s form).toOption = (s.ofJson value).toOption := by
      by_cases hscalar : form.IsScalar
      · exact s.toOption_ofForm_scalar hscalar h
      · exact ih s h hscalar
    cases form with
    | null | boolean b | number n | text pieces => exact absurd trivial hscalar
    | list items =>
      obtain ⟨values, hvalues, rfl⟩ := Option.map_eq_some_iff.1 h
      cases s with
      | text | count | number | properties | messages => rfl
      | node =>
        rw [ofForm, toOption_map, Record.toOption_ofItems hinner _ _ _ hvalues, ofJson,
          toOption_bind]
        cases (recordOfItems values Keyword.all .empty).toOption <;> rfl
      | names =>
        have hstep : ∀ form ∈ items, ∀ names : List String,
            ((· :: names) <$> nameOfForm form).toOption
              = (form.value? inner).bind (addName names) := by
          intro form hmem names
          obtain ⟨value, hvalue⟩ := exists_value_of_mem_items hvalues form hmem
          rw [toOption_map, toOption_nameOfForm hvalue, hvalue]
          rfl
        have hnames := foldlM_addName values []
        simp only [List.reverse_nil, List.nil_append, Option.map_id'] at hnames
        rw [ofForm, toOption_map, toOption_foldItems hstep, hvalues, Option.bind_some, hnames,
          ofJson]
    | object members =>
      obtain ⟨values, hvalues, rfl⟩ := Option.map_eq_some_iff.1 h
      cases s with
      | text | count | number | names => rfl
      | messages => exact Messages.toOption_ofForm h
      | node =>
        rw [ofForm, toOption_map, toOption_foldMembers_of_values _ (fun r name _ _ hvalue =>
          Record.toOption_memberOfForm_of_value hinner r name hvalue) hvalues, foldlM_addMember,
          ofJson, toOption_bind]
        cases (recordOfMembers values .empty).toOption <;> rfl
      | properties =>
        rw [ofForm, toOption_foldMembers_of_values (f := addProperty) _ ?_ hvalues,
          foldlM_addProperty, ofJson]
        intro properties name form value hvalue
        rw [toOption_map, Verdict.toOption_within, requiredNode, toOption_bind,
          hinner .node form value hvalue, addProperty, Node.ofJson, toOption_bind]
        cases (Shape.ofJson .node value).toOption with
        | none => rfl
        | some node? => cases node? <;> rfl

end Shape

theorem Node.toOption_ofForm {form : Form} {value : Json} (h : form.value? levels = some value) :
    (ofForm levels form).toOption = (ofJson value).toOption := by
  rw [ofForm, requiredNode, toOption_bind, Shape.toOption_ofForm .node h, ofJson, toOption_bind]
  cases (Shape.ofJson .node value).toOption with
  | none => rfl
  | some node? => cases node? <;> rfl

end ValidatorGen
