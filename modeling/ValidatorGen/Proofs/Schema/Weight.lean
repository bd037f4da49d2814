import ValidatorGen.Proofs.Reading.Extent

/-! The levels of containers that a schema needs. Main statements: no schema needs more levels than
it was read with, and a text whose schema would need more is too deep. -/
namespace ValidatorGen

open Json

mutual

/-- How deep the nodes of a schema are inside each other. Properties are in an object of their
own. -/
def Node.weight : Node → Nat
  | .string _ content => 1 + weightNested content
  | .array _ items => 1 + weightNested items
  | .object properties _ => 1 + weightProperties properties
  | .integer _ | .number _ | .boolean | .null | .any => 1

def weightNested : Option Node → Nat
  | none => 0
  | some node => node.weight

def weightProperties : List (String × Node) → Nat
  | [] => 0
  | (_, node) :: rest => max (1 + node.weight) (weightProperties rest)

end

theorem weightProperties_put (name : String) (node : Node) (properties : List (String × Node)) :
    weightProperties (Entries.put name node properties)
      ≤ max (1 + node.weight) (weightProperties properties) := by
  induction properties with
  | nil => simp [Entries.put, weightProperties]
  | cons p rest ih =>
    unfold Entries.put
    split
    · simp only [weightProperties]
      omega
    · simp only [weightProperties]
      omega

/-- The levels that the value of a keyword needs. -/
def Shape.weight : (s : Shape) → s.Value → Nat
  | .node, value => weightNested value
  | .properties, value => weightProperties value
  | .text, _ | .count, _ | .number, _ | .names, _ | .messages, _ => 0

/-- No value in a record needs more than so many levels. -/
def Record.Within (levels : Nat) (r : Record) : Prop :=
  ∀ k, ∀ value ∈ r k, k.shape.weight value ≤ levels

namespace Record

variable {levels : Nat}

theorem within_empty : empty.Within levels := fun _ _ h => by cases h

theorem Within.set {r : Record} {k : Keyword} {value : k.shape.Value} (h : r.Within levels)
    (hvalue : k.shape.weight value ≤ levels) : (r.set k value).Within levels :=
  forall_mem_set (P := fun k value => k.shape.weight value ≤ levels) h hvalue

theorem Within.value {r : Record} (h : r.Within levels) (k : Keyword) :
    k.shape.weight (r.value k) ≤ levels := by
  refine value_of_forall (P := fun k value => k.shape.weight value ≤ levels) h (fun k => ?_) k
  have habsent : k.shape.weight k.shape.absent = 0 := by cases k <;> rfl
  exact habsent ▸ Nat.zero_le levels

theorem Within.weight_ofRecord {r : Record} (h : r.Within levels) :
    (Node.ofRecord r).weight ≤ levels + 1 := by
  have hcontent : weightNested (r.value .contentSchema) ≤ levels := h.value .contentSchema
  have hitems : weightNested (r.value .items) ≤ levels := h.value .items
  have hproperties : weightProperties (r.value .properties) ≤ levels := h.value .properties
  unfold Node.ofRecord
  split <;> simp only [Node.weight] <;> omega

end Record

namespace Verdict

variable {α β : Type} {P : α → Prop} {Q : β → Prop}

/-- What is accepted has a property. -/
def Gives (P : α → Prop) (v : Verdict α) : Prop := ∀ a, v = .ok a → P a

namespace Gives

theorem ok {a : α} (h : P a) : Gives P (.ok a) := fun _ ha => Except.ok.inj ha ▸ h

theorem error (c : Complaint) : Gives P (.error c) := nofun

theorem bind {v : Verdict α} {next : α → Verdict β} (h : Gives P v)
    (hnext : ∀ a, P a → Gives Q (next a)) : Gives Q (v >>= next) := by
  cases v with
  | error c => exact error c
  | ok a => exact hnext a (h a rfl)

theorem map {f : α → β} {v : Verdict α} (h : Gives (fun a => Q (f a)) v) : Gives Q (f <$> v) := by
  cases v with
  | error c => exact error c
  | ok a => exact ok (h a rfl)

theorem true (v : Verdict α) : Gives (fun _ => True) v := fun _ _ => trivial

theorem within {v : Verdict α} (h : Gives P v) (s : Segment) : Gives P (v.within s) := by
  cases v with
  | error c => exact error _
  | ok a => exact h

end Gives
end Verdict

open Verdict

theorem gives_foldMembers {σ : Type} {I : σ → Prop} {step : σ → String → Form → Verdict σ}
    (h : ∀ state name form, I state → Gives I (step state name form))
    (members : List (List Text.Piece × Form)) {state : σ} (hstate : I state) :
    Gives I (foldMembers step state members) := by
  induction members generalizing state with
  | nil => exact .ok hstate
  | cons member members ih =>
    refine .bind (.true _) fun chars _ => ?_
    exact .bind (h state _ member.2 hstate) fun next hnext => ih hnext

namespace Record

variable {levels : Nat} {value : (s : Shape) → Form → Verdict s.Value}
  (hvalue : ∀ s form, Gives (s.weight · ≤ levels) (value s form))
include hvalue

theorem gives_memberOfForm {r : Record} (hr : r.Within levels) (name : String) (form : Form) :
    Gives (Within levels) (r.memberOfForm value name form) := by
  unfold memberOfForm
  split
  · exact .ok hr
  · next k _ =>
    split
    · exact .error _
    · exact .map fun v hv => hr.set ((hvalue k.shape form).within _ v hv)

theorem gives_ofItems (keywords : List Keyword) (i : Nat) {r : Record} (hr : r.Within levels)
    (items : List Form) : Gives (Within levels) (ofItems value keywords i r items) := by
  induction keywords generalizing i r items with
  | nil =>
    cases items with
    | nil => exact .ok hr
    | cons form items => exact .error _
  | cons k keywords ih =>
    cases items with
    | nil =>
      rw [ofItems]
      split
      · exact .ok hr
      · exact .error _
    | cons form items =>
      exact .bind ((hvalue k.shape form).within _) fun v hv => ih (i + 1) (hr.set hv) items

end Record

theorem Shape.gives_ofHead (levels : Nat) (s : Shape) (h : Head) :
    Gives (s.weight · ≤ levels) (ofMismatch (s.ofHead h)) := by
  cases s with
  | text | count | number | names | messages => exact fun _ _ => Nat.zero_le _
  | node =>
    cases h with
    | null => exact .ok (Nat.zero_le _)
    | _ => exact .error _
  | properties => exact .error _

theorem Shape.gives_ofForm (levels : Nat) (s : Shape) (form : Form) :
    Gives (s.weight · ≤ levels) (ofForm levels s form) := by
  induction levels generalizing s form with
  | zero =>
    by_cases hscalar : form.IsScalar
    · rw [ofForm_of_isScalar 0 s hscalar]
      exact .bind (.true _) fun h _ => gives_ofHead 0 s h
    cases s with
    | text | count | number | names | messages => exact fun _ _ => Nat.zero_le _
    | node | properties =>
      cases form with
      | null | boolean b | number n | text pieces => exact absurd trivial hscalar
      | list items | object members => exact .error _
  | succ inner ih =>
    by_cases hscalar : form.IsScalar
    · rw [ofForm_of_isScalar (inner + 1) s hscalar]
      exact .bind (.true _) fun h _ => gives_ofHead (inner + 1) s h
    cases s with
    | text | count | number | names | messages => exact fun _ _ => Nat.zero_le _
    | node =>
      cases form with
      | null | boolean b | number n | text pieces => exact absurd trivial hscalar
      | list items =>
        have hrecord := Record.gives_ofItems ih Keyword.all 0 Record.within_empty items
        exact .map fun r hr => (hrecord r hr).weight_ofRecord
      | object members =>
        have hrecord := gives_foldMembers
          (fun _ name form hr => Record.gives_memberOfForm ih hr name form) members
          Record.within_empty
        exact .map fun r hr => (hrecord r hr).weight_ofRecord
    | properties =>
      cases form with
      | null | boolean b | number n | text pieces => exact absurd trivial hscalar
      | list items => exact .error _
      | object members =>
        refine gives_foldMembers (fun properties name form hproperties => .map (.within ?_ _))
          members (Nat.zero_le _)
        refine .bind (ih .node form) fun node? hnode => ?_
        cases node? with
        | none => exact .error _
        | some node =>
          have hput := weightProperties_put name node properties
          have hweight : node.weight ≤ inner := hnode
          have hrest : weightProperties properties ≤ inner + 1 := hproperties
          refine .ok (le_trans hput ?_)
          omega

theorem Node.gives_ofForm (levels : Nat) (form : Form) :
    Gives (fun node => node.weight ≤ levels) (ofForm levels form) := by
  refine .bind (Shape.gives_ofForm levels .node form) fun node? hnode => ?_
  cases node? with
  | none => exact .error _
  | some node => exact .ok hnode

namespace Verdict

variable {α β : Type}

/-- A verdict with fewer levels: the same as the full one, unless the levels are used up. -/
def CutOff (full cut : Verdict α) : Prop := cut = full ∨ ∃ path, cut = .error ⟨.tooDeep, path⟩

namespace CutOff

theorem refl (v : Verdict α) : CutOff v v := .inl rfl

theorem tooDeep (full : Verdict α) : CutOff full (refuse .tooDeep) := .inr ⟨[], rfl⟩

theorem bind {full cut : Verdict α} {next next' : α → Verdict β} (h : CutOff full cut)
    (hnext : ∀ a, CutOff (next a) (next' a)) : CutOff (full >>= next) (cut >>= next') := by
  rcases h with rfl | ⟨path, rfl⟩
  · cases cut with
    | error c => exact refl _
    | ok a => exact hnext a
  · exact .inr ⟨path, rfl⟩

theorem map {full cut : Verdict α} (h : CutOff full cut) (f : α → β) :
    CutOff (f <$> full) (f <$> cut) := by
  rcases h with rfl | ⟨path, rfl⟩
  · exact refl _
  · exact .inr ⟨path, rfl⟩

theorem within {full cut : Verdict α} (h : CutOff full cut) (s : Segment) :
    CutOff (full.within s) (cut.within s) := by
  rcases h with rfl | ⟨path, rfl⟩
  · exact refl _
  · exact .inr ⟨s :: path, rfl⟩

end CutOff
end Verdict

theorem cutOff_foldMembers {σ : Type} {full cut : σ → String → Form → Verdict σ}
    (h : ∀ state name form, CutOff (full state name form) (cut state name form))
    (members : List (List Text.Piece × Form)) (state : σ) :
    CutOff (foldMembers full state members) (foldMembers cut state members) := by
  induction members generalizing state with
  | nil => exact .refl _
  | cons member members ih =>
    exact .bind (.refl _) fun chars => .bind (h state _ member.2) fun next => ih next

theorem Record.cutOff_ofItems {full cut : (s : Shape) → Form → Verdict s.Value}
    (h : ∀ s form, CutOff (full s form) (cut s form)) (keywords : List Keyword) (i : Nat)
    (r : Record) (items : List Form) :
    CutOff (ofItems full keywords i r items) (ofItems cut keywords i r items) := by
  induction keywords generalizing i r items with
  | nil => cases items <;> exact .refl _
  | cons k keywords ih =>
    cases items with
    | nil => exact .refl _
    | cons form items => exact .bind ((h k.shape form).within _) fun v => ih (i + 1) _ items

theorem Record.cutOff_memberOfForm {full cut : (s : Shape) → Form → Verdict s.Value}
    (h : ∀ s form, CutOff (full s form) (cut s form)) (r : Record) (name : String) (form : Form) :
    CutOff (r.memberOfForm full name form) (r.memberOfForm cut name form) := by
  unfold memberOfForm
  split
  · exact .refl _
  · next k _ =>
    split
    · exact .refl _
    · exact ((h k.shape form).within _).map _

namespace Messages

theorem cutOff_entryOfForm {levels more : Nat} (hle : levels ≤ more) (form : Form) :
    CutOff (entryOfForm more form) (entryOfForm levels form) := by
  cases form with
  | null | boolean b | number n | text pieces => exact .refl _
  | list items | object members =>
    cases levels with
    | zero => exact .tooDeep _
    | succ levels =>
      obtain ⟨more, rfl⟩ := Nat.exists_eq_add_one_of_ne_zero (Nat.ne_zero_of_lt hle)
      exact .refl _

theorem cutOff_ofForm {levels more : Nat} (hle : levels ≤ more) (form : Form) :
    CutOff (ofForm more form) (ofForm levels form) := by
  cases form with
  | null | boolean b | number n | text pieces => exact .refl _
  | list items =>
    cases levels with
    | zero => exact .tooDeep _
    | succ levels =>
      obtain ⟨more, rfl⟩ := Nat.exists_eq_add_one_of_ne_zero (Nat.ne_zero_of_lt hle)
      exact .refl _
  | object members =>
    cases levels with
    | zero => exact .tooDeep _
    | succ levels =>
      obtain ⟨more, rfl⟩ := Nat.exists_eq_add_one_of_ne_zero (Nat.ne_zero_of_lt hle)
      have hentry (form : Form) := cutOff_entryOfForm (Nat.le_of_succ_le_succ hle) form
      exact cutOff_foldMembers (fun m name form => .bind ((hentry form).within _) fun message? =>
        .refl _) members empty

end Messages

theorem Shape.ofForm_messages (levels : Nat) (form : Form) :
    ofForm levels .messages form = Messages.ofForm levels form := by
  cases levels <;> cases form <;> rfl

/-- Fewer levels change nothing but that a form may be too deep for them. -/
theorem Shape.cutOff_ofForm {levels more : Nat} (hle : levels ≤ more) (s : Shape) (form : Form) :
    CutOff (ofForm more s form) (ofForm levels s form) := by
  induction levels generalizing more s form with
  | zero =>
    by_cases hscalar : form.IsScalar
    · rw [ofForm_of_isScalar _ s hscalar, ofForm_of_isScalar _ s hscalar]
      exact .refl _
    cases form with
    | null | boolean b | number n | text pieces => exact absurd trivial hscalar
    | list items =>
      cases s with
      | node | names => exact .tooDeep _
      | messages =>
        rw [ofForm_messages, ofForm_messages]
        exact Messages.cutOff_ofForm hle _
      | text | count | number | properties => cases more <;> exact .refl _
    | object members =>
      cases s with
      | node | properties => exact .tooDeep _
      | messages =>
        rw [ofForm_messages, ofForm_messages]
        exact Messages.cutOff_ofForm hle _
      | text | count | number | names => cases more <;> exact .refl _
  | succ levels ih =>
    obtain ⟨more, rfl⟩ := Nat.exists_eq_add_one_of_ne_zero (Nat.ne_zero_of_lt hle)
    have hinner (s : Shape) (form : Form) := ih (Nat.le_of_succ_le_succ hle) s form
    by_cases hscalar : form.IsScalar
    · rw [ofForm_of_isScalar _ s hscalar, ofForm_of_isScalar _ s hscalar]
      exact .refl _
    cases form with
    | null | boolean b | number n | text pieces => exact absurd trivial hscalar
    | list items =>
      cases s with
      | node => exact (Record.cutOff_ofItems hinner Keyword.all 0 .empty items).map _
      | messages => exact Messages.cutOff_ofForm hle _
      | text | count | number | properties | names => exact .refl _
    | object members =>
      cases s with
      | node =>
        exact (cutOff_foldMembers (Record.cutOff_memberOfForm hinner) members .empty).map _
      | properties =>
        exact cutOff_foldMembers (fun properties name form =>
          (((hinner .node form).bind fun _ => .refl _).within _).map _) members []
      | messages => exact Messages.cutOff_ofForm hle _
      | text | count | number | names => exact .refl _

theorem Node.cutOff_ofForm {levels more : Nat} (hle : levels ≤ more) (form : Form) :
    CutOff (ofForm more form) (ofForm levels form) :=
  .bind (Shape.cutOff_ofForm hle .node form) fun _ => .refl _

/-- The reader's levels bound every schema that it builds. -/
theorem Node.weight_le_of_parse {text : String} {node : Node} (h : parse text = .ok node) :
    node.weight ≤ maxLevels := by
  obtain ⟨blanks, chars, rest, form, -, -, -, -, hform⟩ := exists_front_of_parse h
  exact gives_ofForm maxLevels form node hform

/-- A text of a schema that needs more levels than the reader has is too deep. -/
theorem Node.tooDeep_of_lt_weight {text : String} {blanks chars rest : List Char} {form : Form}
    (hblanks : IsBlanks blanks) (hwritten : Written form chars) (hscalar : ¬form.IsScalar)
    (htext : text.toList = blanks ++ (chars ++ rest)) {levels : Nat} {node : Node}
    (hform : ofForm levels form = .ok node) (hweight : maxLevels < node.weight) :
    ∃ e, parse text = .error e ∧ e.cause = .tooDeep := by
  have hneeded : node.weight ≤ levels := gives_ofForm levels form node hform
  have hread := outcome_read hblanks hwritten hscalar rest
  rw [← htext] at hread
  -- With the levels of the reader the form either gives the same schema or is too deep, and the
  -- schema needs more levels than that.
  have hcut := cutOff_ofForm (le_of_lt (lt_of_lt_of_le hweight hneeded)) form
  rw [hform] at hcut
  rcases hcut with hsame | ⟨path, hdeep⟩
  · have hle : node.weight ≤ maxLevels := gives_ofForm maxLevels form node hsame
    exact absurd hweight (Nat.not_lt.2 hle)
  · rw [hdeep] at hread
    obtain ⟨e, hrun, hcomplaint⟩ := Reader.run_of_outcome_error hread
    exact ⟨e, hrun, congrArg Complaint.cause hcomplaint⟩

end ValidatorGen
