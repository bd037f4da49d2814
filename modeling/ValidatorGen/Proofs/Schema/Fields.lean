import ValidatorGen.Proofs.Schema.Messages
import ValidatorGen.Proofs.Schema.Weight

/-! What a schema says under each keyword, wherever in it the keyword stands. A schema that is
written as a list has the fields that its items stand for. -/
namespace ValidatorGen

open Json

/-- What stands under a keyword, or in its place if it is not written. -/
def written {D : Type} (blank : Shape → D) (fields : List (String × D)) (k : Keyword) : D :=
  (fields.lookup k.name).getD (blank k.shape)

namespace Record

variable {D : Type} {read? : (s : Shape) → D → Option s.Value}

/-- One field of a record. A keyword may not come twice, and other names are skipped. -/
def addField (read? : (s : Shape) → D → Option s.Value) (r : Record) (field : String × D) :
    Option Record :=
  match Keyword.ofName? field.1 with
  | none => some r
  | some k => if r.has k then none else (read? k.shape field.2).map (r.set k)

theorem addField_of_ne {r r' : Record} {field : String × D} (h : r.addField read? field = some r')
    {k : Keyword} (hne : field.1 ≠ k.name) : r' k = r k := by
  unfold addField at h
  cases hname : Keyword.ofName? field.1 with
  | none =>
    simp only [hname, Option.some.injEq] at h
    rw [h]
  | some other =>
    have hother : other ≠ k := fun heq => hne (heq ▸ Keyword.eq_name_of_ofName? hname)
    by_cases hhas : r.has other
    · simp [hname, hhas] at h
    · simp only [hname, hhas, Bool.false_eq_true, if_false, Option.map_eq_some_iff] at h
      obtain ⟨value, -, rfl⟩ := h
      exact r.set_of_ne value hother

theorem addField_name {r r' : Record} {k : Keyword} {d : D}
    (h : r.addField read? (k.name, d) = some r') :
    r k = none ∧ ∃ value, read? k.shape d = some value ∧ r' k = some value := by
  simp only [addField, Keyword.ofName?_name] at h
  by_cases hhas : r.has k
  · simp [hhas] at h
  · simp only [hhas, Bool.false_eq_true, if_false, Option.map_eq_some_iff] at h
    obtain ⟨value, hvalue, rfl⟩ := h
    exact ⟨by simpa [has] using hhas, value, hvalue, r.set_self k value⟩

theorem eq_of_addFields {fields : List (String × D)} {r r' : Record}
    (h : fields.foldlM (addField read?) r = some r') {k : Keyword} {value : k.shape.Value}
    (hk : r k = some value) : r' k = some value := by
  induction fields generalizing r with
  | nil =>
    cases h
    exact hk
  | cons field fields ih =>
    obtain ⟨middle, hfield, hfields⟩ := Option.bind_eq_some_iff.1 h
    refine ih hfields ?_
    by_cases hname : field.1 = k.name
    · obtain ⟨name, d⟩ := field
      obtain rfl : name = k.name := hname
      rw [(addField_name hfield).1] at hk
      cases hk
    · rw [addField_of_ne hfield hname, hk]

/-- What is not set before is set by the field of its name, and else not at all. -/
theorem lookup_of_addFields {fields : List (String × D)} {r r' : Record}
    (h : fields.foldlM (addField read?) r = some r') {k : Keyword} (hk : r k = none) :
    match fields.lookup k.name with
    | none => r' k = none
    | some d => ∃ value, read? k.shape d = some value ∧ r' k = some value := by
  induction fields generalizing r with
  | nil =>
    cases h
    exact hk
  | cons field fields ih =>
    obtain ⟨middle, hfield, hfields⟩ := Option.bind_eq_some_iff.1 h
    obtain ⟨name, d⟩ := field
    by_cases hname : name = k.name
    · subst hname
      obtain ⟨-, value, hvalue, hset⟩ := addField_name hfield
      simpa using ⟨value, hvalue, eq_of_addFields hfields hset⟩
    · have hrest := ih hfields (by rw [addField_of_ne hfield hname, hk])
      simpa [List.lookup_cons, beq_eq_false_iff_ne.2 (Ne.symm hname)] using hrest

/-- Each keyword of a record has the value of what stands under it. -/
theorem value_of_addFields {blank : Shape → D} (hblank : ∀ s, read? s (blank s) = some s.absent)
    {fields : List (String × D)} {r : Record}
    (h : fields.foldlM (addField read?) .empty = some r) (k : Keyword) :
    read? k.shape (written blank fields k) = some (r.value k) := by
  have hlookup := lookup_of_addFields h (k := k) rfl
  unfold written value
  cases hfield : fields.lookup k.name with
  | none =>
    rw [hfield] at hlookup
    rw [show r k = none from hlookup]
    exact hblank k.shape
  | some d =>
    rw [hfield] at hlookup
    obtain ⟨value, hvalue, hset⟩ := hlookup
    rw [hset]
    exact hvalue

end Record

def IsProperty {D : Type} (read? : (s : Shape) → D → Option s.Value) (member : String × D)
    (property : String × Node) : Prop :=
  member.1 = property.1 ∧ read? .node member.2 = some (some property.2)

theorem exists_values_of_foldlM_put {D α : Type} (read? : D → Option α)
    {fields : List (String × D)} {done result : List (String × α)}
    (h : fields.foldlM (fun done field => (read? field.2).map (Entries.put field.1 · done)) done
      = some result) :
    ∃ values : List (String × α),
      List.Forall₂ (fun field value => field.1 = value.1 ∧ read? field.2 = some value.2) fields values
        ∧ result = values.foldl (fun done value => Entries.put value.1 value.2 done) done := by
  induction fields generalizing done with
  | nil =>
    cases h
    exact ⟨[], .nil, rfl⟩
  | cons field fields ih =>
    obtain ⟨middle, hfield, hfields⟩ := Option.bind_eq_some_iff.1 h
    obtain ⟨value, hvalue, rfl⟩ := Option.map_eq_some_iff.1 hfield
    obtain ⟨values, hvalues, hresult⟩ := ih hfields
    exact ⟨(field.1, value) :: values, .cons ⟨rfl, hvalue⟩ hvalues, hresult⟩

namespace Json

/-- The members of an object with their names unescaped. -/
def named? (members : List (List Text.Piece × Form)) : Option (List (String × Form)) :=
  members.mapM fun member => (Text.decode? member.1).map fun name => (.ofList name, member.2)

theorem named?_quoted (members : List (String × Form)) :
    named? (members.map fun member => (Text.quotedPieces member.1.toList, member.2))
      = some members := by
  induction members with
  | nil => rfl
  | cons member members ih =>
    rw [named?] at ih ⊢
    simp [Text.decode?_quotedPieces, ih]

theorem toOption_foldMembers_named {σ : Type} (step : σ → String → Form → Verdict σ)
    (members : List (List Text.Piece × Form)) (state : σ) :
    (foldMembers step state members).toOption = (named? members).bind fun fields =>
      fields.foldlM (fun state field => (step state field.1 field.2).toOption) state := by
  induction members generalizing state with
  | nil => rfl
  | cons member members ih =>
    obtain ⟨name, form⟩ := member
    rw [foldMembers, toOption_bind, Verdict.toOption_within, Text.toOption_decode, named?,
      List.mapM_cons]
    cases Text.decode? name with
    | none => rfl
    | some chars =>
      rw [Option.bind_some, toOption_bind]
      cases hstep : (step state (.ofList chars) form).toOption with
      | none => cases hrest : named? members <;> simp_all [named?]
      | some next =>
        rw [Option.bind_some, ih]
        cases hrest : named? members <;> simp_all [named?]

namespace Form

def members? : Form → Option (List (String × Form))
  | .object members => named? members
  | _ => none

def fields? : Form → Option (List (String × Form))
  | .object members => named? members
  | .list items => some ((Keyword.all.map Keyword.name).zip items)
  | _ => none

end Form
end Json

section OfForm

variable {value : (s : Shape) → Form → Verdict s.Value}

theorem Record.toOption_memberOfForm (r : Record) (name : String) (form : Form) :
    (r.memberOfForm value name form).toOption
      = r.addField (fun s form => (value s form).toOption) (name, form) := by
  unfold memberOfForm addField
  cases Keyword.ofName? name with
  | none => rfl
  | some k =>
    by_cases hk : r.has k
    · simp only [hk, if_true]
      rfl
    · simp only [hk, Bool.false_eq_true, if_false, toOption_map, Verdict.toOption_within]

/-- Items are added like the fields that they stand for. -/
theorem Record.addFields_of_ofItems {keywords : List Keyword} {items : List Form} {i : Nat}
    {r r' : Record} (hnodup : keywords.Nodup) (hfresh : ∀ k ∈ keywords, r.has k = false)
    (h : ofItems value keywords i r items = .ok r') :
    ((keywords.map Keyword.name).zip items).foldlM
      (addField fun s form => (value s form).toOption) r = some r' := by
  induction keywords generalizing items i r with
  | nil =>
    cases items with
    | nil =>
      cases h
      rfl
    | cons form items => cases h
  | cons k keywords ih =>
    cases items with
    | nil =>
      rw [ofItems] at h
      split at h
      · cases h
        rfl
      · cases h
    | cons form items =>
      obtain ⟨hk, hrest⟩ := List.nodup_cons.1 hnodup
      rw [ofItems] at h
      cases hvalue : value k.shape form with
      | error c =>
        rw [hvalue] at h
        cases h
      | ok v =>
        rw [hvalue] at h
        have hfreshRest : ∀ other ∈ keywords, (r.set k v).has other = false := by
          intro other hother
          have hne : k ≠ other := fun heq => hk (heq ▸ hother)
          rw [r.has_set_of_ne v hne]
          exact hfresh other (List.mem_cons_of_mem _ hother)
        have hadd : r.addField (fun s form => (value s form).toOption) (k.name, form)
            = some (r.set k v) := by
          simp [addField, Keyword.ofName?_name, hfresh k (by simp), hvalue, Except.toOption]
        rw [List.map_cons, List.zip_cons_cons, List.foldlM_cons, hadd]
        exact ih hrest hfreshRest h

end OfForm

/-- The value of a form, with all the levels that there are. -/
def Shape.ofForm? (s : Shape) (form : Form) : Option s.Value := (s.ofForm maxLevels form).toOption

theorem Shape.ofForm?_of_le {levels : Nat} (hle : levels ≤ maxLevels) {s : Shape} {form : Form}
    {value : s.Value} (h : (s.ofForm levels form).toOption = some value) :
    s.ofForm? form = some value := by
  have hform := toOption_eq_some_iff.1 h
  rcases Shape.cutOff_ofForm hle s form with hsame | ⟨path, hdeep⟩
  · rw [ofForm?, ← hsame, h]
  · rw [hform] at hdeep
    cases hdeep

theorem eq_ok_of_requiredNode {node? : Verdict (Option Node)} {node : Node}
    (h : requiredNode node? = .ok node) : node? = .ok (some node) := by
  cases node? with
  | error c => cases h
  | ok found =>
    cases found with
    | none => cases h
    | some other =>
      cases h
      rfl

abbrev innerLevels : Nat := maxLevels - 1

namespace Json.Form

def blank : Shape → Form
  | .properties => .object []
  | .names => .list []
  | _ => .null

theorem ofForm_blank (inner : Nat) (s : Shape) : s.ofForm (inner + 1) (blank s) = .ok s.absent := by
  cases s <;> rfl

theorem exists_record {form : Form} {fields : List (String × Form)} {node? : Option Node}
    (hfields : form.fields? = some fields) (h : Shape.node.ofForm? form = some node?) :
    ∃ r : Record, node? = some (.ofRecord r)
      ∧ ∀ k : Keyword, k.shape.ofForm? (written blank fields k) = some (r.value k) := by
  have hle : innerLevels ≤ maxLevels := Nat.sub_le _ _
  -- Items and members come to the same fold over the fields.
  have hrecord : ∃ r : Record, node? = some (.ofRecord r)
      ∧ fields.foldlM (Record.addField fun s form => (s.ofForm innerLevels form).toOption) .empty
        = some r := by
    have hread : (Shape.ofForm (innerLevels + 1) .node form).toOption = some node? := h
    cases form with
    | null | boolean b | number n | text pieces => cases hfields
    | list items =>
      rw [Shape.ofForm, toOption_map, Option.map_eq_some_iff] at hread
      obtain ⟨r, hitems, rfl⟩ := hread
      obtain rfl := Option.some.inj hfields
      exact ⟨r, rfl, Record.addFields_of_ofItems (by decide) (fun _ _ => rfl)
        (toOption_eq_some_iff.1 hitems)⟩
    | object members =>
      rw [Shape.ofForm, toOption_map, toOption_foldMembers_named,
        show named? members = some fields from hfields, Option.map_eq_some_iff] at hread
      obtain ⟨r, hmembers, rfl⟩ := hread
      simp only [Record.toOption_memberOfForm] at hmembers
      exact ⟨r, rfl, hmembers⟩
  obtain ⟨r, hnode, hfold⟩ := hrecord
  have hblank (s : Shape) : (s.ofForm innerLevels (blank s)).toOption = some s.absent := by
    change (s.ofForm (innerLevels - 1 + 1) (blank s)).toOption = some s.absent
    rw [ofForm_blank]
    rfl
  exact ⟨r, hnode, fun k => Shape.ofForm?_of_le hle (Record.value_of_addFields hblank hfold k)⟩

theorem exists_properties {form : Form} {members : List (String × Form)}
    {properties : List (String × Node)} (hmembers : form.members? = some members)
    (h : Shape.properties.ofForm? form = some properties) :
    ∃ values, List.Forall₂ (IsProperty Shape.ofForm?) members values
      ∧ properties = Entries.ofList values := by
  cases form with
  | null | boolean b | number n | text pieces | list items => cases hmembers
  | object pieces =>
    have hread : (Shape.ofForm (innerLevels + 1) .properties (.object pieces)).toOption
        = some properties := h
    rw [Shape.ofForm, toOption_foldMembers_named, show named? pieces = some members from hmembers,
      Option.bind_some] at hread
    simp only [toOption_map, Verdict.toOption_within] at hread
    obtain ⟨values, hvalues, hproperties⟩ := exists_values_of_foldlM_put
      (fun form => (requiredNode (Shape.ofForm innerLevels .node form)).toOption) hread
    refine ⟨values, hvalues.imp fun member value hmember => ⟨hmember.1, ?_⟩, hproperties⟩
    have hle : innerLevels ≤ maxLevels := Nat.sub_le _ _
    refine Shape.ofForm?_of_le hle ?_
    have hnode := hmember.2
    unfold requiredNode at hnode
    simp only [toOption_bind, Option.bind_eq_some_iff] at hnode
    obtain ⟨node?, hread, hnode⟩ := hnode
    cases node? with
    | none => cases hnode
    | some node =>
      cases hnode
      exact hread

def text? : Form → Option String
  | .text pieces => (Text.decode? pieces).map .ofList
  | _ => none

theorem bind_entryText?_value? (levels : Nat) (form : Form) :
    (form.value? levels).bind Messages.entryText? = form.text? := by
  cases form with
  | null | boolean b => rfl
  | number n =>
    rw [value?]
    cases n.value? <;> rfl
  | text pieces =>
    rw [value?, text?]
    cases Text.decode? pieces <;> rfl
  | list items =>
    cases levels with
    | zero => rfl
    | succ inner =>
      rw [value?]
      cases itemValues? items inner <;> rfl
  | object members =>
    cases levels with
    | zero => rfl
    | succ inner =>
      rw [value?]
      cases memberValues? members inner <;> rfl

theorem eq_text?_of_entryOfForm {levels : Nat} {form : Form} {entry : Option String}
    (h : Messages.entryOfForm levels form = .ok entry) : entry = form.text? := by
  cases form with
  | null | boolean b =>
    cases h
    rfl
  | number n =>
    cases hvalue : n.verdict <;> simp_all [Messages.entryOfForm, head, Messages.entryOfHead, text?]
  | text pieces =>
    have hdecode := Text.toOption_decode pieces
    cases hchars : Text.decode pieces with
    | error c => simp [Messages.entryOfForm, head, hchars] at h
    | ok chars =>
      simp only [Messages.entryOfForm, head, hchars, Verdict.map_ok, Verdict.ok_bind,
        Messages.entryOfHead, Except.ok.injEq] at h
      rw [hchars] at hdecode
      rw [text?, ← hdecode, ← h]
      rfl
  | list items =>
    cases levels <;> cases h
    rfl
  | object members =>
    cases levels with
    | zero => cases h
    | succ inner =>
      cases hmembers : foldMembers (fun _ _ _ => .ok ()) () members with
      | error c => simp [Messages.entryOfForm, hmembers] at h
      | ok _ =>
        simp only [Messages.entryOfForm, hmembers, Verdict.map_ok, Except.ok.injEq] at h
        exact h.symm

theorem eq_insertEntry_of_memberOfForm {levels : Nat} {m next : Messages} {name : String}
    {form : Form} (h : Messages.memberOfForm levels m name form = .ok next) :
    next = m.insertEntry name form.text? := by
  unfold Messages.memberOfForm at h
  cases hentry : Messages.entryOfForm levels form with
  | error c => simp [hentry] at h
  | ok entry =>
    rw [← eq_text?_of_entryOfForm hentry]
    simp only [hentry, Verdict.within_ok, Verdict.ok_bind] at h
    cases entry <;> exact (Except.ok.inj h).symm

theorem foldlM_memberOfForm {levels : Nat} {members : List (String × Form)} {m result : Messages}
    (h : members.foldlM (fun m member =>
      (Messages.memberOfForm levels m member.1 member.2).toOption) m = some result) :
    result = (Messages.textMembers text? members).foldl
      (fun m entry => m.insert entry.1 entry.2) m := by
  induction members generalizing m with
  | nil =>
    cases h
    rfl
  | cons member members ih =>
    obtain ⟨next, hmember, hmembers⟩ := Option.bind_eq_some_iff.1 h
    have hinsert := eq_insertEntry_of_memberOfForm (toOption_eq_some_iff.1 hmember)
    rw [ih hmembers, hinsert, Messages.textMembers]
    cases htext : member.2.text? <;> simp [htext, Messages.insertEntry, Messages.textMembers]

theorem messages_eq {form : Form} {members : List (String × Form)} {m : Messages}
    (hmembers : form.members? = some members) (h : Shape.messages.ofForm? form = some m) :
    m = .ofList (Messages.textMembers text? members) := by
  cases form with
  | null | boolean b | number n | text pieces | list items => cases hmembers
  | object pieces =>
    have hread : (Shape.ofForm (innerLevels + 1) .messages (.object pieces)).toOption = some m := h
    rw [Shape.ofForm_messages, Messages.ofForm, toOption_foldMembers_named,
      show named? pieces = some members from hmembers] at hread
    exact foldlM_memberOfForm hread

end Json.Form

/-- A schema with these fields stands at the front of the text. What comes after it does not
count. -/
def FieldsAt (text : String) (fields : List (String × Form)) : Prop :=
  ∃ before chars rest form, IsBlanks before ∧ Written form chars
    ∧ text.toList = before ++ (chars ++ rest) ∧ form.fields? = some fields

theorem FieldsAt.of_isTextOf {text : String} {form : Form} {fields : List (String × Form)}
    (h : IsTextOf form text.toList) (hfields : form.fields? = some fields) :
    FieldsAt text fields := by
  obtain ⟨before, chars, after, hbefore, -, hwritten, htext⟩ := h
  exact ⟨before, chars, after, form, hbefore, hwritten, htext, hfields⟩

theorem FieldsAt.exists_form {text : String} {fields : List (String × Form)} {node : Node}
    (h : FieldsAt text fields) (hparse : Node.parse text = .ok node) :
    ∃ form, form.fields? = some fields ∧ Shape.node.ofForm? form = some (some node) := by
  obtain ⟨before, chars, rest, form, hbefore, hwritten, htext, hfields⟩ := h
  have hscalar : ¬form.IsScalar := by
    cases form with
    | list items | object members => exact id
    | null | boolean b | number n | text pieces => cases hfields
  have hform := (Node.parse_eq_ok_iff_ofForm hbefore hwritten hscalar htext).1 hparse
  exact ⟨form, hfields, toOption_eq_some_iff.2 (eq_ok_of_requiredNode hform)⟩

theorem exists_fieldsAt {text : String} {node : Node} (h : Node.parse text = .ok node) :
    ∃ fields, FieldsAt text fields := by
  obtain ⟨before, chars, rest, form, hbefore, hwritten, hscalar, htext, hform⟩ :=
    Node.exists_front_of_parse h
  cases form with
  | null | boolean b | number n | text pieces => exact absurd trivial hscalar
  | list items => exact ⟨_, before, chars, rest, _, hbefore, hwritten, htext, rfl⟩
  | object members =>
    have hread : (Shape.ofForm (innerLevels + 1) .node (.object members)).toOption
        = some (some node) := toOption_eq_some_iff.2 (eq_ok_of_requiredNode hform)
    rw [Shape.ofForm, toOption_map, toOption_foldMembers_named] at hread
    cases hfields : named? members with
    | none => simp [hfields] at hread
    | some fields => exact ⟨fields, before, chars, rest, _, hbefore, hwritten, htext, hfields⟩

end ValidatorGen
