import Mathlib.Data.List.Forall2
import Mathlib.Data.List.Induction
import ValidatorGen.Proofs.Generate
import ValidatorGen.Proofs.Schema.Fields

/-! Properties on their way from a text to code. Main statement: the shape has one entry for each
name, at the place of the first property with this name and for the value of the last one, and only
the required names of properties count. -/
namespace ValidatorGen

open Json

namespace Entries

variable {α : Type}

theorem ofList_concat (entries : List (String × α)) (name : String) (value : α) :
    ofList (entries ++ [(name, value)]) = put name value (ofList entries) := by
  simp [ofList]

theorem names_ofList (entries : List (String × α)) :
    (ofList entries).map (·.1) = (entries.map (·.1)).eraseDups := by
  -- Entries are put from the first one on, so the induction takes off the last one.
  induction entries using List.reverseRecOn with
  | nil => rfl
  | append_singleton entries entry ih =>
    obtain ⟨name, value⟩ := entry
    rw [ofList_concat, names_put, ih, List.map_append, List.eraseDups_append]
    by_cases hname : name ∈ entries.map (·.1)
    · simp [List.mem_eraseDups, List.removeAll, hname]
    · simp only [List.mem_eraseDups, hname, if_false]
      simp [List.removeAll, hname, List.eraseDups_cons]

theorem lookup_ofList (entries : List (String × α)) (name : String) :
    (ofList entries).lookup name = entries.reverse.lookup name := by
  induction entries using List.reverseRecOn with
  | nil => rfl
  | append_singleton entries entry ih =>
    obtain ⟨last, value⟩ := entry
    rw [ofList_concat, lookup_put, ih, List.reverse_append, List.reverse_singleton,
      List.singleton_append, List.lookup_cons]
    by_cases hname : name = last
    · simp [hname]
    · simp [hname, beq_eq_false_iff_ne.2 hname]

theorem nodup_ofList (entries : List (String × α)) :
    ((ofList entries).map (·.1)).Nodup := by
  induction entries using List.reverseRecOn with
  | nil => exact List.nodup_nil
  | append_singleton entries entry ih =>
    obtain ⟨name, value⟩ := entry
    rw [ofList_concat, names_put]
    split
    · exact ih
    · next hnew =>
      refine List.nodup_append.2 ⟨ih, by simp, fun other hmem last hlast heq => ?_⟩
      rw [heq, List.mem_singleton.1 hlast] at hmem
      exact hnew hmem

theorem lookup_of_mem {entries : List (String × α)} (hnodup : (entries.map (·.1)).Nodup)
    {entry : String × α} (h : entry ∈ entries) : entries.lookup entry.1 = some entry.2 := by
  induction entries with
  | nil => cases h
  | cons head rest ih =>
    obtain ⟨name, value⟩ := head
    obtain ⟨hname, hrest⟩ := List.nodup_cons.1 hnodup
    rcases List.mem_cons.1 h with rfl | hmem
    · simp
    · have hmemName : entry.1 ∈ rest.map (·.1) := List.mem_map_of_mem hmem
      have hne : entry.1 ≠ name := fun heq => hname (heq ▸ hmemName)
      rw [List.lookup_cons, beq_eq_false_iff_ne.2 hne]
      exact ih hrest hmem

end Entries

namespace Json.Form

/-- The items of a list of texts. -/
def texts? : Form → Option (List String)
  | .list items => items.mapM text?
  | _ => none

theorem toOption_nameOfForm (form : Form) : (nameOfForm form).toOption = form.text? := by
  cases form with
  | null | boolean b | list items | object members => rfl
  | number n =>
    rw [nameOfForm, head]
    cases n.verdict <;> rfl
  | text pieces =>
    rw [nameOfForm, head, text?, ← Text.toOption_decode]
    cases Text.decode pieces <;> rfl

theorem toOption_foldItems_nameOfForm (i : Nat) (names : List String) (items : List Form) :
    (foldItems (fun names form => (· :: names) <$> nameOfForm form) i names items).toOption
      = (items.mapM text?).map fun texts => texts.reverse ++ names := by
  induction items generalizing i names with
  | nil => rfl
  | cons form items ih =>
    rw [foldItems, toOption_bind, Verdict.toOption_within, toOption_map, toOption_nameOfForm,
      List.mapM_cons]
    cases form.text? with
    | none => rfl
    | some name =>
      rw [Option.map_some, Option.bind_some, ih]
      cases items.mapM text? <;> simp

theorem ofForm?_of_isScalar {s : Shape} (hrefused : ∀ h, (s.ofHead h).toOption = none) {form : Form}
    (hscalar : form.IsScalar) : s.ofForm? form = none := by
  rw [Shape.ofForm?, Shape.ofForm_of_isScalar _ _ hscalar, toOption_bind]
  cases form.head.toOption with
  | none => rfl
  | some h =>
    have hnone := hrefused h
    cases hresult : s.ofHead h with
    | error e =>
      rw [Option.bind_some, hresult]
      rfl
    | ok value =>
      rw [hresult] at hnone
      cases hnone

theorem names_eq_texts? (form : Form) : Shape.names.ofForm? form = form.texts? := by
  by_cases hscalar : form.IsScalar
  · rw [ofForm?_of_isScalar (fun _ => rfl) hscalar]
    cases form with
    | list items | object members => exact hscalar.elim
    | null | boolean b | number n | text pieces => rfl
  cases form with
  | null | boolean b | number n | text pieces => exact absurd trivial hscalar
  | object members => rfl
  | list items =>
    have hread : Shape.names.ofForm? (.list items)
        = (Shape.ofForm (innerLevels + 1) .names (.list items)).toOption := rfl
    rw [hread, Shape.ofForm, toOption_map, toOption_foldItems_nameOfForm, texts?]
    cases items.mapM text? <;> simp

theorem exists_members_of_properties {form : Form} {properties : List (String × Node)}
    (h : Shape.properties.ofForm? form = some properties) :
    ∃ members, form.members? = some members := by
  by_cases hscalar : form.IsScalar
  · rw [ofForm?_of_isScalar (fun _ => rfl) hscalar] at h
    cases h
  cases form with
  | null | boolean b | number n | text pieces => exact absurd trivial hscalar
  | list items => cases h
  | object pieces =>
    have hread : (Shape.ofForm (innerLevels + 1) .properties (.object pieces)).toOption
        = some properties := h
    rw [Shape.ofForm, toOption_foldMembers_named] at hread
    obtain ⟨members, hmembers, -⟩ := Option.bind_eq_some_iff.1 hread
    exact ⟨members, hmembers⟩

end Json.Form

section Written

theorem written_of_mem_items {first : Bool} {items : List Form} {chars : List Char}
    (h : ItemsWritten first items chars) : ∀ form ∈ items, ∃ chars, Written form chars := by
  induction items generalizing first chars with
  | nil => simp
  | cons form items ih =>
    cases h with
    | item hseparator hwritten htail => exact List.forall_mem_cons.2 ⟨⟨_, hwritten⟩, ih htail⟩

theorem written_of_mem_members {first : Bool} {members : List (List Text.Piece × Form)}
    {chars : List Char} (h : MembersWritten first members chars) :
    ∀ member ∈ members, ∃ chars, Written member.2 chars := by
  induction members generalizing first chars with
  | nil => simp
  | cons member members ih =>
    cases h with
    | member hseparator hname hblanks hblanks' hwritten htail =>
      exact List.forall_mem_cons.2 ⟨⟨_, hwritten⟩, ih htail⟩

theorem written_of_named? {pieces : List (List Text.Piece × Form)}
    {members : List (String × Form)} (h : named? pieces = some members)
    (hpieces : ∀ piece ∈ pieces, ∃ chars, Written piece.2 chars) :
    ∀ member ∈ members, ∃ chars, Written member.2 chars := by
  induction pieces generalizing members with
  | nil =>
    cases h
    simp
  | cons piece pieces ih =>
    obtain ⟨hpiece, hrest⟩ := List.forall_mem_cons.1 hpieces
    rw [named?, List.mapM_cons] at h
    obtain ⟨member, hmember, h⟩ := Option.bind_eq_some_iff.1 h
    obtain ⟨others, hothers, h⟩ := Option.bind_eq_some_iff.1 h
    obtain ⟨name, -, rfl⟩ := Option.map_eq_some_iff.1 hmember
    cases h
    exact List.forall_mem_cons.2 ⟨hpiece, ih hothers hrest⟩

theorem FieldsAt.written {text : String} {fields : List (String × Form)}
    (h : FieldsAt text fields) : ∀ field ∈ fields, ∃ chars, Written field.2 chars := by
  obtain ⟨before, chars, rest, form, -, hwritten, -, hfields⟩ := h
  cases hwritten with
  | null | boolean b | number _ | text _ => cases hfields
  | list hitems =>
    cases hfields
    rintro ⟨name, form⟩ hfield
    exact written_of_mem_items hitems form (List.of_mem_zip hfield).2
  | object hmembers => exact written_of_named? hfields (written_of_mem_members hmembers)

end Written

/-- A schema stands at the front of the text, with these properties and these required names. What
is not written counts as empty. -/
def PropertiesAt (text : String) (members : List (String × Form)) (required : List String) : Prop :=
  ∃ fields, FieldsAt text fields ∧ (written Form.blank fields .properties).members? = some members
    ∧ (written Form.blank fields .required).texts? = some required

theorem PropertiesAt.written {text : String} {members : List (String × Form)}
    {required : List String} (h : PropertiesAt text members required) :
    ∀ member ∈ members, ∃ chars, Written member.2 chars := by
  obtain ⟨fields, hfields, hmembers, -⟩ := h
  unfold ValidatorGen.written at hmembers
  cases hlookup : fields.lookup Keyword.properties.name with
  | none =>
    rw [hlookup] at hmembers
    cases hmembers
    simp
  | some form =>
    rw [hlookup] at hmembers
    obtain ⟨before, after, hsplit, -⟩ := List.lookup_eq_some_iff.1 hlookup
    obtain ⟨chars, hwritten⟩ := hfields.written (Keyword.properties.name, form) (by simp [hsplit])
    cases hwritten with
    | null | boolean b | number _ | text _ | list _ => cases hmembers
    | object hpieces => exact written_of_named? hmembers (written_of_mem_members hpieces)

theorem Node.kind_ofRecord (r : Record) : (ofRecord r).kind = Kind.ofType (r.value .type) := by
  unfold ofRecord
  cases Kind.ofType (r.value .type) <;> rfl

theorem Node.ofRecord_of_kind {r : Record} (h : (ofRecord r).kind = .object) :
    ofRecord r = .object (r.value .properties) (r.value .required) := by
  rw [kind_ofRecord] at h
  rw [ofRecord, h]

section Object

variable {text : String} {node : Node}

/-- An object schema has the properties and the required names of its text. -/
theorem exists_object_of_parse {fields : List (String × Form)} (hfields : FieldsAt text fields)
    (hparse : Node.parse text = .ok node) (hkind : node.kind = .object) :
    ∃ properties required, node = .object properties required
      ∧ Shape.properties.ofForm? (written Form.blank fields .properties) = some properties
      ∧ (written Form.blank fields .required).texts? = some required := by
  obtain ⟨form, hform, hread⟩ := hfields.exists_form hparse
  obtain ⟨r, hnode, hr⟩ := Form.exists_record hform hread
  obtain rfl := Option.some.inj hnode
  refine ⟨_, _, Node.ofRecord_of_kind hkind, hr .properties, ?_⟩
  rw [← Form.names_eq_texts?]
  exact hr .required

theorem exists_propertiesAt (hparse : Node.parse text = .ok node) (hkind : node.kind = .object) :
    ∃ members required, PropertiesAt text members required := by
  obtain ⟨fields, hfields⟩ := exists_fieldsAt hparse
  obtain ⟨properties, required, -, hproperties, hrequired⟩ :=
    exists_object_of_parse hfields hparse hkind
  obtain ⟨members, hmembers⟩ := Form.exists_members_of_properties hproperties
  exact ⟨members, required, fields, hfields, hmembers, hrequired⟩

theorem PropertiesAt.exists_object {members : List (String × Form)} {required : List String}
    (h : PropertiesAt text members required) (hparse : Node.parse text = .ok node)
    (hkind : node.kind = .object) : ∃ values, List.Forall₂ (IsProperty Shape.ofForm?) members values
      ∧ node = .object (Entries.ofList values) required := by
  obtain ⟨fields, hfields, hmembers, hrequired⟩ := h
  obtain ⟨properties, names, rfl, hproperties, hnames⟩ :=
    exists_object_of_parse hfields hparse hkind
  obtain ⟨values, hvalues, rfl⟩ := Form.exists_properties hmembers hproperties
  obtain rfl := Option.some.inj (hnames.symm.trans hrequired)
  exact ⟨values, hvalues, rfl⟩

theorem exists_form_of_lookup {members : List (String × Form)} {values : List (String × Node)}
    (h : List.Forall₂ (IsProperty Shape.ofForm?) members values) {name : String} {value : Node}
    (hlookup : values.lookup name = some value) :
    ∃ form, members.lookup name = some form ∧ (name, form) ∈ members
      ∧ Shape.node.ofForm? form = some (some value) := by
  induction h with
  | nil => cases hlookup
  | @cons member other members values hmember _ ih =>
    obtain ⟨known, form⟩ := member
    obtain ⟨_, node⟩ := other
    obtain ⟨rfl, hform⟩ := hmember
    by_cases hname : name = known
    · subst hname
      simp only [List.lookup_cons, beq_self_eq_true, Option.some.injEq] at hlookup
      exact ⟨form, by simp, by simp, hlookup ▸ hform⟩
    · rw [List.lookup_cons, beq_eq_false_iff_ne.2 hname] at hlookup
      obtain ⟨found, hfound, hmem, hvalue⟩ := ih hlookup
      refine ⟨found, ?_, List.mem_cons_of_mem _ hmem, hvalue⟩
      rw [List.lookup_cons, beq_eq_false_iff_ne.2 hname]
      exact hfound

theorem eq_of_members {members : List (String × Form)} {values values' : List (String × Node)}
    (h : List.Forall₂ (IsProperty Shape.ofForm?) members values)
    (h' : List.Forall₂ (IsProperty Shape.ofForm?) members values') : values = values' := by
  refine List.right_unique_forall₂' ?_ h h'
  intro member value value' hvalue hvalue'
  have hnode := hvalue.2.symm.trans hvalue'.2
  exact Prod.ext (hvalue.1.symm.trans hvalue'.1) (by simpa using hnode)

theorem value_compileText_of_form {form : Form} {property : Node}
    (h : Shape.node.ofForm? form = some (some property)) {t : String}
    (ht : IsTextOf form t.toList) :
    (compileText t).value = .ok (property, property.validator) := by
  have hform : Node.ofForm maxLevels form = .ok property := by
    rw [Node.ofForm, toOption_eq_some_iff.1 h]
    rfl
  exact value_compileText_eq_ok_iff.2 ⟨Node.parse_of_isTextOf ht hform, rfl⟩

/-- Properties keep the order of the text: there is one entry for each name, where the name is first,
with what its last value is compiled to, and it is optional exactly if the name is not required. Of
the required names nothing counts but which properties are among them. -/
theorem Node.validator_of_properties (hparse : Node.parse text = .ok node)
    (hkind : node.kind = .object) : (∃ members required, PropertiesAt text members required)
      ∧ ∀ members required, PropertiesAt text members required →
        ∃ entries : List (String × Expression),
          node.validator = .ofBase (.unary "object"
            (.shape (entries.map fun entry => (entry.1, .expression entry.2))) none)
          ∧ entries.map (·.1) = (members.map (·.1)).eraseDups
          ∧ (∀ entry ∈ entries, ∃ form e, members.reverse.lookup entry.1 = some form
            ∧ (∃ t : String, IsTextOf form t.toList)
            ∧ (∀ t : String, IsTextOf form t.toList →
              ∃ property, (compileText t).value = .ok (property, e))
            ∧ entry.2 = if entry.1 ∈ required then e else e.push (.plain "optional"))
          ∧ ∀ text' node' required', Node.parse text' = .ok node' → node'.kind = .object →
            PropertiesAt text' members required' →
            (∀ name ∈ members.map (·.1), name ∈ required ↔ name ∈ required') →
              node'.validator = node.validator := by
  refine ⟨exists_propertiesAt hparse hkind, fun members required hat => ?_⟩
  obtain ⟨values, hvalues, rfl⟩ := hat.exists_object hparse hkind
  have hnames : members.map (·.1) = values.map (·.1) := by
    refine List.forall₂_eq_eq_eq ▸ ?_
    rw [List.forall₂_map_left_iff, List.forall₂_map_right_iff]
    exact hvalues.imp fun _ _ h => h.1
  refine ⟨(Entries.ofList values).map fun p =>
    (p.1, propertyValidator required p.1 p.2.validator), ?_, ?_, ?_, ?_⟩
  · rw [validator_object, shape, List.map_map]
    rfl
  · rw [List.map_map, hnames, ← Entries.names_ofList]
    rfl
  · rintro entry hentry
    obtain ⟨p, hp, rfl⟩ := List.mem_map.1 hentry
    have hlookup := Entries.lookup_of_mem (Entries.nodup_ofList values) hp
    rw [Entries.lookup_ofList] at hlookup
    obtain ⟨form, hform, hmem, hread⟩ :=
      exists_form_of_lookup (List.forall₂_reverse_iff.2 hvalues) hlookup
    obtain ⟨chars, hwritten⟩ := hat.written _ (List.mem_reverse.1 hmem)
    refine ⟨form, p.2.validator, hform, ⟨String.ofList chars, ?_⟩, fun t ht => ⟨p.2, ?_⟩, ?_⟩
    · rw [String.toList_ofList]
      exact hwritten.isTextOf
    · exact value_compileText_of_form hread ht
    · simp [propertyValidator]
  · intro text' node' required' hparse' hkind' hat' hsame
    obtain ⟨values', hvalues', rfl⟩ := hat'.exists_object hparse' hkind'
    obtain rfl := eq_of_members hvalues hvalues'
    have hentries : ∀ p ∈ Entries.ofList values, propertyValidator required' p.1 p.2.validator
        = propertyValidator required p.1 p.2.validator := by
      intro p hp
      have hname : p.1 ∈ (Entries.ofList values).map (·.1) := List.mem_map_of_mem hp
      rw [Entries.names_ofList, List.mem_eraseDups, ← hnames] at hname
      simp [propertyValidator, hsame p.1 hname]
    rw [validator_object, validator_object, shape, shape, List.map_congr_left fun p hp => by
      rw [hentries p hp]]

/-- The name of a property comes twice, once with an escape, and some required names are those of no
property or come twice. -/
theorem Node.validator_of_properties_repeated : ∃ text node members required,
    ∃ entries : List (String × Expression), Node.parse text = .ok node ∧ node.kind = .object
    ∧ text = "\x7b\"type\":\"object\",\"properties\":\x7b\"b\":\x7b\x7d,\"a\":\x7b\"type\":"
      ++ "\"null\"\x7d,\"\\u0062\":\x7b\"type\":\"boolean\"\x7d\x7d,"
      ++ "\"required\":[\"c\",\"b\",\"b\"]\x7d"
    ∧ PropertiesAt text members required ∧ entries.map (·.1) = (members.map (·.1)).eraseDups
    ∧ node.validator = .ofBase (.unary "object"
      (.shape (entries.map fun entry => (entry.1, .expression entry.2))) none)
    ∧ node.validator.render
      = "z.object(\x7b \"b\": z.boolean(), \"a\": z.null().optional() \x7d)" := by
  let text := "\x7b\"type\":\"object\",\"properties\":\x7b\"b\":\x7b\x7d,\"a\":\x7b\"type\":"
    ++ "\"null\"\x7d,\"\\u0062\":\x7b\"type\":\"boolean\"\x7d\x7d,"
    ++ "\"required\":[\"c\",\"b\",\"b\"]\x7d"
  have hresult : (Node.parse text).toOption.map (fun node => (node.kind, node.validator.render))
      = some (.object, "z.object(\x7b \"b\": z.boolean(), \"a\": z.null().optional() \x7d)") := by
    decide +kernel
  obtain ⟨node, hnode, hboth⟩ := Option.map_eq_some_iff.1 hresult
  obtain ⟨hkind, hcode⟩ := Prod.mk.inj hboth
  have hparse := toOption_eq_some_iff.1 hnode
  have hproperties := validator_of_properties hparse hkind
  obtain ⟨members, required, hat⟩ := hproperties.1
  obtain ⟨entries, hvalidator, hnames, -⟩ := hproperties.2 members required hat
  exact ⟨text, node, members, required, entries, hparse, hkind, rfl, hat, hnames, hvalidator, hcode⟩

end Object

end ValidatorGen
