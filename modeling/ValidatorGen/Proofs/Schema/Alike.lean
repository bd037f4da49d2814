import ValidatorGen.Proofs.Generate
import ValidatorGen.Proofs.Schema.Fields
import ValidatorGen.Proofs.Schema.Valued

/-! Schemas that say the same under the keywords of their kind. Main statement: they are the same
schema, whatever the order of their members and whatever they say under other keywords. -/
namespace ValidatorGen

open Json

/-- The keywords that mean something for schemas of this kind. -/
def Kind.keywords : Kind → List Keyword
  | .string => [.format, .pattern, .minLength, .maxLength, .contentEncoding, .contentMediaType,
      .contentSchema, .errorMessage]
  | .integer | .number =>
    [.minimum, .maximum, .exclusiveMinimum, .exclusiveMaximum, .multipleOf, .errorMessage]
  | .array => [.items, .minItems, .maxItems, .errorMessage]
  | .object => [.properties, .required]
  | .boolean | .null | .any => []

/-- Only the keywords of its kind reach a schema. -/
theorem Node.ofRecord_congr {r r' : Record} {kind : Kind}
    (hkind : Kind.ofType (r.value .type) = kind) (hkind' : Kind.ofType (r'.value .type) = kind)
    (h : ∀ k ∈ kind.keywords, r.value k = r'.value k) : ofRecord r = ofRecord r' := by
  unfold ofRecord
  rw [hkind, hkind']
  cases kind with
  | boolean | null | any => rfl
  | string | integer | number | array | object =>
    simp only [Kind.keywords, List.forall_mem_cons] at h
    simp only [ofRecord.bounds, h]

/-- Documents that schemas are read from: what their fields and members are, which of them have a
JSON value, and what they say as values of keywords. -/
structure Medium (D : Type) where
  fields? : D → Option (List (String × D))
  members? : D → Option (List (String × D))
  value? : D → Option Json
  read? : (s : Shape) → D → Option s.Value
  /-- What a keyword that is not written counts as. -/
  blank : Shape → D
  read?_of_value : ∀ {s : Shape} {d : D} {value : Json}, value? d = some value →
    read? s d = (s.ofJson value).toOption
  exists_record : ∀ {d : D} {fields : List (String × D)} {node? : Option Node},
    fields? d = some fields → read? .node d = some node? → ∃ r : Record,
      node? = some (.ofRecord r)
        ∧ ∀ k : Keyword, read? k.shape (written blank fields k) = some (r.value k)
  exists_properties : ∀ {d : D} {members : List (String × D)} {properties : List (String × Node)},
    members? d = some members → read? .properties d = some properties →
      ∃ values, List.Forall₂ (IsProperty read?) members values
        ∧ properties = Entries.ofList values
  messages_eq : ∀ {d : D} {members : List (String × D)} {m : Messages},
    members? d = some members → read? .messages d = some m →
      m = .ofList (Messages.textMembers (fun d => (value? d).bind Messages.entryText?) members)

namespace Medium

section Alike

variable {D : Type} (M : Medium D)

def text? (d : D) : Option String := (M.value? d).bind Messages.entryText?

def under (fields : List (String × D)) (k : Keyword) : D := written M.blank fields k

/-- The type among the fields is one of this kind. -/
def HasKind (fields : List (String × D)) (kind : Kind) : Prop :=
  ∃ type, M.value? (M.under fields .type) = some type
    ∧ Kind.ofType (Messages.entryText? type) = kind

/-- Documents that say the same as values of a keyword. Numbers count by what they are as bounds,
messages by the last text under each key, and schemas by the keywords of their kind. The order of
properties is kept. -/
inductive Alike : Shape → D → D → Prop
  | same {s : Shape} {d : D} : Alike s d d
  | value {s : Shape} {d d' : D} {value : Json} : M.value? d = some value →
    M.value? d' = some value → Alike s d d'
  | number {d d' : D} {n n' : Number} : M.value? d = some (.number n) →
    M.value? d' = some (.number n') → n.toBinary64 = n'.toBinary64 → Alike .number d d'
  | node {d d' : D} {fields fields' : List (String × D)} {kind : Kind} :
    M.fields? d = some fields → M.fields? d' = some fields' → M.HasKind fields kind →
    M.HasKind fields' kind →
    (∀ k ∈ kind.keywords, Alike k.shape (M.under fields k) (M.under fields' k)) → Alike .node d d'
  | properties {d d' : D} {members members' : List (String × D)} : M.members? d = some members →
    M.members? d' = some members' → members.map Prod.fst = members'.map Prod.fst →
    (∀ pair ∈ members.zip members', Alike .node pair.1.2 pair.2.2) → Alike .properties d d'
  | messages {d d' : D} {members members' : List (String × D)} : M.members? d = some members →
    M.members? d' = some members' → (∀ key message, Messages.LastText M.text? members key message
      ↔ Messages.LastText M.text? members' key message) → Alike .messages d d'

variable {M}

theorem HasKind.ofType_eq {fields : List (String × D)} {kind : Kind} (h : M.HasKind fields kind)
    {type : Option String} (hread : M.read? .text (M.under fields .type) = some type) :
    Kind.ofType type = kind := by
  obtain ⟨value, hvalue, rfl⟩ := h
  rw [M.read?_of_value hvalue] at hread
  cases value with
  | null | text s =>
    cases hread
    rfl
  | boolean b | number n | list items | object members => cases hread

theorem eq_of_zip {members members' : List (String × D)} {values values' : List (String × Node)}
    (hvalues : List.Forall₂ (IsProperty M.read?) members values)
    (hvalues' : List.Forall₂ (IsProperty M.read?) members' values')
    (hnames : members.map Prod.fst = members'.map Prod.fst)
    (h : ∀ pair ∈ members.zip members', ∀ a b, M.read? .node pair.1.2 = some a →
      M.read? .node pair.2.2 = some b → a = b) : values = values' := by
  induction hvalues generalizing members' values' with
  | nil =>
    cases hvalues' with
    | nil => rfl
    | cons _ _ => simp at hnames
  | cons hvalue _ ih =>
    cases hvalues' with
    | nil => simp at hnames
    | cons hvalue' hrest' =>
      simp only [List.map_cons, List.cons.injEq] at hnames
      simp only [List.zip_cons_cons, List.forall_mem_cons] at h
      have hname := hvalue.1.symm.trans (hnames.1.trans hvalue'.1)
      have hnode := Option.some.inj (h.1 _ _ hvalue.2 hvalue'.2)
      rw [Prod.ext hname hnode, ih hrest' hnames.2 h.2]

theorem Alike.eq {s : Shape} {d d' : D} (h : M.Alike s d d') {a b : s.Value}
    (hread : M.read? s d = some a) (hread' : M.read? s d' = some b) : a = b := by
  induction h with
  | same => exact Option.some.inj (hread.symm.trans hread')
  | value hvalue hvalue' =>
    rw [M.read?_of_value hvalue] at hread
    rw [M.read?_of_value hvalue'] at hread'
    exact Option.some.inj (hread.symm.trans hread')
  | number hvalue hvalue' hsame =>
    rw [M.read?_of_value hvalue] at hread
    rw [M.read?_of_value hvalue'] at hread'
    cases hread
    cases hread'
    exact congrArg some hsame
  | node hfields hfields' hkind hkind' _ ih =>
    obtain ⟨r, rfl, hr⟩ := M.exists_record hfields hread
    obtain ⟨r', rfl, hr'⟩ := M.exists_record hfields' hread'
    -- The other keywords may have any values: the kind leaves them out of the schema.
    refine congrArg some (Node.ofRecord_congr (hkind.ofType_eq (hr .type))
      (hkind'.ofType_eq (hr' .type)) fun k hk => ?_)
    exact ih k hk (hr k) (hr' k)
  | properties hmembers hmembers' hnames _ ih =>
    obtain ⟨values, hvalues, rfl⟩ := M.exists_properties hmembers hread
    obtain ⟨values', hvalues', rfl⟩ := M.exists_properties hmembers' hread'
    exact congrArg Entries.ofList (eq_of_zip hvalues hvalues' hnames fun pair hpair _ _ =>
      ih pair hpair)
  | messages hmembers hmembers' hlast =>
    rw [M.messages_eq hmembers hread, M.messages_eq hmembers' hread']
    refine Messages.ext_get fun key => Option.ext fun message => ?_
    rw [Messages.get_ofList_textMembers, Messages.get_ofList_textMembers]
    exact hlast key message

end Alike

end Medium

namespace Json

def members? : Json → Option (List (String × Json))
  | .object members => some members
  | _ => none

def fields? : Json → Option (List (String × Json))
  | .object members => some members
  | .list items => some ((Keyword.all.map Keyword.name).zip items)
  | _ => none

def blank : Shape → Json
  | .properties => .object []
  | .names => .list []
  | _ => .null

theorem recordOfMembers_of_fields? {value : Json} {fields : List (String × Json)}
    {node? : Option Node} (hfields : value.fields? = some fields)
    (h : Shape.node.ofJson value = .ok node?) :
    ∃ r, node? = some (.ofRecord r) ∧ recordOfMembers fields .empty = .ok r := by
  cases value with
  | null | boolean b | number n | text s => cases hfields
  | object members =>
    cases hfields
    rw [Shape.ofJson] at h
    cases hrecord : recordOfMembers fields .empty with
    | error e => simp [hrecord, bind, Except.bind] at h
    | ok r =>
      rw [hrecord] at h
      cases h
      exact ⟨r, rfl, rfl⟩
  | list items =>
    cases hfields
    rw [Shape.ofJson] at h
    cases hrecord : recordOfItems items Keyword.all .empty with
    | error e => simp [hrecord, bind, Except.bind] at h
    | ok r =>
      rw [hrecord] at h
      cases h
      have hitems : Succeeds (recordOfItems items Keyword.all .empty) := by
        rw [hrecord]
        exact succeeds_ok r
      have hlist := succeeds_recordOfItems.1 hitems
      refine ⟨r, rfl, ?_⟩
      rw [← recordOfItems_eq_recordOfMembers (by decide) hlist.1 hlist.2.1 fun _ _ => rfl, hrecord]

theorem exists_record {value : Json} {fields : List (String × Json)} {node? : Option Node}
    (hfields : value.fields? = some fields)
    (h : (Shape.node.ofJson value).toOption = some node?) : ∃ r : Record,
      node? = some (.ofRecord r)
        ∧ ∀ k : Keyword, (k.shape.ofJson (written blank fields k)).toOption = some (r.value k) := by
  obtain ⟨r, hnode, hrecord⟩ := recordOfMembers_of_fields? hfields (toOption_eq_some_iff.1 h)
  have hfold : fields.foldlM (Record.addField fun s value => (s.ofJson value).toOption) .empty
      = some r := by
    have hmembers := foldlM_addMember fields .empty
    rw [hrecord] at hmembers
    exact hmembers
  have hblank (s : Shape) : (s.ofJson (blank s)).toOption = some s.absent := by cases s <;> rfl
  exact ⟨r, hnode, Record.value_of_addFields hblank hfold⟩

theorem exists_properties {value : Json} {members : List (String × Json)}
    {properties : List (String × Node)} (hmembers : value.members? = some members)
    (h : (Shape.properties.ofJson value).toOption = some properties) :
    ∃ values, List.Forall₂ (IsProperty fun s value => (s.ofJson value).toOption) members values
      ∧ properties = Entries.ofList values := by
  cases value with
  | null | boolean b | number n | text s | list items => cases hmembers
  | object _ =>
    cases hmembers
    rw [Shape.ofJson, ← foldlM_addProperty] at h
    obtain ⟨values, hvalues, hproperties⟩ := exists_values_of_foldlM_put
      (fun value => (Node.ofJson value).toOption) h
    refine ⟨values, hvalues.imp fun member value hmember => ⟨hmember.1, ?_⟩, hproperties⟩
    exact toOption_eq_some_iff.2 (Shape.ofJson_node (toOption_eq_some_iff.1 hmember.2))

theorem messages_eq {value : Json} {members : List (String × Json)} {m : Messages}
    (hmembers : value.members? = some members)
    (h : (Shape.messages.ofJson value).toOption = some m) :
    m = .ofList (Messages.textMembers Messages.entryText? members) := by
  cases value with
  | null | boolean b | number n | text s | list items => cases hmembers
  | object _ =>
    cases hmembers
    cases h
    exact Messages.ofJson_object members

end Json

namespace Medium

/-- JSON values, with all members of their texts. -/
def json : Medium Json where
  fields? := Json.fields?
  members? := Json.members?
  value? := some
  read? s value := (s.ofJson value).toOption
  blank := Json.blank
  read?_of_value h := by
    cases h
    rfl
  exists_record := Json.exists_record
  exists_properties := Json.exists_properties
  messages_eq := Json.messages_eq

/-- The forms of texts. What is skipped needs no value. -/
def form : Medium Form where
  fields? := Form.fields?
  members? := Form.members?
  value? := (·.value? maxLevels)
  read? := Shape.ofForm?
  blank := Form.blank
  read?_of_value := Shape.toOption_ofForm _
  exists_record := Form.exists_record
  exists_properties := Form.exists_properties
  messages_eq hmembers hread := by
    simpa only [Form.bind_entryText?_value?] using Form.messages_eq hmembers hread

/-- The fields have a type of the same kind, and say the same under the keywords of this kind. -/
def Agree {D : Type} (M : Medium D) (fields fields' : List (String × D)) : Prop :=
  ∃ kind, M.HasKind fields kind ∧ M.HasKind fields' kind
    ∧ ∀ k ∈ kind.keywords, M.Alike k.shape (M.under fields k) (M.under fields' k)

theorem Agree.eq {D : Type} {M : Medium D} {fields fields' : List (String × D)}
    (h : M.Agree fields fields') {d d' : D} {node node' : Node} (hfields : M.fields? d = some fields)
    (hfields' : M.fields? d' = some fields') (hread : M.read? .node d = some (some node))
    (hread' : M.read? .node d' = some (some node')) : node = node' := by
  obtain ⟨kind, hkind, hkind', halike⟩ := h
  exact Option.some.inj ((Alike.node hfields hfields' hkind hkind' halike).eq hread hread')

end Medium

/-- Only the keywords of its kind make a schema. If two JSON values, or the fronts of two texts, are
schemas and agree on these keywords, then they are the same schema and are compiled to the same
expression, whatever the order of their members and whatever else they say. -/
theorem Node.eq_of_agree :
    (∀ {value value' : Json} {fields fields' : List (String × Json)} {node node' : Node},
      value.fields? = some fields → value'.fields? = some fields' →
      Medium.json.Agree fields fields' → ofJson value = .ok node → ofJson value' = .ok node' →
        node = node' ∧ node.validator = node'.validator)
      ∧ ∀ {text text' : String} {fields fields' : List (String × Form)} {node node' : Node},
        FieldsAt text fields → FieldsAt text' fields' → Medium.form.Agree fields fields' →
        parse text = .ok node → parse text' = .ok node' →
          node = node' ∧ node.validator = node'.validator
            ∧ ∀ o, (generate text o).value = (generate text' o).value := by
  constructor
  · intro value value' fields fields' node node' hfields hfields' hagree hread hread'
    have hnode := hagree.eq (M := .json) hfields hfields'
      (toOption_eq_some_iff.2 (Shape.ofJson_node hread))
      (toOption_eq_some_iff.2 (Shape.ofJson_node hread'))
    exact ⟨hnode, congrArg validator hnode⟩
  · intro text text' fields fields' node node' hfields hfields' hagree hparse hparse'
    obtain ⟨form, hform, hread⟩ := hfields.exists_form hparse
    obtain ⟨form', hform', hread'⟩ := hfields'.exists_form hparse'
    have hnode := hagree.eq (M := .form) hform hform' hread hread'
    refine ⟨hnode, congrArg validator hnode, fun o => ?_⟩
    rw [value_generate_of_parse hparse, value_generate_of_parse hparse', hnode]

/-- Another order, a keyword that is `null`, one that does not apply, and a member that is skipped. -/
theorem Node.eq_of_agree_reordered :
    (∃ node, ofJson (.object [("minimum", .null), ("minLength", .number (.natural 1)),
        ("type", .text "string")]) = .ok node
      ∧ ofJson (.object [("type", .text "string"), ("pattern", .null),
        ("minLength", .number (.natural 1))]) = .ok node)
    ∧ ∃ node, parse "\x7b\"skipped\":1e999,\"type\":\"string\"\x7d" = .ok node
      ∧ parse "\x7b\"type\":\"string\",\"pattern\":null\x7d" = .ok node := by
  constructor
  · let left : List (String × Json) := [("minimum", .null), ("minLength", .number (.natural 1)),
      ("type", .text "string")]
    let right : List (String × Json) := [("type", .text "string"), ("pattern", .null),
      ("minLength", .number (.natural 1))]
    have hagree : Medium.json.Agree left right := by
      refine ⟨.string, ⟨.text "string", rfl, Kind.ofType_name .string⟩,
        ⟨.text "string", rfl, Kind.ofType_name .string⟩, fun k hk => ?_⟩
      have hunder : Medium.json.under left k = Medium.json.under right k := by
        revert k
        simp [Kind.keywords, Medium.under, Medium.json, written, left, right, List.lookup_cons,
          Keyword.name, Keyword.shape, Json.blank]
      rw [hunder]
      exact .same
    obtain ⟨node, hnode⟩ : ∃ node, ofJson (.object left) = .ok node := ⟨_, rfl⟩
    obtain ⟨node', hnode'⟩ : ∃ node, ofJson (.object right) = .ok node := ⟨_, rfl⟩
    obtain ⟨rfl, -⟩ := Node.eq_of_agree.1 rfl rfl hagree hnode hnode'
    exact ⟨node, hnode, hnode'⟩
  · let huge : Numeral := ⟨false, ['1'], none, some (true, ['9', '9', '9'])⟩
    let left : List (String × Form) := [("skipped", .number huge), ("type", .ofText "string")]
    let right : List (String × Form) := [("type", .ofText "string"), ("pattern", .null)]
    have hhuge : huge.Written "1e999".toList :=
      .mk false (.inr ⟨⟨by decide, List.all_eq_true.1 rfl⟩, by decide⟩) .absent
        (.present 'e' (.inl rfl) .bare ⟨by decide, List.all_eq_true.1 rfl⟩)
    have htextLeft : IsTextOf (.ofMembers left) (compactObject [("skipped", "1e999".toList),
        ("type", Text.quoteChars "string".toList)]) :=
      isTextOf_compactObject (.cons ⟨rfl, (Written.number hhuge).isTextOf⟩
        (.cons ⟨rfl, isTextOf_quoteChars "string"⟩ .nil))
    have htextRight : IsTextOf (.ofMembers right) (compactObject [("type",
        Text.quoteChars "string".toList), ("pattern", "null".toList)]) :=
      isTextOf_compactObject (.cons ⟨rfl, isTextOf_quoteChars "string"⟩
        (.cons ⟨rfl, Written.null.isTextOf⟩ .nil))
    have hleft : FieldsAt "\x7b\"skipped\":1e999,\"type\":\"string\"\x7d" left :=
      .of_isTextOf htextLeft (named?_quoted left)
    have hright : FieldsAt "\x7b\"type\":\"string\",\"pattern\":null\x7d" right :=
      .of_isTextOf htextRight (named?_quoted right)
    have hagree : Medium.form.Agree left right := by
      have hkind : Medium.form.value? (.ofText "string") = some (.text "string") := rfl
      refine ⟨.string, ⟨_, hkind, Kind.ofType_name .string⟩, ⟨_, hkind, Kind.ofType_name .string⟩,
        fun k hk => ?_⟩
      have hunder : Medium.form.under left k = Medium.form.under right k := by
        revert k
        simp [Kind.keywords, Medium.under, Medium.form, written, left, right, List.lookup_cons,
          Keyword.name, Keyword.shape, Form.blank]
      rw [hunder]
      exact .same
    have hsome : (parse "\x7b\"skipped\":1e999,\"type\":\"string\"\x7d").toOption.isSome := by
      decide +kernel
    have hsome' : (parse "\x7b\"type\":\"string\",\"pattern\":null\x7d").toOption.isSome := by
      decide +kernel
    obtain ⟨node, hnode⟩ := Option.isSome_iff_exists.1 hsome
    obtain ⟨node', hnode'⟩ := Option.isSome_iff_exists.1 hsome'
    have hparse := toOption_eq_some_iff.1 hnode
    have hparse' := toOption_eq_some_iff.1 hnode'
    obtain ⟨rfl, -⟩ := Node.eq_of_agree.2 hleft hright hagree hparse hparse'
    exact ⟨node, hparse, hparse'⟩

end ValidatorGen
