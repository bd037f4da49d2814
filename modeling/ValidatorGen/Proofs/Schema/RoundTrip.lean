import ValidatorGen.Proofs.Schema.Grammar
import ValidatorGen.Proofs.Schema.ToJson

/-! Reading what is written. Main statement: the value that is written for a schema is read as this
schema, with every field in its place. -/
namespace ValidatorGen

/-- A keyword with this value is written so. Without a value it is not written at all. -/
def Shape.Shows (s : Shape) : Option Json → s.Value → Prop
  | none, value => value = s.absent
  | some json, value => s.ofJson json = .ok value

namespace Shape

theorem shows_text (value : Option String) : Shape.text.Shows (value.map .text) value := by
  cases value <;> rfl

theorem shows_count (value : Option UInt64) : Shape.count.Shows (value.map .ofCount) value := by
  cases value <;> rfl

theorem shows_number (value : Option Binary64) : Shape.number.Shows (value.map .ofBound) value := by
  cases value <;> rfl

theorem shows_names (names : List String) :
    Shape.names.Shows (some (.list (names.map .text))) names := by
  have hnames : namesOfItems (names.map .text) = .ok names := by
    induction names with
    | nil => rfl
    | cons name names ih =>
      rw [List.map_cons, namesOfItems, ih]
      rfl
  exact hnames

end Shape

namespace Messages

theorem insertSorted_of_lt {key : String} (message : String) {entries : List (String × String)}
    (h : ∀ entry ∈ entries, entry.1 < key) :
    insertSorted key message entries = entries ++ [(key, message)] := by
  induction entries with
  | nil => rfl
  | cons entry entries ih =>
    obtain ⟨hentry, hentries⟩ := List.forall_mem_cons.1 h
    have hnot : ¬key < entry.1 := String.lt_asymm hentry
    have hne : key ≠ entry.1 := fun heq => String.lt_irrefl _ (heq ▸ hentry)
    simp [insertSorted, hnot, hne, ih hentries]

theorem entries_foldl_addMember {entries : List (String × String)} {m : Messages}
    (h : (m.entries ++ entries).Pairwise (·.1 < ·.1)) :
    ((entries.map fun entry => (entry.1, Json.text entry.2)).foldl ofJson.addMember m).entries
      = m.entries ++ entries := by
  induction entries generalizing m with
  | nil => simp
  | cons entry entries ih =>
    have hlast : (m.insert entry.1 entry.2).entries = m.entries ++ [entry] := by
      refine insertSorted_of_lt entry.2 fun other hother => ?_
      exact (List.pairwise_append.1 h).2.2 other hother entry (by simp)
    have hrest := ih (m := m.insert entry.1 entry.2) (by simpa [hlast] using h)
    simpa [ofJson.addMember, hlast] using hrest

theorem eq_of_entries {m m' : Messages} (h : m.entries = m'.entries) : m = m' := by
  obtain ⟨entries, hsorted⟩ := m
  subst h
  rfl

theorem ofJson_of_toJson (m : Messages) : ofJson m.toJson = m :=
  eq_of_entries (entries_foldl_addMember (m := empty) m.sorted)

end Messages

theorem Shape.shows_messages (m : Messages) : Shape.messages.Shows (some m.toJson) m :=
  congrArg Except.ok m.ofJson_of_toJson

/-- A keyword, its value, and how the value is written. -/
structure Field where
  keyword : Keyword
  value : keyword.shape.Value
  shown : Option Json
  shows : keyword.shape.Shows shown value

/-- A record with the values of fields is read from what is written for them. -/
theorem recordOfMembers_of_fields {fields : List Field}
    (hnodup : (fields.map Field.keyword).Nodup) {r : Record}
    (hfresh : ∀ field ∈ fields, r.has field.keyword = false) :
    ∃ r', recordOfMembers (fields.filterMap fun field => field.shown.map (field.keyword.name, ·)) r
        = .ok r'
      ∧ (∀ field ∈ fields, r'.value field.keyword = field.value)
      ∧ ∀ k ∉ fields.map Field.keyword, r'.value k = r.value k := by
  induction fields generalizing r with
  | nil => exact ⟨r, rfl, by simp, fun _ _ => rfl⟩
  | cons field fields ih =>
    obtain ⟨k, value, shown, hshows⟩ := field
    obtain ⟨hk, hnodupRest⟩ := List.nodup_cons.1 hnodup
    obtain ⟨hhas, hfreshRest⟩ := List.forall_mem_cons.1 hfresh
    cases shown with
    | none =>
      -- What is not written is not set later either, and so reads as absent.
      obtain ⟨r', hread, hvalues, hothers⟩ := ih hnodupRest hfreshRest
      have hnone : r k = none := by simpa [Record.has] using hhas
      have hvalue : r'.value k = value := by
        rw [hothers k hk, Record.value, hnone]
        exact hshows.symm
      refine ⟨r', hread, List.forall_mem_cons.2 ⟨hvalue, hvalues⟩, fun other hother => ?_⟩
      exact hothers other (List.not_mem_of_not_mem_cons hother)
    | some json =>
      -- No keyword is there twice, so setting this one leaves those to come unset.
      have hfreshSet : ∀ other ∈ fields, (r.set k value).has other.keyword = false := by
        intro other hother
        have hmem : other.keyword ∈ fields.map Field.keyword := List.mem_map_of_mem hother
        have hne : k ≠ other.keyword := fun heq => hk (heq ▸ hmem)
        rw [r.has_set_of_ne value hne]
        exact hfreshRest other hother
      obtain ⟨r', hread, hvalues, hothers⟩ := ih hnodupRest hfreshSet
      have hvalue : r'.value k = value := by
        rw [hothers k hk]
        simp [Record.value]
      have hadd : r.add k (k.shape.ofJson json) = .ok (r.set k value) := by
        rw [Record.add, show k.shape.ofJson json = .ok value from hshows]
        rfl
      refine ⟨r', ?_, List.forall_mem_cons.2 ⟨hvalue, hvalues⟩, fun other hother => ?_⟩
      · have hhas' : r.has k = false := hhas
        simpa [recordOfMembers, Keyword.ofName?_name, hhas', hadd, bind, Except.bind] using hread
      · obtain ⟨hne, hrest⟩ := not_or.1 (mt List.mem_cons.2 hother)
        rw [hothers other hrest, Record.value, r.set_of_ne value (Ne.symm hne)]
        rfl

theorem Node.ofJson_of_fields {node : Node} (fields : List Field)
    (hnodup : (fields.map Field.keyword).Nodup)
    (h : ∀ r : Record, (∀ field ∈ fields, r.value field.keyword = field.value) →
      ofRecord r = node) :
    ofJson (.ofMembers (fields.map fun field => (field.keyword.name, field.shown))) = .ok node := by
  obtain ⟨r, hread, hvalues, -⟩ := recordOfMembers_of_fields (r := .empty) hnodup fun _ _ => rfl
  rw [Json.ofMembers, List.filterMap_map, ofJson_object]
  exact (congrArg _ hread).trans (congrArg Except.ok (h r hvalues))

theorem Shape.ofJson_node {value : Json} {node : Node} (h : Node.ofJson value = .ok node) :
    Shape.node.ofJson value = .ok (some node) := by
  unfold Node.ofJson at h
  cases hread : Shape.node.ofJson value with
  | error e => simp [hread, bind, Except.bind] at h
  | ok node? =>
    cases node? with
    | none => simp [hread, bind, Except.bind, requireNode] at h
    | some other =>
      simp only [hread, bind, Except.bind, requireNode, Except.ok.injEq] at h
      rw [h]

theorem Shape.shows_node {node : Node} (h : Node.ofJson node.toJson = .ok node) :
    Shape.node.Shows (some node.toJson) (some node) := Shape.ofJson_node h

namespace Node

/-- The keyword for the kind of a schema. -/
def typeField (k : Kind) : Field := ⟨.type, some k.name, some (.text k.name), rfl⟩

theorem ofJson_string {k : StringKeywords} {content : Option Node}
    (h : Shape.node.Shows (nestedToJson content) content) :
    ofJson (.ofMembers (k.members (nestedToJson content))) = .ok (.string k content) := by
  refine ofJson_of_fields [typeField .string, ⟨.format, _, _, Shape.shows_text _⟩,
    ⟨.pattern, _, _, Shape.shows_text _⟩, ⟨.minLength, _, _, Shape.shows_count _⟩,
    ⟨.maxLength, _, _, Shape.shows_count _⟩, ⟨.contentEncoding, _, _, Shape.shows_text _⟩,
    ⟨.contentMediaType, _, _, Shape.shows_text _⟩, ⟨.contentSchema, _, _, h⟩,
    ⟨.errorMessage, _, _, Shape.shows_messages _⟩] (by simp [typeField]) fun r hr => ?_
  simp only [List.forall_mem_cons, typeField] at hr
  simp only [ofRecord, hr, Kind.ofType_name]

def boundFields (k : Kind) (b : Bounds) : List Field :=
  [typeField k, ⟨.minimum, _, _, Shape.shows_number b.minimum⟩,
    ⟨.maximum, _, _, Shape.shows_number b.maximum⟩,
    ⟨.exclusiveMinimum, _, _, Shape.shows_number b.exclusiveMinimum⟩,
    ⟨.exclusiveMaximum, _, _, Shape.shows_number b.exclusiveMaximum⟩,
    ⟨.multipleOf, _, _, Shape.shows_number b.multipleOf⟩,
    ⟨.errorMessage, _, _, Shape.shows_messages b.messages⟩]

theorem bounds_of_fields {k : Kind} {b : Bounds} {r : Record}
    (h : ∀ field ∈ boundFields k b, r.value field.keyword = field.value) :
    r.value .type = some k.name ∧ ofRecord.bounds r = b := by
  simp only [boundFields, List.forall_mem_cons, typeField] at h
  exact ⟨h.1, by simp only [ofRecord.bounds, h]⟩

theorem nodup_boundFields (k : Kind) (b : Bounds) : ((boundFields k b).map Field.keyword).Nodup := by
  simp [boundFields, typeField]

theorem ofJson_integer (b : Bounds) :
    ofJson (.ofMembers (b.members "integer")) = .ok (.integer b) := by
  refine ofJson_of_fields (boundFields .integer b) (nodup_boundFields _ b) fun r hr => ?_
  obtain ⟨htype, hbounds⟩ := bounds_of_fields hr
  simp only [ofRecord, htype, hbounds, Kind.ofType_name]

theorem ofJson_number (b : Bounds) :
    ofJson (.ofMembers (b.members "number")) = .ok (.number b) := by
  refine ofJson_of_fields (boundFields .number b) (nodup_boundFields _ b) fun r hr => ?_
  obtain ⟨htype, hbounds⟩ := bounds_of_fields hr
  simp only [ofRecord, htype, hbounds, Kind.ofType_name]

theorem ofJson_array {s : ListSize} {items : Option Node}
    (h : Shape.node.Shows (nestedToJson items) items) :
    ofJson (.ofMembers (s.members (nestedToJson items))) = .ok (.array s items) := by
  refine ofJson_of_fields [typeField .array, ⟨.items, _, _, h⟩,
    ⟨.minItems, _, _, Shape.shows_count _⟩, ⟨.maxItems, _, _, Shape.shows_count _⟩,
    ⟨.errorMessage, _, _, Shape.shows_messages _⟩] (by simp [typeField]) fun r hr => ?_
  simp only [List.forall_mem_cons, typeField] at hr
  simp only [ofRecord, hr, Kind.ofType_name]

theorem ofJson_properties {properties : List (String × Node)} {required : List String}
    (h : Shape.properties.Shows (some (.object (propertiesToJson properties))) properties) :
    ofJson (.ofMembers [("type", some (.text "object")),
      ("properties", some (.object (propertiesToJson properties))),
      ("required", some (.list (required.map .text)))]) = .ok (.object properties required) := by
  refine ofJson_of_fields [typeField .object, ⟨.properties, _, _, h⟩,
    ⟨.required, _, _, Shape.shows_names _⟩] (by simp [typeField]) fun r hr => ?_
  simp only [List.forall_mem_cons, typeField] at hr
  simp only [ofRecord, hr, Kind.ofType_name]

mutual

theorem ofJson_toJson_of_distinct : (node : Node) → node.PropertiesDistinct →
    ofJson node.toJson = .ok node
  | .string _ content, h => ofJson_string (shows_nestedToJson content h)
  | .integer b, _ => ofJson_integer b
  | .number b, _ => ofJson_number b
  | .boolean, _ | .null, _ => rfl
  | .array _ items, h => ofJson_array (shows_nestedToJson items h)
  | .object properties _, h =>
    ofJson_properties (propertiesOfMembers_toJson properties h.2 [] h.1)
  | .any, _ => rfl

theorem shows_nestedToJson : (node : Option Node) → NestedDistinct node →
    Shape.node.Shows (nestedToJson node) node
  | none, _ => rfl
  | some node, h => Shape.shows_node (ofJson_toJson_of_distinct node h)

theorem propertiesOfMembers_toJson : (properties : List (String × Node)) →
    PropertyNodesDistinct properties → (before : List (String × Node)) →
    ((before ++ properties).map Prod.fst).Nodup →
    propertiesOfMembers (propertiesToJson properties) before = .ok (before ++ properties)
  | [], _, before, _ => by simp [propertiesToJson, propertiesOfMembers]
  | (name, node) :: rest, h, before, hnodup => by
    have hnode := ofJson_toJson_of_distinct node h.1
    have hnew : name ∉ before.map Prod.fst := by
      rw [List.map_append, List.nodup_append] at hnodup
      exact fun hmem => hnodup.2.2 name hmem name (by simp) rfl
    have hput : Entries.put name node before = before ++ [(name, node)] :=
      Entries.put_of_notMem node hnew
    have hrest := propertiesOfMembers_toJson rest h.2 (before ++ [(name, node)])
      (by simpa using hnodup)
    have hstep : propertiesOfMembers (propertiesToJson ((name, node) :: rest)) before
        = ofJson node.toJson >>= fun read =>
          propertiesOfMembers (propertiesToJson rest) (Entries.put name read before) := by
      rw [propertiesToJson, propertiesOfMembers, ofJson, bind_assoc]
    rw [hstep, hnode]
    simpa [bind, Except.bind, hput] using hrest

end

/-- Every schema can be written as a JSON value, and no field is lost or mistaken for another one:
the value repeats no name, and what is read from it is the schema, with its properties and its
required names in the same order. -/
theorem ofJson_toJson (node : Node) (h : node.PropertiesDistinct) :
    node.toJson.NamesDistinct ∧ ofJson node.toJson = .ok node :=
  ⟨namesDistinct_toJson node h, ofJson_toJson_of_distinct node h⟩

/-- A required name that is given twice is kept, and so is the order of the properties. -/
theorem ofJson_toJson_order :
    ∃ node, node = object [("b", .string { pattern := some "x", minLength := some 2 } (some .null)),
        ("a", .integer { minimum := some (.ofNat 1), messages := .ofList [("minimum", "low")] })]
        ["a", "a"]
      ∧ node.PropertiesDistinct ∧ node.toJson.NamesDistinct ∧ ofJson node.toJson = .ok node := by
  refine ⟨_, rfl, ?_, ofJson_toJson _ ?_⟩
  all_goals simp [PropertiesDistinct, PropertyNodesDistinct, NestedDistinct]

end Node
end ValidatorGen
