import ValidatorGen.Proofs.Json.Names
import ValidatorGen.Schema.Node

/-! Schemas written as JSON values: an object with the fields that are there, each under the name of
its keyword. Main statement: no object in such a value repeats a name. -/
namespace ValidatorGen

/-- An object with those of the members that have a value. -/
def Json.ofMembers (members : List (String × Option Json)) : Json :=
  .object (members.filterMap fun member => member.2.map (member.1, ·))

def Json.ofCount (n : UInt64) : Json := .number (.natural n)

def Json.ofBound (x : Binary64) : Json := .number (.float x)

def Messages.toJson (m : Messages) : Json :=
  .object (m.entries.map fun entry => (entry.1, .text entry.2))

def StringKeywords.members (k : StringKeywords) (content : Option Json) :
    List (String × Option Json) :=
  [("type", some (.text "string")), ("format", k.format.map .text),
    ("pattern", k.pattern.map .text), ("minLength", k.minLength.map .ofCount),
    ("maxLength", k.maxLength.map .ofCount), ("contentEncoding", k.contentEncoding.map .text),
    ("contentMediaType", k.contentMediaType.map .text), ("contentSchema", content),
    ("errorMessage", some k.messages.toJson)]

def Bounds.members (type : String) (b : Bounds) : List (String × Option Json) :=
  [("type", some (.text type)), ("minimum", b.minimum.map .ofBound),
    ("maximum", b.maximum.map .ofBound), ("exclusiveMinimum", b.exclusiveMinimum.map .ofBound),
    ("exclusiveMaximum", b.exclusiveMaximum.map .ofBound),
    ("multipleOf", b.multipleOf.map .ofBound), ("errorMessage", some b.messages.toJson)]

def ListSize.members (s : ListSize) (items : Option Json) : List (String × Option Json) :=
  [("type", some (.text "array")), ("items", items), ("minItems", s.minItems.map .ofCount),
    ("maxItems", s.maxItems.map .ofCount), ("errorMessage", some s.messages.toJson)]

mutual

/-- A schema as a value: its kind, and each field that is there under the name of its keyword. -/
def Node.toJson : Node → Json
  | .string k content => .ofMembers (k.members (nestedToJson content))
  | .integer b => .ofMembers (b.members "integer")
  | .number b => .ofMembers (b.members "number")
  | .boolean => .ofMembers [("type", some (.text "boolean"))]
  | .null => .ofMembers [("type", some (.text "null"))]
  | .array s items => .ofMembers (s.members (nestedToJson items))
  | .object properties required =>
    .ofMembers [("type", some (.text "object")),
      ("properties", some (.object (propertiesToJson properties))),
      ("required", some (.list (required.map .text)))]
  | .any => .ofMembers []

def nestedToJson : Option Node → Option Json
  | none => none
  | some node => some node.toJson

def propertiesToJson : List (String × Node) → List (String × Json)
  | [] => []
  | (name, node) :: rest => (name, node.toJson) :: propertiesToJson rest

end

mutual

/-- No object in a schema repeats the name of a property. -/
def Node.PropertiesDistinct : Node → Prop
  | .string _ content => NestedDistinct content
  | .array _ items => NestedDistinct items
  | .object properties _ => (properties.map Prod.fst).Nodup ∧ PropertyNodesDistinct properties
  | .integer _ | .number _ | .boolean | .null | .any => True

def NestedDistinct : Option Node → Prop
  | none => True
  | some node => node.PropertiesDistinct

def PropertyNodesDistinct : List (String × Node) → Prop
  | [] => True
  | (_, node) :: rest => node.PropertiesDistinct ∧ PropertyNodesDistinct rest

end

theorem Json.namesDistinct_ofMembers {members : List (String × Option Json)}
    (hnodup : (members.map Prod.fst).Nodup)
    (h : ∀ member ∈ members, ∀ value ∈ member.2, value.NamesDistinct) :
    (ofMembers members).NamesDistinct := by
  constructor
  · have hsublist : ((members.filterMap fun member => member.2.map (member.1, ·)).map
        Prod.fst).Sublist (members.map Prod.fst) := by
      clear hnodup h
      induction members with
      | nil => exact .slnil
      | cons member members ih =>
        obtain ⟨name, _ | value⟩ := member
        · exact ih.cons name
        · exact ih.cons_cons name
    exact hnodup.sublist hsublist
  · refine membersDistinct_iff.2 fun member hmember => ?_
    obtain ⟨shown, hshown, hvalue⟩ := List.mem_filterMap.1 hmember
    obtain ⟨value, hsome, rfl⟩ := Option.map_eq_some_iff.1 hvalue
    exact h shown hshown value hsome

theorem Messages.namesDistinct_toJson (m : Messages) : m.toJson.NamesDistinct := by
  have hnodup : (m.entries.map Prod.fst).Nodup :=
    List.pairwise_map.2 (m.sorted.imp fun hlt => String.ne_of_lt hlt)
  refine ⟨by rw [List.map_map]; exact hnodup, Json.membersDistinct_iff.2 fun member hmember => ?_⟩
  obtain ⟨entry, -, rfl⟩ := List.mem_map.1 hmember
  trivial

theorem namesDistinct_of_mem_map {α : Type} (write : α → Json) (h : ∀ a, (write a).NamesDistinct)
    (field : Option α) : ∀ value ∈ field.map write, value.NamesDistinct := by
  intro value hvalue
  obtain ⟨a, -, rfl⟩ := Option.map_eq_some_iff.1 hvalue
  exact h a

theorem namesDistinct_count (n : Option UInt64) :
    ∀ value ∈ n.map Json.ofCount, value.NamesDistinct :=
  namesDistinct_of_mem_map Json.ofCount (fun _ => trivial) n

namespace Node

theorem namesDistinct_bounds (type : String) (b : Bounds) :
    (Json.ofMembers (b.members type)).NamesDistinct := by
  have hbound (x : Option Binary64) : ∀ value ∈ x.map Json.ofBound, value.NamesDistinct :=
    namesDistinct_of_mem_map Json.ofBound (fun _ => trivial) x
  refine Json.namesDistinct_ofMembers (by simp [Bounds.members]) ?_
  simp only [Bounds.members, List.forall_mem_cons]
  exact ⟨by simp [Json.NamesDistinct], hbound _, hbound _, hbound _, hbound _, hbound _,
    by simp [b.messages.namesDistinct_toJson], by simp⟩

theorem namesDistinct_type (type : String) :
    (Json.ofMembers [("type", some (.text type))]).NamesDistinct :=
  Json.namesDistinct_ofMembers (by simp) (by simp [Json.NamesDistinct])

theorem fst_propertiesToJson (properties : List (String × Node)) :
    (propertiesToJson properties).map Prod.fst = properties.map Prod.fst := by
  induction properties with
  | nil => rfl
  | cons property rest ih => simp [propertiesToJson, ih]

mutual

theorem namesDistinct_toJson : (node : Node) → node.PropertiesDistinct → node.toJson.NamesDistinct
  | .string k content, h => by
    have htext (s : Option String) : ∀ value ∈ s.map Json.text, value.NamesDistinct :=
      namesDistinct_of_mem_map Json.text (fun _ => trivial) s
    refine Json.namesDistinct_ofMembers (by simp [StringKeywords.members]) ?_
    simp only [StringKeywords.members, List.forall_mem_cons]
    exact ⟨by simp [Json.NamesDistinct], htext _, htext _, namesDistinct_count _,
      namesDistinct_count _, htext _, htext _, namesDistinct_nestedToJson content h,
      by simp [k.messages.namesDistinct_toJson], by simp⟩
  | .integer b, _ => namesDistinct_bounds "integer" b
  | .number b, _ => namesDistinct_bounds "number" b
  | .boolean, _ => namesDistinct_type "boolean"
  | .null, _ => namesDistinct_type "null"
  | .array s items, h => by
    refine Json.namesDistinct_ofMembers (by simp [ListSize.members]) ?_
    simp only [ListSize.members, List.forall_mem_cons]
    exact ⟨by simp [Json.NamesDistinct], namesDistinct_nestedToJson items h, namesDistinct_count _,
      namesDistinct_count _, by simp [s.messages.namesDistinct_toJson], by simp⟩
  | .object properties required, h => by
    have hproperties := membersDistinct_propertiesToJson properties h.2
    have hnodup : ((propertiesToJson properties).map Prod.fst).Nodup :=
      fst_propertiesToJson properties ▸ h.1
    have hrequired : Json.ItemsDistinct (required.map .text) :=
      Json.itemsDistinct_iff.2 (by simp [Json.NamesDistinct])
    exact Json.namesDistinct_ofMembers (by simp)
      (by simp [Json.NamesDistinct, hnodup, hproperties, hrequired])
  | .any, _ => ⟨.nil, trivial⟩

theorem namesDistinct_nestedToJson : (node : Option Node) → NestedDistinct node →
    ∀ value ∈ nestedToJson node, value.NamesDistinct
  | none, _ => by simp [nestedToJson]
  | some node, h => by simpa [nestedToJson] using namesDistinct_toJson node h

theorem membersDistinct_propertiesToJson : (properties : List (String × Node)) →
    PropertyNodesDistinct properties → Json.MembersDistinct (propertiesToJson properties)
  | [], _ => trivial
  | (_, node) :: rest, h =>
    ⟨namesDistinct_toJson node h.1, membersDistinct_propertiesToJson rest h.2⟩

end

end Node
end ValidatorGen
