import ValidatorGen.Proofs.Compile.Context
import ValidatorGen.Proofs.Compile.Log

/-! Places of schemas inside a schema. Main statement: the places that count are the holes of live
contexts, and they come in the order in which they start in the code. -/
namespace ValidatorGen

namespace Frame

theorem length_front_pos (f : Frame) : 0 < f.front.length := by
  cases f <;> simp [front]

theorem sizeOf_lt_fill (f : Frame) (node : Node) : sizeOf node < sizeOf (f.fill node) := by
  cases f with
  | items size =>
    simp only [fill, Node.array.sizeOf_spec, Option.some.sizeOf_spec]
    omega
  | property before name after required =>
    have hmem : (name, node) ∈ before ++ (name, node) :: after := by simp
    have hsize := List.sizeOf_lt_of_mem hmem
    simp only [fill, Node.object.sizeOf_spec, Prod.mk.sizeOf_spec] at hsize ⊢
    omega
  | content k =>
    simp only [fill, Node.string.sizeOf_spec, Option.some.sizeOf_spec]
    omega

end Frame

def propertyChildren (required : List String) (before : List (String × Node)) :
    List (String × Node) → List (Frame × Node)
  | [] => []
  | (name, node) :: rest =>
    (.property before name rest required, node)
      :: propertyChildren required (before ++ [(name, node)]) rest

theorem mem_propertyChildren {required : List String} {before properties : List (String × Node)}
    {f : Frame} {child : Node} : (f, child) ∈ propertyChildren required before properties
      ↔ ∃ between name after, properties = between ++ (name, child) :: after
        ∧ f = .property (before ++ between) name after required := by
  induction properties generalizing before with
  | nil => simp [propertyChildren]
  | cons p rest ih =>
    obtain ⟨name, node⟩ := p
    rw [propertyChildren, List.mem_cons, ih]
    constructor
    · rintro (heq | ⟨between, name', after, rfl, rfl⟩)
      · obtain ⟨rfl, rfl⟩ := Prod.mk.inj heq
        exact ⟨[], name, rest, rfl, by simp⟩
      · exact ⟨(name, node) :: between, name', after, rfl, by simp⟩
    · rintro ⟨between, name', after, hproperties, rfl⟩
      cases between with
      | nil =>
        obtain ⟨⟨rfl, rfl⟩, rfl⟩ : (name = name' ∧ node = child) ∧ rest = after := by
          simpa using hproperties
        simp
      | cons q between =>
        obtain ⟨rfl, rfl⟩ := List.cons.inj hproperties
        exact .inr ⟨between, name', after, rfl, by simp⟩

theorem propertyChildren_ordered (required : List String)
    (before properties : List (String × Node)) :
    (propertyChildren required before properties).Pairwise fun p q =>
      p.1.front ++ p.2.validator.chars <+: q.1.front := by
  induction properties generalizing before with
  | nil => exact .nil
  | cons p rest ih =>
    obtain ⟨name, node⟩ := p
    refine List.pairwise_cons.2 ⟨?_, ih _⟩
    rintro ⟨f, child⟩ hmem
    obtain ⟨between, name', after, -, rfl⟩ := mem_propertyChildren.1 hmem
    refine ⟨optionalChars required name ++ [',', ' ']
      ++ (shapeTexts (Node.shape required between)).flatMap (· ++ [',', ' '])
      ++ Text.quoteChars name'.toList ++ [':', ' '], ?_⟩
    simp [Frame.front, Node.shape_append, shapeTexts_append, shapeTexts_shape_cons]

namespace Node

/-- The schemas directly inside a schema that count, each with the way to it. -/
def children : Node → List (Frame × Node)
  | .string k content =>
    if k.hasJsonContent then (content.map fun node => (.content k, node)).toList else []
  | .array size items => (items.map fun node => (.items size, node)).toList
  | .object properties required => propertyChildren required [] properties
  | .integer _ | .number _ | .boolean | .null | .any => []

theorem mem_children_iff {node : Node} {f : Frame} {child : Node} :
    (f, child) ∈ node.children ↔ f.live ∧ f.fill child = node := by
  cases node with
  | string k content => cases content <;> cases f <;> grind [children, Frame.live, Frame.fill]
  | array size items => cases items <;> cases f <;> grind [children, Frame.live, Frame.fill]
  | object properties required =>
    cases f <;> grind [children, Frame.live, Frame.fill, mem_propertyChildren]
  | integer | number | boolean | null | any => cases f <;> grind [children, Frame.fill]

theorem children_ordered (node : Node) :
    node.children.Pairwise fun p q => p.1.front ++ p.2.validator.chars <+: q.1.front := by
  cases node with
  | string k content =>
    cases hjson : k.hasJsonContent <;> cases content <;> simp [children, hjson]
  | array size items => cases items <;> simp [children]
  | object properties required => exact propertyChildren_ordered required [] properties
  | integer | number | boolean | null | any => exact .nil

theorem notices_propertyParts (required : List String) (before properties : List (String × Node)) :
    (propertyParts required properties).flatMap (·.node.notices)
      = (propertyChildren required before properties).flatMap fun p =>
        p.2.liveParts.flatMap (·.node.notices) := by
  induction properties generalizing before with
  | nil => rfl
  | cons p rest ih => simp [propertyParts, propertyChildren, liveParts, ih (before ++ [p])]

/-- Items that may be anything are a part, but there is no notice about them. -/
theorem notices_liveParts (node : Node) : node.liveParts.flatMap (·.node.notices)
    = node.notices ++ node.children.flatMap fun p => p.2.liveParts.flatMap (·.node.notices) := by
  cases node with
  | string k content =>
    cases hjson : k.hasJsonContent <;> cases content <;>
      simp [liveParts, innerParts, contentParts, children, hjson]
  | array size items => cases items <;> simp [liveParts, innerParts, itemParts, children, notices]
  | object properties required =>
    simp [liveParts, innerParts, children, notices_propertyParts required [] properties]
  | integer | number | boolean | null | any => rfl

end Node

/-- A schema inside another one, with the way to it. -/
structure Place where
  context : Context
  node : Node

namespace Place

def under (f : Frame) (p : Place) : Place := ⟨f :: p.context, p.node⟩

def start (p : Place) : Nat := p.context.front.length

@[simp] theorem start_under (f : Frame) (p : Place) :
    (p.under f).start = f.front.length + p.start := List.length_append

end Place

namespace Node

theorem sizeOf_lt_of_mem_children {node : Node} {p : Frame × Node} (h : p ∈ node.children) :
    sizeOf p.2 < sizeOf node := by
  obtain ⟨-, rfl⟩ := mem_children_iff.1 h
  exact p.1.sizeOf_lt_fill p.2

/-- The places that count, a schema before those inside it. -/
def places (node : Node) : List Place :=
  ⟨[], node⟩ :: node.children.attach.flatMap fun p => p.1.2.places.map (Place.under p.1.1)
termination_by sizeOf node
decreasing_by exact sizeOf_lt_of_mem_children p.2

theorem places_eq (node : Node) : node.places
    = ⟨[], node⟩ :: node.children.flatMap fun p => p.2.places.map (Place.under p.1) := by
  have hattach := congrArg (List.flatMap fun p => p.2.places.map (Place.under p.1))
    node.children.attach_map_subtype_val
  rw [List.flatMap_map] at hattach
  rw [places, hattach]

/-- What is true of a schema if it is true of those directly inside it that count is true of every
schema. -/
theorem children_induction {P : Node → Prop} (h : ∀ node, (∀ p ∈ node.children, P p.2) → P node)
    (node : Node) : P node :=
  h node fun p _ => children_induction h p.2
termination_by sizeOf node
decreasing_by exact sizeOf_lt_of_mem_children ‹_›

theorem mem_places_nil {node inner : Node} : ⟨[], inner⟩ ∈ node.places ↔ inner = node := by
  rw [places_eq]
  simp [Place.under]

theorem mem_places_cons {node inner : Node} {f : Frame} {c : Context} :
    ⟨f :: c, inner⟩ ∈ node.places
      ↔ ∃ child, (f, child) ∈ node.children ∧ ⟨c, inner⟩ ∈ child.places := by
  rw [places_eq]
  simp only [List.mem_cons, Place.mk.injEq, reduceCtorEq, false_and, false_or, List.mem_flatMap,
    List.mem_map, Place.under, List.cons.injEq, Prod.exists]
  constructor
  · rintro ⟨g, child, hchild, p, hp, ⟨rfl, rfl⟩, rfl⟩
    exact ⟨child, hchild, hp⟩
  · rintro ⟨child, hchild, hp⟩
    exact ⟨f, child, hchild, _, hp, ⟨rfl, rfl⟩, rfl⟩

theorem mem_places_iff {node : Node} {p : Place} :
    p ∈ node.places ↔ (∀ f ∈ p.context, f.live) ∧ p.context.fill p.node = node := by
  obtain ⟨c, inner⟩ := p
  induction c generalizing node with
  | nil => simp [mem_places_nil, Context.fill]
  | cons f c ih =>
    simp only [mem_places_cons, mem_children_iff, ih, List.forall_mem_cons]
    constructor
    · rintro ⟨child, ⟨hf, rfl⟩, hc, rfl⟩
      exact ⟨⟨hf, hc⟩, rfl⟩
    · rintro ⟨⟨hf, hc⟩, rfl⟩
      exact ⟨Context.fill c inner, ⟨hf, rfl⟩, hc, rfl⟩

theorem front_prefix_of_mem_places {node : Node} {p : Place} (h : p ∈ node.places) :
    p.context.front ++ p.node.validator.chars <+: node.validator.chars := by
  obtain ⟨hlive, rfl⟩ := mem_places_iff.1 h
  exact ⟨p.context.back, (Context.chars_fill hlive p.node).symm⟩

theorem start_lt_of_mem_places {node : Node} {p : Place} (h : p ∈ node.places) :
    p.start < node.validator.chars.length := by
  have hlength := (front_prefix_of_mem_places h).length_le
  have hpos : 0 < p.node.validator.chars.length := by
    cases p.node.validator
    simp [Expression.chars, libraryName]
  rw [List.length_append] at hlength
  unfold Place.start
  omega

/-- Places are listed in the order in which they start in the code. -/
theorem places_ordered (node : Node) : node.places.Pairwise fun p q => p.start < q.start := by
  induction node using children_induction with
  | h node ih =>
    rw [places_eq, List.pairwise_cons, List.pairwise_flatMap]
    refine ⟨fun q hq => ?root, fun p hp => ?inside, ?across⟩
    case root =>
      obtain ⟨p, -, hmem⟩ := List.mem_flatMap.1 hq
      obtain ⟨r, -, rfl⟩ := List.mem_map.1 hmem
      have hpos := p.1.length_front_pos
      rw [Place.start_under]
      exact Nat.add_pos_left hpos _
    case inside =>
      rw [List.pairwise_map]
      exact (ih p hp).imp fun h => by simpa using h
    case across =>
      -- What is inside the first one starts before its code ends, the second one does so later.
      refine node.children_ordered.imp fun {p p'} h q hq q' hq' => ?_
      obtain ⟨r, hr, rfl⟩ := List.mem_map.1 hq
      obtain ⟨r', -, rfl⟩ := List.mem_map.1 hq'
      have hlength := h.length_le
      have hstart := start_lt_of_mem_places hr
      rw [List.length_append] at hlength
      rw [Place.start_under, Place.start_under]
      omega

theorem notices_places (node : Node) :
    node.places.flatMap (·.node.notices) = node.liveParts.flatMap (·.node.notices) := by
  induction node using children_induction with
  | h node ih =>
    rw [places_eq, notices_liveParts, List.flatMap_cons, List.flatMap_assoc]
    refine congrArg _ (List.flatMap_congr fun p hp => ?_)
    rw [← ih p hp, List.flatMap_map]
    rfl

end Node

end ValidatorGen
