import ValidatorGen.Proofs.Compile.Equivalence
import ValidatorGen.Proofs.Compile.Properties
import ValidatorGen.Proofs.Expression.Sorted
import ValidatorGen.Proofs.Schema.ToJson

/-! Validators of equal schemas. Main statement: the validators of equal schemas are equal once the
entries of their shapes are sorted by name, and their code has the same length; if the properties
are listed in the same order, the code is the same. -/
namespace ValidatorGen

/-- Induction over schemas: what is true of a node if it is true of the nodes inside it is true of
every node. -/
@[elab_as_elim]
theorem Node.induction {P : Node → Prop}
    (string : ∀ k content, (∀ node ∈ content, P node) → P (.string k content))
    (integer : ∀ b, P (.integer b)) (number : ∀ b, P (.number b))
    (boolean : P .boolean) (null : P .null)
    (array : ∀ size items, (∀ node ∈ items, P node) → P (.array size items))
    (object : ∀ properties required, (∀ p ∈ properties, P p.2) → P (.object properties required))
    (any : P .any) (node : Node) : P node := by
  have hnone : ∀ node ∈ (none : Option Node), P node := by simp
  have hsome (a : Node) (h : P a) : ∀ node ∈ some a, P node := by simpa using h
  have hnil : ∀ p ∈ ([] : List (String × Node)), P p.2 := by simp
  have hcons (p : String × Node) (rest : List (String × Node)) (h : P p.2)
      (hrest : ∀ q ∈ rest, P q.2) : ∀ q ∈ p :: rest, P q.2 := List.forall_mem_cons.2 ⟨h, hrest⟩
  exact @Node.rec P (fun nested => ∀ node ∈ nested, P node)
    (fun properties => ∀ p ∈ properties, P p.2) (fun p => P p.2) string integer number boolean null
    array object any hnone hsome hnil hcons (fun _ _ h => h) node

mutual

/-- Corresponding objects of two schemas list their properties in the same order. -/
def Node.InOrder : Node → Node → Prop
  | .string _ content, .string _ content' => NestedInOrder content content'
  | .array _ items, .array _ items' => NestedInOrder items items'
  | .object properties _, .object properties' _ => PropertiesInOrder properties properties'
  | _, _ => True
termination_by structural a => a

def NestedInOrder : Option Node → Option Node → Prop
  | some a, some b => a.InOrder b
  | _, _ => True
termination_by structural a => a

def PropertiesInOrder : List (String × Node) → List (String × Node) → Prop
  | [], [] => True
  | (name, a) :: rest, (name', b) :: rest' =>
    name = name' ∧ a.InOrder b ∧ PropertiesInOrder rest rest'
  | _, _ => False
termination_by structural a => a

end

mutual

/-- The schema with the properties of every object in it sorted by name. -/
def Node.sorted : Node → Node
  | .string k content => .string k (sortedNested content)
  | .array size items => .array size (sortedNested items)
  | .object properties required => .object (sortByName (sortedProperties properties)) required
  | .integer b => .integer b
  | .number b => .number b
  | .boolean => .boolean
  | .null => .null
  | .any => .any

def sortedNested : Option Node → Option Node
  | none => none
  | some node => some node.sorted

def sortedProperties : List (String × Node) → List (String × Node)
  | [] => []
  | (name, node) :: rest => (name, node.sorted) :: sortedProperties rest

end

theorem sameNested_cases {nested nested' : Option Node} (h : sameNested nested nested' = true) :
    (nested = none ∧ nested' = none)
      ∨ ∃ a b, nested = some a ∧ nested' = some b ∧ a.same b = true := by
  cases nested <;> cases nested' <;> simp_all [sameNested]

theorem sortedProperties_eq_map (properties : List (String × Node)) :
    sortedProperties properties = properties.map fun p => (p.1, p.2.sorted) := by
  induction properties with
  | nil => rfl
  | cons p rest ih => rw [sortedProperties, ih, List.map_cons]

theorem names_sortedProperties (properties : List (String × Node)) :
    (sortedProperties properties).map Prod.fst = properties.map Prod.fst := by
  rw [sortedProperties_eq_map, List.map_map]
  rfl

section Lists

variable {properties properties' : List (String × Node)}

theorem propertiesInOrder_iff : PropertiesInOrder properties properties'
    ↔ List.Forall₂ (fun p q => p.1 = q.1 ∧ p.2.InOrder q.2) properties properties' := by
  induction properties generalizing properties' with
  | nil => cases properties' <;> simp [PropertiesInOrder]
  | cons p rest ih => cases properties' <;> simp [PropertiesInOrder, ih, and_assoc]

theorem propertiesDistinct_iff :
    PropertyNodesDistinct properties ↔ ∀ p ∈ properties, p.2.PropertiesDistinct := by
  induction properties with
  | nil => simp [PropertyNodesDistinct]
  | cons p rest ih => simp [PropertyNodesDistinct, ih]

theorem sameProperties_iff {others : List (String × Node)} : sameProperties properties others = true
    ↔ ∀ p ∈ properties, ∃ other, others.lookup p.1 = some other ∧ p.2.same other = true := by
  induction properties with
  | nil => simp [sameProperties]
  | cons p rest ih =>
    rw [sameProperties, Bool.and_eq_true, ih, List.forall_mem_cons]
    refine and_congr_left' ?_
    cases others.lookup p.1 <;> simp

theorem forall₂_of_names (h : properties.map Prod.fst = properties'.map Prod.fst) :
    List.Forall₂ (fun p q => p.1 = q.1) properties properties' := by
  have hnames : List.Forall₂ (· = ·) (properties.map Prod.fst) (properties'.map Prod.fst) :=
    List.forall₂_eq_eq_eq ▸ h
  simpa [List.forall₂_map_left_iff, List.forall₂_map_right_iff] using hnames

theorem propertiesEquivalent_of {required : List String}
    {R : String × Node → String × Node → Prop} (hlists : List.Forall₂ R properties properties')
    (h : ∀ p ∈ properties, ∀ q ∈ properties', R p q → p.1 = q.1 ∧ p.2.Equivalent q.2) :
    PropertiesEquivalent required required properties properties' := by
  induction hlists with
  | nil => trivial
  | @cons p q rest rest' hpq _ ih =>
    obtain ⟨hname, hnodes⟩ := h p List.mem_cons_self q List.mem_cons_self hpq
    have hrest := ih fun p' hp' q' hq' =>
      h p' (List.mem_cons_of_mem _ hp') q' (List.mem_cons_of_mem _ hq')
    exact ⟨hname, by rw [hname], hnodes, hrest⟩

theorem same_object {required required' : List String} (hdistinct : (properties.map Prod.fst).Nodup)
    (h : (Node.object properties required).same (.object properties' required') = true) :
    required = required' ∧ (properties.map Prod.fst).Perm (properties'.map Prod.fst)
      ∧ ∀ p ∈ properties, ∀ q ∈ properties', p.1 = q.1 → p.2.same q.2 = true := by
  simp only [Node.same, Bool.and_eq_true, beq_iff_eq] at h
  obtain ⟨⟨hlength, hfound⟩, hrequired⟩ := h
  rw [sameProperties_iff] at hfound
  have hnames : (properties.map Prod.fst).Perm (properties'.map Prod.fst) := by
    have hsubset : properties.map Prod.fst ⊆ properties'.map Prod.fst := by
      intro name hname
      obtain ⟨p, hp, rfl⟩ := List.mem_map.1 hname
      obtain ⟨other, hother, -⟩ := hfound p hp
      obtain ⟨before, after, hsplit, -⟩ := List.lookup_eq_some_iff.1 hother
      simp [hsplit]
    refine (hdistinct.subperm hsubset).perm_of_length_le ?_
    rw [List.length_map, List.length_map, hlength]
  refine ⟨hrequired, hnames, fun p hp q hq hpq => ?_⟩
  obtain ⟨other, hother, hsame⟩ := hfound p hp
  have hq : properties'.lookup q.1 = some q.2 :=
    Entries.lookup_of_mem (hnames.nodup_iff.1 hdistinct) hq
  rw [hpq, hq] at hother
  cases hother
  exact hsame

end Lists

section Keywords

theorem keywordAgrees_refl {α : Type} {related : α → α → Prop} (hrefl : ∀ x, related x x)
    (m : Messages) (k : Keyword) (value : Option α) : KeywordAgrees related m m k value value := by
  cases value with
  | none => trivial
  | some x => exact ⟨hrefl x, rfl⟩

theorem StringKeywords.equivalent_refl (k : StringKeywords) : k.Equivalent k :=
  ⟨rfl, rfl, keywordAgrees_refl (fun _ => rfl) _ _ _, keywordAgrees_refl (fun _ => rfl) _ _ _,
    keywordAgrees_refl (fun _ => rfl) _ _ _⟩

theorem ListSize.equivalent_refl (s : ListSize) : s.Equivalent s :=
  ⟨keywordAgrees_refl (fun _ => rfl) _ _ _, keywordAgrees_refl (fun _ => rfl) _ _ _⟩

theorem Bounds.equivalent_of_same {a b : Bounds} (h : a.same b = true) : a.Equivalent b := by
  simp only [same, Bool.and_eq_true, beq_iff_eq] at h
  obtain ⟨⟨⟨⟨⟨hmin, hmax⟩, hexclusiveMin⟩, hexclusiveMax⟩, hmultiple⟩, hmessages⟩ := h
  have hkeyword {k : Keyword} {x y : Option Binary64} (hxy : sameBound x y = true) :
      Equivalent.agree a b k x y := by
    unfold Equivalent.agree
    cases x <;> cases y <;> simp_all [sameBound, KeywordAgrees, SameValue]
  exact ⟨hkeyword hmin, hkeyword hexclusiveMin, hkeyword hmax, hkeyword hexclusiveMax,
    hkeyword hmultiple⟩

end Keywords

namespace Node

/-- Equal schemas are equivalent once their properties are sorted, and as they are if they list them
in the same order. -/
theorem equivalent_of_same (a : Node) : a.PropertiesDistinct → ∀ b, a.same b = true →
    a.sorted.Equivalent b.sorted ∧ (a.InOrder b → a.Equivalent b) := by
  induction a using Node.induction with
  | string k content ih =>
    intro hdistinct b h
    cases b with
    | string k' content' =>
      simp only [same, Bool.and_eq_true, beq_iff_eq] at h
      obtain ⟨rfl, hcontent⟩ := h
      have hkeywords := k.equivalent_refl
      rcases sameNested_cases hcontent with ⟨rfl, rfl⟩ | ⟨n, n', rfl, rfl, hn⟩
      · exact ⟨⟨hkeywords, fun _ => ⟨rfl, trivial⟩⟩, fun _ => ⟨hkeywords, fun _ => ⟨rfl, trivial⟩⟩⟩
      · obtain ⟨hsorted, hordered⟩ := ih n rfl hdistinct n' hn
        exact ⟨⟨hkeywords, fun _ => ⟨rfl, hsorted, rfl⟩⟩,
          fun horder => ⟨hkeywords, fun _ => ⟨rfl, hordered horder, rfl⟩⟩⟩
    | _ => cases h
  | array size items ih =>
    intro hdistinct b h
    cases b with
    | array size' items' =>
      simp only [same, Bool.and_eq_true, beq_iff_eq] at h
      obtain ⟨rfl, hitems⟩ := h
      have hsize := size.equivalent_refl
      rcases sameNested_cases hitems with ⟨rfl, rfl⟩ | ⟨n, n', rfl, rfl, hn⟩
      · exact ⟨⟨hsize, rfl⟩, fun _ => ⟨hsize, rfl⟩⟩
      · obtain ⟨hsorted, hordered⟩ := ih n rfl hdistinct n' hn
        exact ⟨⟨hsize, hsorted⟩, fun horder => ⟨hsize, hordered horder⟩⟩
    | _ => cases h
  | object properties required ih =>
    intro hdistinct b h
    cases b with
    | object properties' required' =>
      obtain ⟨rfl, hnames, hsame⟩ := same_object hdistinct.1 h
      have hnodes := propertiesDistinct_iff.1 hdistinct.2
      constructor
      · -- The names are the same up to their order, so sorting pairs off equal names.
        rw [← names_sortedProperties, ← names_sortedProperties properties'] at hnames
        refine propertiesEquivalent_of (forall₂_of_names (names_sortByName_eq hnames)) ?_
        intro p hp q hq hpq
        obtain ⟨p, hmem, rfl⟩ := List.mem_map.1 (sortedProperties_eq_map _ ▸ mem_sortByName.1 hp)
        obtain ⟨q, hmem', rfl⟩ := List.mem_map.1 (sortedProperties_eq_map _ ▸ mem_sortByName.1 hq)
        exact ⟨hpq, (ih p hmem (hnodes p hmem) q.2 (hsame p hmem q hmem' hpq)).1⟩
      · intro horder
        refine propertiesEquivalent_of (propertiesInOrder_iff.1 horder) ?_
        rintro p hp q hq ⟨hpq, hin⟩
        exact ⟨hpq, (ih p hp (hnodes p hp) q.2 (hsame p hp q hq hpq)).2 hin⟩
    | _ => cases h
  | integer a =>
    intro _ b h
    cases b with
    | integer b => exact ⟨Bounds.equivalent_of_same h, fun _ => Bounds.equivalent_of_same h⟩
    | _ => cases h
  | number a =>
    intro _ b h
    cases b with
    | number b => exact ⟨Bounds.equivalent_of_same h, fun _ => Bounds.equivalent_of_same h⟩
    | _ => cases h
  | boolean | null | any =>
    intro _ b h
    cases b with
    | boolean | null | any => first | exact ⟨trivial, fun _ => trivial⟩ | cases h
    | _ => cases h

end Node

section Validators

theorem sortedCalls_filled (slots : List (Option Call)) :
    sortedCalls (filled slots) = filled (slots.map (Option.map Call.sorted)) := by
  rw [sortedCalls_eq_map]
  induction slots with
  | nil => rfl
  | cons slot slots ih => cases slot <;> simp [ih]

theorem sorted_slot {α : Type} {f : α → Call} (hf : ∀ x, (f x).sorted = f x) (value : Option α) :
    (value.map f).map Call.sorted = value.map f := by
  cases value with
  | none => rfl
  | some x => exact congrArg some (hf x)

theorem FormatSlot.sorted_call? (slot : FormatSlot) : slot.call?.map Call.sorted = slot.call? := by
  cases slot with
  | none | base64 message => rfl
  | format f message => cases f <;> cases message <;> rfl

theorem StringKeywords.sortedCalls_slots (k : StringKeywords) (content : Option Expression) :
    sortedCalls (filled (k.slots content)) = filled (k.slots (content.map Expression.sorted)) := by
  have htransform : k.transformCall?.map Call.sorted = k.transformCall? := by
    unfold transformCall?
    split <;> rfl
  have hpipe : (k.pipeCall? content).map Call.sorted
      = k.pipeCall? (content.map Expression.sorted) := by
    unfold pipeCall?
    cases content <;> split <;> rfl
  have hpattern : k.patternCall?.map Call.sorted = k.patternCall? := sorted_slot (fun _ => rfl) _
  have hmin : k.minLengthCall?.map Call.sorted = k.minLengthCall? := sorted_slot (fun _ => rfl) _
  have hmax : k.maxLengthCall?.map Call.sorted = k.maxLengthCall? := sorted_slot (fun _ => rfl) _
  simp only [sortedCalls_filled, slots, List.map_cons, List.map_nil, k.formatSlot.sorted_call?,
    htransform, hpipe, hpattern, hmin, hmax]

theorem Bounds.sortedCalls_slots (b : Bounds) : sortedCalls (filled b.slots) = filled b.slots := by
  have hslot (method : String) (k : Keyword) (value : Option Binary64) :
      (slots.slot b method k value).map Call.sorted = slots.slot b method k value :=
    sorted_slot (fun _ => rfl) value
  simp only [sortedCalls_filled, slots, List.map_cons, List.map_nil, hslot]

theorem ListSize.sortedCalls_slots (s : ListSize) :
    sortedCalls (filled s.slots) = filled s.slots := by
  have hslot (method : String) (k : Keyword) (value : Option UInt64) :
      (slots.slot s method k value).map Call.sorted = slots.slot s method k value :=
    sorted_slot (fun _ => rfl) value
  simp only [sortedCalls_filled, slots, List.map_cons, List.map_nil, hslot]

theorem sorted_propertyValidator (required : List String) (name : String) (e : Expression) :
    (propertyValidator required name e).sorted = propertyValidator required name e.sorted := by
  obtain ⟨base, chain⟩ := e
  unfold propertyValidator
  split
  · rfl
  · simp [Expression.push, Expression.sorted, sortedCalls_eq_map, Call.plain, Call.sorted,
      sortedArgs]

namespace Node

theorem validator_sorted (node : Node) : node.sorted.validator = node.validator.sorted := by
  induction node using Node.induction with
  | string k content ih =>
    have hcontent : (sortedNested content).map validator
        = (content.map validator).map Expression.sorted := by
      cases content with
      | none => rfl
      | some node => exact congrArg some (ih node rfl)
    rw [sorted, validator_string, validator_string, hcontent, Expression.sorted,
      k.sortedCalls_slots]
    rfl
  | array size items ih =>
    have hitems : ((sortedNested items).getD .any).validator
        = (items.getD .any).validator.sorted := by
      cases items with
      | none => rfl
      | some node => exact ih node rfl
    rw [sorted, validator_array, validator_array, hitems, Expression.sorted,
      size.sortedCalls_slots]
    rfl
  | object properties required ih =>
    have hentries : shape required (sortedProperties properties)
        = sortedEntries (shape required properties) := by
      rw [sortedProperties_eq_map, sortedEntries_eq_map, shape, shape, List.map_map, List.map_map]
      refine List.map_congr_left fun p hp => ?_
      simp [ih p hp, Arg.sorted, sorted_propertyValidator]
    have hshape : shape required (sortByName (sortedProperties properties))
        = sortByName (sortedEntries (shape required properties)) := by
      rw [← hentries, shape, shape]
      exact (sortByName_map (f := fun p => (p.1, Arg.expression _)) (fun _ => rfl) _).symm
    rw [sorted, validator_object, validator_object, hshape]
    rfl
  | integer b =>
    rw [sorted, validator_integer, Expression.sorted, sortedCalls, b.sortedCalls_slots]
    rfl
  | number b =>
    rw [sorted, validator_number, Expression.sorted, b.sortedCalls_slots]
    rfl
  | boolean | null | any => rfl

/-- Compilation respects the equality of schemas up to the order of shapes: the validators of equal
schemas are equal once their shapes are sorted, and their code has the same length. If corresponding
objects list their properties in the same order, the validators and their code are equal. -/
theorem validator_of_same {a b : Node} (h : a.PropertiesDistinct) (hab : a.same b = true) :
    a.validator.sorted.same b.validator.sorted = true
      ∧ a.validator.render.length = b.validator.render.length
      ∧ a.validator.render.utf8ByteSize = b.validator.render.utf8ByteSize
      ∧ (a.InOrder b →
        a.validator.same b.validator = true ∧ a.validator.render = b.validator.render) := by
  obtain ⟨hsorted, hordered⟩ := equivalent_of_same a h b hab
  have hagrees := (agrees_iff _ _).2 hsorted
  rw [validator_sorted, validator_sorted] at hagrees
  have hcode : a.validator.sorted.render = b.validator.sorted.render :=
    congrArg String.ofList hagrees.chars_eq
  obtain ⟨hlength, hsize⟩ := a.validator.render_sorted
  obtain ⟨hlength', hsize'⟩ := b.validator.render_sorted
  refine ⟨(Expression.same_iff _ _).2 hagrees, ?_, ?_, fun horder => ?_⟩
  · rw [← hlength, hcode, hlength']
  · rw [← hsize, hcode, hsize']
  · have hequal := (agrees_iff a b).2 (hordered horder)
    exact ⟨(Expression.same_iff _ _).2 hequal, congrArg String.ofList hequal.chars_eq⟩

/-- Here properties change places, and there a zero changes its sign. -/
theorem validator_of_same_zeros : ∃ a b c : Node, a.PropertiesDistinct ∧ a.same b = true
    ∧ a.same c = true ∧ a.InOrder c ∧ a.validator.sorted.same b.validator.sorted = true
    ∧ a.validator.render.length = b.validator.render.length
    ∧ a.validator.render.utf8ByteSize = b.validator.render.utf8ByteSize
    ∧ a.validator.render ≠ b.validator.render ∧ a.validator.render = c.validator.render := by
  let zero : Node := .number { minimum := some ⟨0⟩ }
  let negative : Node := .number { minimum := some (Binary64.negate ⟨0⟩) }
  let a : Node := .object [("x", zero), ("y", .object [("p", .null), ("q", .any)] [])] ["y"]
  let b : Node := .object [("y", .object [("q", .any), ("p", .null)] []), ("x", zero)] ["y"]
  let c : Node := .object [("x", negative), ("y", .object [("p", .null), ("q", .any)] [])] ["y"]
  have hdistinct : a.PropertiesDistinct := by
    simp [a, zero, PropertiesDistinct, PropertyNodesDistinct]
  have hb : a.same b = true := by decide +kernel
  have hc : a.same c = true := by decide +kernel
  have horder : a.InOrder c := by
    simp [a, c, zero, InOrder, PropertiesInOrder]
  obtain ⟨hsorted, hlength, hsize, -⟩ := validator_of_same hdistinct hb
  obtain ⟨-, -, -, hequal⟩ := validator_of_same hdistinct hc
  exact ⟨a, b, c, hdistinct, hb, hc, horder, hsorted, hlength, hsize, by decide +kernel,
    (hequal horder).2⟩

end Node

end Validators

end ValidatorGen
