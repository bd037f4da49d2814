import ValidatorGen.Proofs.Compile.Slots
import ValidatorGen.Proofs.Expression.Emitted
import ValidatorGen.Proofs.Text.Literal

/-! What compilation forgets. Main statement: two schemas have the same validator if and only if
they are equivalent: they agree in everything that reaches a slot, a shape or a base call. -/
namespace ValidatorGen

/-- Values of a keyword, each with the message that is filed for it: both are missing, or they are
related and have the same message. -/
def KeywordAgrees {α : Type} (related : α → α → Prop) (m m' : Messages) (k : Keyword) :
    Option α → Option α → Prop
  | none, none => True
  | some x, some y => related x y ∧ m.forKeyword k = m'.forKeyword k
  | _, _ => False

/-- Everything about a string but the schema of its content and the messages for it. -/
def StringKeywords.Equivalent (a b : StringKeywords) : Prop :=
  a.formatSlot = b.formatSlot ∧ a.hasJsonContent = b.hasJsonContent
    ∧ KeywordAgrees Eq a.messages b.messages .pattern a.pattern b.pattern
    ∧ KeywordAgrees Eq a.messages b.messages .minLength a.minLength b.minLength
    ∧ KeywordAgrees Eq a.messages b.messages .maxLength a.maxLength b.maxLength

def Bounds.Equivalent (a b : Bounds) : Prop :=
  agree .minimum a.minimum b.minimum ∧ agree .exclusiveMinimum a.exclusiveMinimum b.exclusiveMinimum
    ∧ agree .maximum a.maximum b.maximum
    ∧ agree .exclusiveMaximum a.exclusiveMaximum b.exclusiveMaximum
    ∧ agree .multipleOf a.multipleOf b.multipleOf
where
  agree (k : Keyword) : Option Binary64 → Option Binary64 → Prop :=
    KeywordAgrees SameValue a.messages b.messages k

def ListSize.Equivalent (a b : ListSize) : Prop :=
  KeywordAgrees Eq a.messages b.messages .minItems a.minItems b.minItems
    ∧ KeywordAgrees Eq a.messages b.messages .maxItems a.maxItems b.maxItems

mutual

/-- Equivalence of schemas. The messages and the schema of the content of a string count only if
the content is JSON. -/
def Node.Equivalent : Node → Node → Prop
  | .string a content, .string b content' =>
    a.Equivalent b
      ∧ (a.hasJsonContent = true →
        a.messages.forKeyword .contentMediaType = b.messages.forKeyword .contentMediaType
          ∧ ContentEquivalent a.messages b.messages content content')
  | .integer a, .integer b => a.Equivalent b
  | .number a, .number b => a.Equivalent b
  | .boolean, .boolean => True
  | .null, .null => True
  | .array a items, .array b items' => a.Equivalent b ∧ ItemsEquivalent items items'
  | .object properties required, .object properties' required' =>
    PropertiesEquivalent required required' properties properties'
  | .any, .any => True
  | _, _ => False
termination_by structural a => a

def ContentEquivalent (m m' : Messages) : Option Node → Option Node → Prop
  | none, none => True
  | some a, some b => a.Equivalent b ∧ m.forKeyword .contentSchema = m'.forKeyword .contentSchema
  | _, _ => False
termination_by structural a => a

/-- Items without a schema may be anything. -/
def ItemsEquivalent : Option Node → Option Node → Prop
  | none, items' => (items'.getD .any).kind = .any
  | some a, items' => a.Equivalent (items'.getD .any)
termination_by structural a => a

/-- The same names in the same order, all of them with equivalent schemas and required by both or
by none. -/
def PropertiesEquivalent (required required' : List String) :
    List (String × Node) → List (String × Node) → Prop
  | [], [] => True
  | (name, a) :: rest, (name', b) :: rest' =>
    name = name' ∧ required.contains name = required'.contains name ∧ a.Equivalent b
      ∧ PropertiesEquivalent required required' rest rest'
  | _, _ => False
termination_by structural a => a

end

theorem equivalent_any_iff {node : Node} : Node.any.Equivalent node ↔ node.kind = .any := by
  cases node <;> simp [Node.Equivalent, Node.kind]

/-- Without a schema for its items, an array takes any. -/
theorem itemsEquivalent_iff {items items' : Option Node} :
    ItemsEquivalent items items' ↔ (items.getD .any).Equivalent (items'.getD .any) := by
  cases items with
  | none => simp [ItemsEquivalent, equivalent_any_iff]
  | some a => simp [ItemsEquivalent]

variable {r : Binary64 → Binary64 → Prop}

theorem slotAgrees_map_iff {α : Type} {related : α → α → Prop} {f : α → Arg}
    (hf : ∀ x y, (f x).Agrees r (f y) ↔ related x y) {name : String} {m m' : Messages} {k : Keyword}
    {value value' : Option α} :
    SlotAgrees r (value.map fun x => .unary name (f x) (m.forKeyword k))
        (value'.map fun x => .unary name (f x) (m'.forKeyword k))
      ↔ KeywordAgrees related m m' k value value' := by
  cases value <;> cases value' <;>
    simp [SlotAgrees, KeywordAgrees, Call.unary, Call.Agrees, ArgsAgree, hf]

theorem regExpCode_injective : Function.Injective regExpCode := fun p q h => by
  have hchars := congrArg String.toList h
  have hquoted : Text.quoteChars p.toList = Text.quoteChars q.toList := by
    simpa [regExpCode] using hchars
  exact String.toList_injective (Text.quoteChars_injective hquoted)

theorem optionsWith_agrees_iff {name name' : String} {arg arg' : Arg} {m m' : Option String} :
    (Arg.optionsWith [(name, arg)] m).Agrees r (.optionsWith [(name', arg')] m')
      ↔ name = name' ∧ arg.Agrees r arg' ∧ m = m' := by
  cases m <;> cases m' <;> simp [Arg.optionsWith, Arg.Agrees, EntriesAgree]

namespace FormatSlot

/-- Binary content has no check as a format. -/
def Proper (slot : FormatSlot) : Prop := ∀ message, slot ≠ .format .binary message

theorem call?_eq_none_iff {slot : FormatSlot} (h : slot.Proper) :
    slot.call? = .none ↔ slot = .none := by
  cases slot with
  | none => simp [call?]
  | base64 message => simp [call?]
  | format f message =>
    cases f with
    | binary => exact absurd rfl (h message)
    | _ => simp [call?, StringFormat.call?]

theorem not_agrees_base64 {f : StringFormat} {m m' : Option String} :
    ¬SlotAgrees r (f.call? m) (some ⟨"base64", [], m'⟩)
      ∧ ¬SlotAgrees r (some ⟨"base64", [], m'⟩) (f.call? m) := by
  cases f <;> simp [StringFormat.call?, StringFormat.call?.ip, SlotAgrees, Call.Agrees, Call.unary]

theorem format_agrees_iff {f f' : StringFormat} (hf : f ≠ .binary) (hf' : f' ≠ .binary)
    {m m' : Option String} :
    SlotAgrees r (f.call? m) (f'.call? m') ↔ f = f' ∧ m = m' := by
  cases f <;> cases f' <;>
    simp_all [StringFormat.call?, StringFormat.call?.ip, SlotAgrees, Call.Agrees, Call.unary,
      ArgsAgree, optionsWith_agrees_iff, Arg.Agrees]

theorem agrees_iff {s t : FormatSlot} (hs : s.Proper) (ht : t.Proper) :
    SlotAgrees r s.call? t.call? ↔ s = t := by
  cases s with
  | none =>
    have hnone : call? none = .none := rfl
    rw [hnone, slotAgrees_none_left, call?_eq_none_iff ht, eq_comm]
  | format f m =>
    have hf : f ≠ .binary := fun h => hs m (h ▸ rfl)
    cases t with
    | none =>
      have hnone : call? none = .none := rfl
      rw [hnone, slotAgrees_none_right, call?_eq_none_iff hs]
    | format f' m' =>
      have hf' : f' ≠ .binary := fun h => ht m' (h ▸ rfl)
      simpa [call?] using format_agrees_iff hf hf'
    | base64 m' => simpa [call?] using not_agrees_base64.1
  | base64 m =>
    cases t with
    | none => simp [call?, SlotAgrees]
    | format f' m' => simpa [call?] using not_agrees_base64.2
    | base64 m' => simp [call?, SlotAgrees, Call.Agrees, ArgsAgree]

theorem named_call? (slot : FormatSlot) :
    Named ["datetime", "email", "ip", "url", "uuid", "time", "date", "duration", "base64"]
      slot.call? := by
  cases slot with
  | none => exact named_none _
  | base64 message => exact named_some.2 (by simp)
  | format f message =>
    cases f <;> simp [call?, StringFormat.call?, Named, StringFormat.call?.ip, Call.unary]

end FormatSlot

namespace StringKeywords

theorem proper_formatSlot (k : StringKeywords) : k.formatSlot.Proper := by
  intro message h
  unfold formatSlot at h
  split at h
  · split at h <;> cases h
  · next hknown =>
    cases hf : k.knownFormat with
    | none => simp [hf] at hknown
    | some f =>
      simp [hf] at h hknown
      exact hknown h.1

def slotNames : List (List String) :=
  [["datetime", "email", "ip", "url", "uuid", "time", "date", "duration", "base64"], ["transform"],
    ["pipe"], ["regex"], ["min"], ["max"]]

theorem named_slots (k : StringKeywords) (content : Option Expression) :
    List.Forall₂ Named slotNames (k.slots content) := by
  have htransform : Named ["transform"] k.transformCall? := by
    unfold transformCall?
    split <;> simp [Named, Call.unary]
  have hpipe : Named ["pipe"] (k.pipeCall? content) := by
    unfold pipeCall?
    split
    · exact named_map (by simp [Call.unary]) _
    · exact named_none _
  have hpattern : Named ["regex"] k.patternCall? := named_map (by simp [Call.unary]) _
  have hmin : Named ["min"] k.minLengthCall? := named_map (by simp [Call.unary]) _
  have hmax : Named ["max"] k.maxLengthCall? := named_map (by simp [Call.unary]) _
  simp [slotNames, slots, k.formatSlot.named_call?, htransform, hpipe, hpattern, hmin, hmax]

end StringKeywords

def Bounds.slotNames : List (List String) := [["gte"], ["gt"], ["lte"], ["lt"], ["multipleOf"]]

theorem Bounds.named_slots (b : Bounds) : List.Forall₂ Named slotNames b.slots := by
  have hslot (method : String) (k : Keyword) (value : Option Binary64) :
      Named [method] (slots.slot b method k value) := named_map (by simp [Call.unary]) value
  simp [slotNames, slots, hslot]

def ListSize.slotNames : List (List String) := [["min"], ["max"]]

theorem ListSize.named_slots (s : ListSize) : List.Forall₂ Named slotNames s.slots := by
  have hslot (method : String) (k : Keyword) (value : Option UInt64) :
      Named [method] (slots.slot s method k value) := named_map (by simp [Call.unary]) value
  simp [slotNames, slots, hslot]

theorem Bounds.callsAgree_iff (a b : Bounds) :
    CallsAgree SameValue (filled a.slots) (filled b.slots) ↔ a.Equivalent b := by
  have hslot (method : String) (k : Keyword) (value value' : Option Binary64) :
      SlotAgrees SameValue (slots.slot a method k value) (slots.slot b method k value')
        ↔ Equivalent.agree a b k value value' := slotAgrees_map_iff fun _ _ => Iff.rfl
  rw [callsAgree_filled_iff (by simp [slotNames]) a.named_slots b.named_slots]
  simp [slots, hslot, Equivalent]

theorem ListSize.callsAgree_iff (a b : ListSize) :
    CallsAgree r (filled a.slots) (filled b.slots) ↔ a.Equivalent b := by
  have hslot (method : String) (k : Keyword) (value value' : Option UInt64) :
      SlotAgrees r (slots.slot a method k value) (slots.slot b method k value')
        ↔ KeywordAgrees Eq a.messages b.messages k value value' :=
    slotAgrees_map_iff fun _ _ => Iff.rfl
  rw [callsAgree_filled_iff (by simp [slotNames]) a.named_slots b.named_slots]
  simp [slots, hslot, Equivalent]

namespace StringKeywords

theorem patternCall?_agrees_iff (a b : StringKeywords) :
    SlotAgrees r a.patternCall? b.patternCall?
      ↔ KeywordAgrees Eq a.messages b.messages .pattern a.pattern b.pattern :=
  slotAgrees_map_iff (f := fun p => .code (regExpCode p)) fun _ _ => regExpCode_injective.eq_iff

theorem minLengthCall?_agrees_iff (a b : StringKeywords) :
    SlotAgrees r a.minLengthCall? b.minLengthCall?
      ↔ KeywordAgrees Eq a.messages b.messages .minLength a.minLength b.minLength :=
  slotAgrees_map_iff fun _ _ => Iff.rfl

theorem maxLengthCall?_agrees_iff (a b : StringKeywords) :
    SlotAgrees r a.maxLengthCall? b.maxLengthCall?
      ↔ KeywordAgrees Eq a.messages b.messages .maxLength a.maxLength b.maxLength :=
  slotAgrees_map_iff fun _ _ => Iff.rfl

theorem transformCall?_agrees_iff (a b : StringKeywords) :
    SlotAgrees r a.transformCall? b.transformCall? ↔ a.hasJsonContent = b.hasJsonContent
      ∧ (a.hasJsonContent = true →
        a.messages.forKeyword .contentMediaType = b.messages.forKeyword .contentMediaType) := by
  cases ha : a.hasJsonContent <;> cases hb : b.hasJsonContent <;>
    simp [transformCall?, ha, hb, SlotAgrees, Call.unary, Call.Agrees, ArgsAgree, Arg.Agrees]

/-- With JSON content on both sides the schemas of the content decide. -/
theorem pipeCall?_agrees_iff {a b : StringKeywords} (h : a.hasJsonContent = b.hasJsonContent)
    (content content' : Option Expression) :
    SlotAgrees r (a.pipeCall? content) (b.pipeCall? content') ↔ (a.hasJsonContent = true →
      KeywordAgrees (Expression.Agrees r) a.messages b.messages .contentSchema content content') := by
  rw [pipeCall?, pipeCall?, ← h]
  cases a.hasJsonContent with
  | false => simp [SlotAgrees]
  | true =>
    have hpipe : SlotAgrees r
        (content.map fun e => .unary "pipe" (.expression e) (a.messages.forKeyword .contentSchema))
        (content'.map fun e => .unary "pipe" (.expression e) (b.messages.forKeyword .contentSchema))
        ↔ KeywordAgrees (Expression.Agrees r) a.messages b.messages .contentSchema content
          content' := slotAgrees_map_iff fun _ _ => Iff.rfl
    simpa using hpipe

theorem callsAgree_iff (a b : StringKeywords) (content content' : Option Expression) :
    CallsAgree r (filled (a.slots content)) (filled (b.slots content')) ↔ a.Equivalent b
      ∧ (a.hasJsonContent = true →
        a.messages.forKeyword .contentMediaType = b.messages.forKeyword .contentMediaType
          ∧ KeywordAgrees (Expression.Agrees r) a.messages b.messages .contentSchema content
            content') := by
  have hformat := FormatSlot.agrees_iff (r := r) a.proper_formatSlot b.proper_formatSlot
  rw [callsAgree_filled_iff (by simp [slotNames]) (a.named_slots content) (b.named_slots content')]
  simp only [slots, List.forall₂_cons, List.Forall₂.nil, and_true, hformat,
    transformCall?_agrees_iff, patternCall?_agrees_iff, minLengthCall?_agrees_iff,
    maxLengthCall?_agrees_iff, Equivalent]
  constructor
  · rintro ⟨hf, ⟨hjson, hmedia⟩, hpipe, hp, hmin, hmax⟩
    have hcontent := (pipeCall?_agrees_iff hjson content content').1 hpipe
    exact ⟨⟨hf, hjson, hp, hmin, hmax⟩, fun h => ⟨hmedia h, hcontent h⟩⟩
  · rintro ⟨⟨hf, hjson, hp, hmin, hmax⟩, hrest⟩
    have hpipe := (pipeCall?_agrees_iff hjson content content').2 fun h => (hrest h).2
    exact ⟨hf, ⟨hjson, fun h => (hrest h).1⟩, hpipe, hp, hmin, hmax⟩

end StringKeywords

theorem name_mem_of_mem_filled {names : List (List String)} {slots : List (Option Call)}
    (h : List.Forall₂ Named names slots) {call : Call} (hcall : call ∈ filled slots) :
    call.name ∈ names.flatten := by
  obtain ⟨ns, hns, hmem⟩ := exists_names_of_mem_filled h hcall
  exact List.mem_flatten.2 ⟨ns, hns, hmem⟩

namespace Node

theorem optional_not_mem_chainNames (node : Node) : "optional" ∉ node.validator.chainNames := by
  intro h
  obtain ⟨call, hcall, hname⟩ := List.mem_map.1 h
  cases node with
  | string k content =>
    rw [validator_string] at hcall
    have hmem := name_mem_of_mem_filled (k.named_slots _) hcall
    simp [hname, StringKeywords.slotNames] at hmem
  | integer b =>
    rw [validator_integer] at hcall
    rcases List.mem_cons.1 hcall with rfl | hcall
    · simp [Call.plain] at hname
    · have hmem := name_mem_of_mem_filled b.named_slots hcall
      simp [hname, Bounds.slotNames] at hmem
  | number b =>
    rw [validator_number] at hcall
    have hmem := name_mem_of_mem_filled b.named_slots hcall
    simp [hname, Bounds.slotNames] at hmem
  | array size items =>
    rw [validator_array] at hcall
    have hmem := name_mem_of_mem_filled size.named_slots hcall
    simp [hname, ListSize.slotNames] at hmem
  | object properties required =>
    rw [validator_object] at hcall
    simp [Expression.ofBase] at hcall
  | boolean | null | any => cases hcall

end Node

theorem Expression.agrees_iff {e e' : Expression} :
    e.Agrees r e' ↔ e.base.Agrees r e'.base ∧ CallsAgree r e.chain e'.chain := by
  cases e
  cases e'
  rfl

theorem Expression.Agrees.chainNames_eq {e e' : Expression} (h : e.Agrees r e') :
    e.chainNames = e'.chainNames := (Expression.agrees_iff.1 h).2.names_eq

theorem Expression.push_agrees_iff {e e' : Expression} {call call' : Call} :
    (e.push call).Agrees r (e'.push call') ↔ e.Agrees r e' ∧ call.Agrees r call' := by
  simp [Expression.agrees_iff, push, callsAgree_concat, and_assoc]

theorem propertyValidator_agrees_iff {required required' : List String} {name : String}
    {e e' : Expression} (he : "optional" ∉ e.chainNames) (he' : "optional" ∉ e'.chainNames) :
    (propertyValidator required name e).Agrees r (propertyValidator required' name e')
      ↔ required.contains name = required'.contains name ∧ e.Agrees r e' := by
  have hplain : (Call.plain "optional").Agrees r (Call.plain "optional") := ⟨rfl, trivial, rfl⟩
  unfold propertyValidator
  cases required.contains name <;> cases required'.contains name
  · simp [Expression.push_agrees_iff, hplain]
  · have hne : ¬(e.push (.plain "optional")).Agrees r e' := fun h => by
      have hnames := h.chainNames_eq
      simp [← hnames, Call.plain] at he'
    simpa using hne
  · have hne : ¬e.Agrees r (e'.push (.plain "optional")) := fun h => by
      have hnames := h.chainNames_eq
      simp [hnames, Call.plain] at he
    simpa using hne
  · simp

namespace Node

/-- The kind of schema that a base call belongs to; integers have one call more than numbers. -/
def kindOfNames (base : String) (chain : List String) : Kind :=
  if base = "string" then .string
  else if base = "number" then if chain.head? = some "int" then .integer else .number
  else if base = "boolean" then .boolean
  else if base = "null" then .null
  else if base = "array" then .array
  else if base = "object" then .object
  else .any

theorem kind_eq (node : Node) :
    node.kind = kindOfNames node.validator.base.name node.validator.chainNames := by
  cases node with
  | string k content => simp [validator_string, kindOfNames, kind, Call.plain]
  | integer b =>
    simp [validator_integer, kindOfNames, kind, Call.plain, Expression.chainNames]
  | number b =>
    have hint : ((filled b.slots).map Call.name).head? ≠ some "int" := by
      intro hhead
      obtain ⟨call, hcall, hname⟩ := List.mem_map.1 (List.mem_of_head? hhead)
      have hmem := name_mem_of_mem_filled b.named_slots hcall
      simp [hname, Bounds.slotNames] at hmem
    rw [validator_number, kindOfNames, Expression.chainNames, if_neg hint]
    simp [kind, Call.plain]
  | array size items => simp [validator_array, kindOfNames, kind, Call.unary]
  | object properties required =>
    simp [validator_object, kindOfNames, kind, Call.unary, Expression.ofBase]
  | boolean | null | any => rfl

theorem kind_eq_of_agrees {a b : Node} (h : a.validator.Agrees r b.validator) :
    a.kind = b.kind := by
  have hbase := (Expression.agrees_iff.1 h).1.name_eq
  rw [kind_eq, kind_eq, hbase, h.chainNames_eq]

theorem Equivalent.kind_eq {a b : Node} (h : a.Equivalent b) : a.kind = b.kind := by
  cases a <;> cases b <;> first | rfl | exact h.elim

theorem agrees_iff_of_kind_ne {a b : Node} (h : a.kind ≠ b.kind) :
    a.validator.Agrees r b.validator ↔ a.Equivalent b :=
  ⟨fun hab => absurd (kind_eq_of_agrees hab) h, fun hab => absurd hab.kind_eq h⟩

theorem plain_agrees (name : String) : (Call.plain name).Agrees r (Call.plain name) :=
  ⟨rfl, trivial, rfl⟩

theorem unary_agrees_iff {name : String} {a b : Arg} {m m' : Option String} :
    (Call.unary name a m).Agrees r (.unary name b m') ↔ a.Agrees r b ∧ m = m' := by
  simp [Call.unary, Call.Agrees, ArgsAgree]

theorem any_agrees_iff {node : Node} :
    Node.any.validator.Agrees r node.validator ↔ node.kind = .any := by
  constructor
  · intro h
    exact (kind_eq_of_agrees h).symm
  · intro h
    cases node with
    | any => exact ⟨plain_agrees _, trivial⟩
    | _ => cases h

mutual

theorem agrees_iff : (a b : Node) → (a.validator.Agrees SameValue b.validator ↔ a.Equivalent b)
  | .string k content, b => by
    cases b with
    | string k' content' =>
      have hcontent := contentAgrees_iff k.messages k'.messages content content'
      have hchain := k.callsAgree_iff (r := SameValue) k' (content.map validator)
        (content'.map validator)
      rw [hcontent] at hchain
      simpa [validator_string, Expression.agrees_iff, plain_agrees, Equivalent] using hchain
    | _ => exact agrees_iff_of_kind_ne (by simp [kind])
  | .integer a, b => by
    cases b with
    | integer b =>
      have hchain := a.callsAgree_iff b
      simpa [validator_integer, Expression.agrees_iff, CallsAgree, plain_agrees, Equivalent]
        using hchain
    | _ => exact agrees_iff_of_kind_ne (by simp [kind])
  | .number a, b => by
    cases b with
    | number b =>
      have hchain := a.callsAgree_iff b
      simpa [validator_number, Expression.agrees_iff, plain_agrees, Equivalent] using hchain
    | _ => exact agrees_iff_of_kind_ne (by simp [kind])
  | .boolean, b => by
    cases b with
    | boolean => exact iff_of_true ⟨plain_agrees _, trivial⟩ trivial
    | _ => exact agrees_iff_of_kind_ne (by simp [kind])
  | .null, b => by
    cases b with
    | null => exact iff_of_true ⟨plain_agrees _, trivial⟩ trivial
    | _ => exact agrees_iff_of_kind_ne (by simp [kind])
  | .any, b => by
    cases b with
    | any => exact iff_of_true ⟨plain_agrees _, trivial⟩ trivial
    | _ => exact agrees_iff_of_kind_ne (by simp [kind])
  | .array s items, b => by
    cases b with
    | array s' items' =>
      have hchain := s.callsAgree_iff (r := SameValue) s'
      have hitems := itemsAgree_iff items items'
      rw [validator_array, validator_array, Expression.agrees_iff, unary_agrees_iff, hchain]
      simp [Arg.Agrees, hitems, Equivalent, and_comm]
    | _ => exact agrees_iff_of_kind_ne (by simp [kind])
  | .object properties required, b => by
    cases b with
    | object properties' required' =>
      have hshape := shapeAgrees_iff required required' properties properties'
      rw [validator_object, validator_object, Expression.agrees_iff]
      simp [Expression.ofBase, unary_agrees_iff, Arg.Agrees, CallsAgree, hshape, Equivalent]
    | _ => exact agrees_iff_of_kind_ne (by simp [kind])

theorem itemsAgree_iff : (items items' : Option Node) →
    ((items.getD .any).validator.Agrees SameValue (items'.getD .any).validator
      ↔ ItemsEquivalent items items')
  | none, items' => any_agrees_iff
  | some a, items' => agrees_iff a (items'.getD .any)

theorem contentAgrees_iff (m m' : Messages) : (content content' : Option Node) →
    (KeywordAgrees (Expression.Agrees SameValue) m m' .contentSchema (content.map validator)
        (content'.map validator) ↔ ContentEquivalent m m' content content')
  | none, content' => by cases content' <;> simp [KeywordAgrees, ContentEquivalent]
  | some a, content' => by
    cases content' with
    | none => simp [KeywordAgrees, ContentEquivalent]
    | some b => simp [KeywordAgrees, ContentEquivalent, agrees_iff a b]

theorem shapeAgrees_iff (required required' : List String) :
    (properties properties' : List (String × Node)) →
    (EntriesAgree SameValue (shape required properties) (shape required' properties')
      ↔ PropertiesEquivalent required required' properties properties')
  | [], properties' => by
    cases properties' <;> simp [shape, EntriesAgree, PropertiesEquivalent]
  | (name, a) :: rest, [] => by simp [shape, EntriesAgree, PropertiesEquivalent]
  | (name, a) :: rest, (name', b) :: rest' => by
    have hrest := shapeAgrees_iff required required' rest rest'
    have hentries : EntriesAgree SameValue (shape required ((name, a) :: rest))
        (shape required' ((name', b) :: rest'))
        ↔ name = name' ∧ (propertyValidator required name a.validator).Agrees SameValue
            (propertyValidator required' name' b.validator)
          ∧ EntriesAgree SameValue (shape required rest) (shape required' rest') := Iff.rfl
    rw [hentries, hrest, PropertiesEquivalent]
    constructor
    · rintro ⟨rfl, hproperty, h⟩
      obtain ⟨hrequired, hab⟩ := (propertyValidator_agrees_iff a.optional_not_mem_chainNames
        b.optional_not_mem_chainNames).1 hproperty
      exact ⟨rfl, hrequired, (agrees_iff a b).1 hab, h⟩
    · rintro ⟨rfl, hrequired, hab, h⟩
      have hproperty := (propertyValidator_agrees_iff a.optional_not_mem_chainNames
        b.optional_not_mem_chainNames).2 ⟨hrequired, (agrees_iff a b).2 hab⟩
      exact ⟨rfl, hproperty, h⟩

end

/-- Compilation forgets what equivalence leaves out, and nothing else. -/
theorem same_validator_iff_equivalent (a b : Node) :
    a.validator.same b.validator = true ↔ a.Equivalent b :=
  (Expression.same_iff a.validator b.validator).trans (agrees_iff a b)

end Node

end ValidatorGen
