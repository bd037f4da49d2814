import ValidatorGen.Compile.Node

/-! What compilation gives, apart from its log: a base call, and the calls of the slots of its kind
that are filled, in the order of the slots. -/
namespace ValidatorGen

/-- What stands for the format and the encoding of a string: no check, the check of a format with
its message, or the check for base64 text with the message that counts for it. -/
inductive FormatSlot where
  | none
  | format (f : StringFormat) (message : Option String)
  | base64 (message : Option String)
deriving DecidableEq

def FormatSlot.call? : FormatSlot → Option Call
  | .none => .none
  | .format f message => f.call? message
  | .base64 message => some ⟨"base64", [], message⟩

/-- The calls of the slots that are filled. -/
def filled (slots : List (Option Call)) : List Call := slots.flatMap Option.toList

@[simp] theorem filled_nil : filled [] = [] := rfl

@[simp] theorem filled_cons (slot : Option Call) (slots : List (Option Call)) :
    filled (slot :: slots) = slot.toList ++ filled slots := rfl

theorem forall_mem_filled {P : Call → Prop} {slots : List (Option Call)} :
    (∀ call ∈ filled slots, P call) ↔ ∀ slot ∈ slots, ∀ call ∈ slot, P call := by
  simp only [filled, List.mem_flatMap, Option.mem_toList]
  constructor
  · intro h slot hs call hc
    exact h call ⟨slot, hs, hc⟩
  · rintro h call ⟨slot, hs, hc⟩
    exact h slot hs call hc

namespace StringKeywords

/-- The message of the encoding if it asks for base64, otherwise that of the binary format. -/
def base64Message (k : StringKeywords) : Option String :=
  (if k.knownEncoding = some .base64 then k.messages.forKeyword .contentEncoding else none).or
    (if k.knownFormat = some .binary then k.messages.forKeyword .format else none)

def formatSlot (k : StringKeywords) : FormatSlot :=
  if k.knownFormat = none ∨ k.knownFormat = some .binary then
    if k.knownFormat = some .binary ∨ k.knownEncoding = some .base64 then .base64 k.base64Message
    else .none
  else (k.knownFormat.map fun f => .format f (k.messages.forKeyword .format)).getD .none

def transformCall? (k : StringKeywords) : Option Call :=
  if k.hasJsonContent then
    some (.unary "transform" (.code parseJsonCode) (k.messages.forKeyword .contentMediaType))
  else none

def pipeCall? (k : StringKeywords) (content : Option Expression) : Option Call :=
  if k.hasJsonContent then
    content.map fun e =>
      .unary "pipe" (.expression e) (k.messages.forKeyword .contentSchema)
  else none

def slots (k : StringKeywords) (content : Option Expression) : List (Option Call) :=
  [k.formatSlot.call?, k.transformCall?, k.pipeCall? content, k.patternCall?, k.minLengthCall?,
    k.maxLengthCall?]

variable {ε : Type}

theorem value_base64Rule (note : Notice → ε) (k : StringKeywords) :
    (k.base64Rule note).value =
      if k.knownFormat = some .binary ∨ k.knownEncoding = some .base64 then
        some ⟨"base64", [], k.base64Message⟩
      else none := by
  unfold base64Rule base64Message
  by_cases hf : k.knownFormat = some .binary <;> by_cases he : k.knownEncoding = some .base64 <;>
    cases k.contentEncoding <;> simp [hf, he]

theorem value_formatRule (note : Notice → ε) (k : StringKeywords) :
    (k.formatRule note).value = k.formatSlot.call? := by
  unfold formatRule formatSlot
  cases hf : k.knownFormat with
  | none =>
    by_cases he : k.knownEncoding = some .base64 <;> cases k.format <;>
      simp [value_base64Rule, hf, he, FormatSlot.call?]
  | some f =>
    cases f <;> cases k.knownEncoding <;>
      simp [value_base64Rule, StringFormat.call?, hf, FormatSlot.call?]

theorem value_transformRule (note : Notice → ε) (k : StringKeywords) :
    (k.transformRule note).value = k.transformCall? := by
  unfold transformRule transformCall?
  split
  · rfl
  · cases k.contentMediaType <;> rfl

theorem value_pipeRule (k : StringKeywords) (content : Option (Traced ε Expression)) :
    (k.pipeRule content).value = k.pipeCall? (content.map Traced.value) := by
  unfold pipeRule pipeCall?
  split
  · cases content <;> rfl
  · rfl

theorem value_collect (rules : List (Traced ε (Option Call))) :
    (collect rules).value = filled (rules.map Traced.value) := by
  induction rules with
  | nil => rfl
  | cons rule rest ih => simp [collect, ih]

theorem value_compile (note : Notice → ε) (k : StringKeywords)
    (content : Option (Traced ε Expression)) :
    (k.compile note content).value
      = ⟨.plain "string", filled (k.slots (content.map Traced.value))⟩ := by
  simp [compile, value_collect, rules, slots, value_formatRule, value_transformRule,
    value_pipeRule]

end StringKeywords

namespace Bounds

def slots (b : Bounds) : List (Option Call) :=
  [slot "gte" .minimum b.minimum, slot "gt" .exclusiveMinimum b.exclusiveMinimum,
    slot "lte" .maximum b.maximum, slot "lt" .exclusiveMaximum b.exclusiveMaximum,
    slot "multipleOf" .multipleOf b.multipleOf]
where
  slot (method : String) (k : Keyword) (value : Option Binary64) : Option Call :=
    value.map fun x => Call.unary method (.number x) (b.messages.forKeyword k)

theorem calls_eq (b : Bounds) : b.calls = filled b.slots := by
  simp [calls, filled, slots, calls.call, slots.slot]

end Bounds

namespace ListSize

def slots (s : ListSize) : List (Option Call) :=
  [slot "min" .minItems s.minItems, slot "max" .maxItems s.maxItems]
where
  slot (method : String) (k : Keyword) (value : Option UInt64) : Option Call :=
    value.map fun n => Call.unary method (.count n) (s.messages.forKeyword k)

theorem calls_eq (s : ListSize) : s.calls = filled s.slots := by
  simp [calls, filled, slots, calls.call, slots.slot]

end ListSize

namespace Node

def shape (required : List String) (properties : List (String × Node)) : List (String × Arg) :=
  properties.map fun p => (p.1, .expression (propertyValidator required p.1 p.2.validator))

variable {ε ε' : Type}

mutual

/-- The log has no influence on what is compiled. -/
theorem value_compile_eq (note : Notice → ε) (note' : Notice → ε') : (node : Node) →
    (node.compile note).value = (node.compile note').value
  | .string k content => by
    simp [compile, StringKeywords.value_compile, value_compileNested_eq note note' content]
  | .integer _ | .number _ | .boolean | .null | .any => rfl
  | .array size items => by
    have := value_compileNested_eq note note' items
    cases items <;> simp_all [compile, compileNested]
  | .object properties required => by
    simp [compile, value_compileProperties_eq note note' required properties]

theorem value_compileNested_eq (note : Notice → ε) (note' : Notice → ε') :
    (node : Option Node) →
    (compileNested note node).map Traced.value = (compileNested note' node).map Traced.value
  | none => rfl
  | some node => by simp [compileNested, value_compile_eq note note' node]

theorem value_compileProperties_eq (note : Notice → ε) (note' : Notice → ε')
    (required : List String) : (properties : List (String × Node)) →
    (compileProperties note required properties).value
      = (compileProperties note' required properties).value
  | [] => rfl
  | (name, node) :: rest => by
    simp [compileProperties, value_compile_eq note note' node,
      value_compileProperties_eq note note' required rest]

end

theorem value_compile (note : Notice → ε) (node : Node) :
    (node.compile note).value = node.validator := value_compile_eq note id node

theorem validator_string (k : StringKeywords) (content : Option Node) :
    (Node.string k content).validator
      = ⟨.plain "string", filled (k.slots (content.map validator))⟩ := by
  cases content <;> simp [validator, compile, compileNested, StringKeywords.value_compile]

theorem validator_integer (b : Bounds) :
    (Node.integer b).validator = ⟨.plain "number", .plain "int" :: filled b.slots⟩ := by
  simp [validator, compile, b.calls_eq]

theorem validator_number (b : Bounds) :
    (Node.number b).validator = ⟨.plain "number", filled b.slots⟩ := by
  simp [validator, compile, b.calls_eq]

theorem validator_array (s : ListSize) (items : Option Node) :
    (Node.array s items).validator
      = ⟨.unary "array" (.expression (items.getD .any).validator) none, filled s.slots⟩ := by
  cases items <;> simp [validator, compile, compileNested, s.calls_eq]

theorem value_compileProperties (note : Notice → ε) (required : List String)
    (properties : List (String × Node)) :
    (compileProperties note required properties).value = shape required properties := by
  induction properties with
  | nil => rfl
  | cons p rest ih => simp [compileProperties, shape, value_compile, ih]

theorem validator_object (properties : List (String × Node)) (required : List String) :
    (Node.object properties required).validator
      = .ofBase (.unary "object" (.shape (shape required properties)) none) := by
  simp [validator, compile, value_compileProperties]

end Node
end ValidatorGen
