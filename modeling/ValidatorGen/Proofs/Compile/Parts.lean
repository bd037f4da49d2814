import Mathlib.Data.List.Forall2
import ValidatorGen.Proofs.Compile.Value

/-! Expressions inside an expression, and the schemas that they come from. Main statement: the
expressions of a validator are, in the order of the code, those of the parts of the schema that
count. -/
namespace ValidatorGen

mutual

def Arg.parts : Arg → List Expression
  | .options entries | .shape entries => entryParts entries
  | .expression e => e.parts
  | .text _ | .count _ | .number _ | .flag _ | .code _ => []

def entryParts : List (String × Arg) → List Expression
  | [] => []
  | (_, arg) :: rest => arg.parts ++ entryParts rest

def argParts : List Arg → List Expression
  | [] => []
  | arg :: rest => arg.parts ++ argParts rest

def Call.parts : Call → List Expression
  | ⟨_, args, _⟩ => argParts args

def callParts : List Call → List Expression
  | [] => []
  | call :: rest => call.parts ++ callParts rest

/-- An expression comes before those in its arguments. -/
def Expression.parts : Expression → List Expression
  | ⟨base, chain⟩ => ⟨base, chain⟩ :: (base.parts ++ callParts chain)

end

def Expression.inner (e : Expression) : List Expression := e.base.parts ++ callParts e.chain

theorem Expression.parts_eq (e : Expression) : e.parts = e :: e.inner := by
  cases e
  rfl

theorem callParts_eq_flatMap (calls : List Call) : callParts calls = calls.flatMap Call.parts := by
  induction calls with
  | nil => rfl
  | cons call rest ih => simp [callParts, ih]

@[simp] theorem callParts_append (calls calls' : List Call) :
    callParts (calls ++ calls') = callParts calls ++ callParts calls' := by
  simp [callParts_eq_flatMap]

@[simp] theorem Call.parts_plain (name : String) : (plain name).parts = [] := rfl

@[simp] theorem Call.parts_unary (name : String) (arg : Arg) (message : Option String) :
    (unary name arg message).parts = arg.parts := List.append_nil _

@[simp] theorem Expression.inner_push (e : Expression) (call : Call) :
    (e.push call).inner = e.inner ++ call.parts := by
  simp [inner, push, callParts]

/-- A schema at a place where its validator is called for. Properties that are not required may be
missing. -/
structure LivePart where
  node : Node
  mayBeMissing : Bool

namespace LivePart

def validator (p : LivePart) : Expression :=
  if p.mayBeMissing then p.node.validator.push (.plain "optional") else p.node.validator

@[simp] theorem validator_present (node : Node) : validator ⟨node, false⟩ = node.validator := rfl
@[simp] theorem validator_missing (node : Node) :
    validator ⟨node, true⟩ = node.validator.push (.plain "optional") := rfl

end LivePart

mutual

/-- The parts of a schema that count, in the order of the code: the content of a string only if it
is JSON, items also if they may be anything. -/
def Node.innerParts : Node → List LivePart
  | .string k content => if k.hasJsonContent then contentParts content else []
  | .array _ items => itemParts items
  | .object properties required => propertyParts required properties
  | .integer _ | .number _ | .boolean | .null | .any => []

def contentParts : Option Node → List LivePart
  | none => []
  | some node => ⟨node, false⟩ :: node.innerParts

def itemParts : Option Node → List LivePart
  | none => [⟨.any, false⟩]
  | some node => ⟨node, false⟩ :: node.innerParts

def propertyParts (required : List String) : List (String × Node) → List LivePart
  | [] => []
  | (name, node) :: rest =>
    ⟨node, !required.contains name⟩ :: (node.innerParts ++ propertyParts required rest)

end

/-- A schema and all parts of it that count. -/
def Node.liveParts (node : Node) : List LivePart := ⟨node, false⟩ :: node.innerParts

theorem propertyValidator_eq (required : List String) (name : String) (node : Node) :
    propertyValidator required name node.validator
      = LivePart.validator ⟨node, !required.contains name⟩ := by
  unfold propertyValidator LivePart.validator
  cases required.contains name <;> rfl

theorem LivePart.inner_validator (p : LivePart) : p.validator.inner = p.node.validator.inner := by
  unfold validator
  split
  · rw [Expression.inner_push, Call.parts_plain, List.append_nil]
  · rfl

theorem callParts_map {α : Type} {f : α → Call} (h : ∀ a, (f a).parts = []) (value : Option α) :
    callParts (value.map f).toList = [] := by
  cases value with
  | none => rfl
  | some a => simp [callParts, h]

theorem FormatSlot.callParts_call? (slot : FormatSlot) : callParts slot.call?.toList = [] := by
  cases slot with
  | none => rfl
  | base64 message => rfl
  | format f message => cases f <;> cases message <;> rfl

theorem StringKeywords.callParts_slots (k : StringKeywords) (content : Option Expression) :
    callParts (filled (k.slots content))
      = if k.hasJsonContent then content.toList.flatMap Expression.parts else [] := by
  have htransform : callParts k.transformCall?.toList = [] := by
    unfold transformCall?
    split <;> rfl
  have hpipe : callParts (k.pipeCall? content).toList
      = if k.hasJsonContent then content.toList.flatMap Expression.parts else [] := by
    unfold pipeCall?
    cases k.hasJsonContent <;> cases content <;> simp [callParts, Arg.parts]
  have hpattern : callParts k.patternCall?.toList = [] := callParts_map (fun _ => rfl) _
  have hmin : callParts k.minLengthCall?.toList = [] := callParts_map (fun _ => rfl) _
  have hmax : callParts k.maxLengthCall?.toList = [] := callParts_map (fun _ => rfl) _
  simp [slots, k.formatSlot.callParts_call?, htransform, hpipe, hpattern, hmin, hmax]

theorem Bounds.callParts_slots (b : Bounds) : callParts (filled b.slots) = [] := by
  have hslot (method : String) (k : Keyword) (value : Option Binary64) :
      callParts (slots.slot b method k value).toList = [] := callParts_map (fun _ => rfl) value
  simp [slots, hslot]

theorem ListSize.callParts_slots (s : ListSize) : callParts (filled s.slots) = [] := by
  have hslot (method : String) (k : Keyword) (value : Option UInt64) :
      callParts (slots.slot s method k value).toList = [] := callParts_map (fun _ => rfl) value
  simp [slots, hslot]

namespace Node

mutual

theorem inner_validator : (node : Node) →
    node.validator.inner = node.innerParts.map LivePart.validator
  | .string k content => by
    have hcontent := parts_content content
    rw [validator_string, Expression.inner, k.callParts_slots, innerParts, hcontent]
    cases k.hasJsonContent <;> rfl
  | .integer b => by
    simp [validator_integer, Expression.inner, callParts, b.callParts_slots, innerParts]
  | .number b => by
    simp [validator_number, Expression.inner, b.callParts_slots, innerParts]
  | .boolean | .null | .any => rfl
  | .array s items => by
    have hitems := parts_items items
    simp [validator_array, Expression.inner, s.callParts_slots, innerParts, Arg.parts, hitems]
  | .object properties required => by
    have hshape := entryParts_shape required properties
    simp [validator_object, Expression.inner, Expression.ofBase, callParts, innerParts, Arg.parts,
      hshape]

theorem parts_content : (content : Option Node) →
    (content.map validator).toList.flatMap Expression.parts
      = (contentParts content).map LivePart.validator
  | none => rfl
  | some node => by
    have hinner := inner_validator node
    simp [Expression.parts_eq, hinner, contentParts]

theorem parts_items : (items : Option Node) →
    (items.getD .any).validator.parts = (itemParts items).map LivePart.validator
  | none => rfl
  | some node => by
    have hinner := inner_validator node
    simp [Expression.parts_eq, hinner, itemParts]

theorem entryParts_shape (required : List String) : (properties : List (String × Node)) →
    entryParts (shape required properties)
      = (propertyParts required properties).map LivePart.validator
  | [] => rfl
  | (name, node) :: rest => by
    have hinner := inner_validator node
    have hrest := entryParts_shape required rest
    have hentry : entryParts (shape required ((name, node) :: rest))
        = (propertyValidator required name node.validator).parts
          ++ entryParts (shape required rest) := rfl
    rw [hentry, hrest, propertyValidator_eq, Expression.parts_eq, LivePart.inner_validator, hinner]
    simp [propertyParts]

end

/-- The expressions of a validator are those of the parts that count, in the same order. -/
theorem parts_validator (node : Node) :
    node.validator.parts = node.liveParts.map LivePart.validator := by
  rw [Expression.parts_eq, inner_validator]
  rfl

/-- What is true of every schema and its validator is true throughout a validator. -/
theorem forall₂_parts {related : LivePart → Expression → Prop}
    (h : ∀ p : LivePart, related p p.validator) (node : Node) :
    List.Forall₂ related node.liveParts node.validator.parts := by
  rw [parts_validator, List.forall₂_map_right_iff]
  exact List.forall₂_same.2 fun p _ => h p

end Node
end ValidatorGen
