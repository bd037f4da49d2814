import ValidatorGen.Proofs.Compile.Equivalence
import ValidatorGen.Proofs.Compile.Parts

/-! The order of calls. Main statement: throughout a validator, each constraint of a schema has
exactly one call, the calls stand in the order that is fixed for the kind, and only a property that
may be missing ends in one more. -/
namespace ValidatorGen

/-- What schemas of a kind can be constrained by, in the order of the calls. -/
def Kind.constraints : Kind → List Keyword
  | .string => [.format, .contentMediaType, .contentSchema, .pattern, .minLength, .maxLength]
  | .integer | .number => [.minimum, .exclusiveMinimum, .maximum, .exclusiveMaximum, .multipleOf]
  | .array => [.minItems, .maxItems]
  | .boolean | .null | .object | .any => []

/-- The calls that come before those of the constraints. -/
def Kind.leading : Kind → List Call
  | .integer => [.plain "int"]
  | _ => []

/-- The value is there, and the call has it as its argument. -/
def Carries {α : Type} (name : String) (arg : α → Arg) (value : Option α) (call : Call) : Prop :=
  ∃ x message, value = some x ∧ call = .unary name (arg x) message

namespace StringKeywords

/-- A format and an encoding are one constraint. -/
def constrains (k : StringKeywords) (content : Option Node) : Keyword → Bool
  | .format => k.knownFormat.isSome || k.knownEncoding == some .base64
  | .contentMediaType => k.hasJsonContent
  | .contentSchema => k.hasJsonContent && content.isSome
  | .pattern => k.pattern.isSome
  | .minLength => k.minLength.isSome
  | .maxLength => k.maxLength.isSome
  | _ => false

/-- Whether a call is the one that a constraint asks for, with some message or none. -/
def Checks (k : StringKeywords) (content : Option Node) : Keyword → Call → Prop
  | .format => fun call =>
    (∃ f message, k.knownFormat = some f ∧ f.call? message = some call)
      ∨ ((k.knownFormat = none ∨ k.knownFormat = some .binary)
        ∧ ∃ message, call = ⟨"base64", [], message⟩)
  | .contentMediaType => fun call =>
    ∃ message, call = .unary "transform" (.code parseJsonCode) message
  | .contentSchema => Carries "pipe" (fun node => .expression node.validator) content
  | .pattern => Carries "regex" (fun pattern => .code (regExpCode pattern)) k.pattern
  | .minLength => Carries "min" .count k.minLength
  | .maxLength => Carries "max" .count k.maxLength
  | _ => fun _ => False

end StringKeywords

namespace Bounds

def constrains (b : Bounds) : Keyword → Bool
  | .minimum => b.minimum.isSome
  | .exclusiveMinimum => b.exclusiveMinimum.isSome
  | .maximum => b.maximum.isSome
  | .exclusiveMaximum => b.exclusiveMaximum.isSome
  | .multipleOf => b.multipleOf.isSome
  | _ => false

def Checks (b : Bounds) : Keyword → Call → Prop
  | .minimum => Carries "gte" .number b.minimum
  | .exclusiveMinimum => Carries "gt" .number b.exclusiveMinimum
  | .maximum => Carries "lte" .number b.maximum
  | .exclusiveMaximum => Carries "lt" .number b.exclusiveMaximum
  | .multipleOf => Carries "multipleOf" .number b.multipleOf
  | _ => fun _ => False

end Bounds

namespace ListSize

def constrains (s : ListSize) : Keyword → Bool
  | .minItems => s.minItems.isSome
  | .maxItems => s.maxItems.isSome
  | _ => false

def Checks (s : ListSize) : Keyword → Call → Prop
  | .minItems => Carries "min" .count s.minItems
  | .maxItems => Carries "max" .count s.maxItems
  | _ => fun _ => False

end ListSize

namespace Node

/-- Whether a keyword constrains what a schema admits. -/
def constrains : Node → Keyword → Bool
  | .string k content => k.constrains content
  | .integer b | .number b => b.constrains
  | .array s _ => s.constrains
  | .boolean | .null | .object .. | .any => fun _ => false

def Checks : Node → Keyword → Call → Prop
  | .string k content => k.Checks content
  | .integer b | .number b => b.Checks
  | .array s _ => s.Checks
  | .boolean | .null | .object .. | .any => fun _ _ => False

def base : Node → Call
  | .string .. => .plain "string"
  | .integer _ | .number _ => .plain "number"
  | .boolean => .plain "boolean"
  | .null => .plain "null"
  | .array _ items => .unary "array" (.expression (items.getD .any).validator) none
  | .object properties required =>
    let entry (p : String × Node) :=
      (p.1, Arg.expression (LivePart.validator ⟨p.2, !required.contains p.1⟩))
    .unary "object" (.shape (properties.map entry)) none
  | .any => .plain "any"

end Node

/-- An expression has one call for each constraint of the part it comes from, in order, and one more
at its end if the part may be missing. -/
structure LivePart.InOrder (p : LivePart) (e : Expression) : Prop where
  base : e.base = p.node.base
  chain : ∃ checks, e.chain = p.node.kind.leading ++ checks
      ++ (if p.mayBeMissing then [.plain "optional"] else [])
    ∧ List.Forall₂ p.node.Checks (p.node.kind.constraints.filter p.node.constrains) checks
  distinct : e.chainNames.Nodup
  optional : "optional" ∈ e.chainNames ↔ p.mayBeMissing

/-- A slot for a constraint is filled if the constraint is there, and then with its call. -/
def Fills {α : Type} (present : α → Bool) (related : α → Call → Prop) (key : α)
    (slot : Option Call) : Prop :=
  slot.isSome = present key ∧ ∀ call ∈ slot, related key call

theorem forall₂_filled {α : Type} {present : α → Bool} {related : α → Call → Prop} {keys : List α}
    {slots : List (Option Call)} (h : List.Forall₂ (Fills present related) keys slots) :
    List.Forall₂ related (keys.filter present) (filled slots) := by
  induction h with
  | nil => exact .nil
  | @cons key slot keys slots hslot _ ih =>
    obtain ⟨hpresent, hcalls⟩ := hslot
    cases slot with
    | none =>
      rw [List.filter_cons_of_neg (by simp [← hpresent])]
      exact ih
    | some call =>
      rw [List.filter_cons_of_pos (by simp [← hpresent])]
      exact .cons (hcalls call rfl) ih

theorem fills_map {α β : Type} {present : β → Bool} {related : β → Call → Prop} {key : β}
    {name : String} {arg : α → Arg} {value : Option α} (hpresent : present key = value.isSome)
    (hrelated : related key = Carries name arg value) (message : Option String) :
    Fills present related key (value.map fun x => .unary name (arg x) message) := by
  rw [Fills, hrelated, hpresent]
  cases value with
  | none => simp
  | some x => simp [Carries]

namespace StringKeywords

theorem fills_format (k : StringKeywords) (content : Option Node) :
    Fills (k.constrains content) (k.Checks content) .format k.formatSlot.call? := by
  cases hf : k.knownFormat with
  | none =>
    by_cases he : k.knownEncoding = some .base64 <;>
      simp [Fills, constrains, Checks, formatSlot, FormatSlot.call?, hf, he]
  | some f =>
    cases f <;>
      simp [Fills, constrains, Checks, formatSlot, FormatSlot.call?, StringFormat.call?, hf]

theorem forall₂_slots (k : StringKeywords) (content : Option Node) :
    List.Forall₂ (Fills (k.constrains content) (k.Checks content)) Kind.string.constraints
      (k.slots (content.map Node.validator)) := by
  have hformat := k.fills_format content
  have htransform : Fills (k.constrains content) (k.Checks content) .contentMediaType
      k.transformCall? := by
    cases hjson : k.hasJsonContent <;>
      simp [Fills, constrains, Checks, transformCall?, hjson]
  have hpipe : Fills (k.constrains content) (k.Checks content) .contentSchema
      (k.pipeCall? (content.map Node.validator)) := by
    cases hjson : k.hasJsonContent <;> cases content <;>
      simp [Fills, constrains, Checks, pipeCall?, Carries, hjson]
  have hpattern : Fills (k.constrains content) (k.Checks content) .pattern k.patternCall? :=
    fills_map rfl rfl _
  have hmin : Fills (k.constrains content) (k.Checks content) .minLength k.minLengthCall? :=
    fills_map rfl rfl _
  have hmax : Fills (k.constrains content) (k.Checks content) .maxLength k.maxLengthCall? :=
    fills_map rfl rfl _
  exact .cons hformat (.cons htransform (.cons hpipe (.cons hpattern (.cons hmin (.cons hmax
    .nil)))))

end StringKeywords

theorem Bounds.forall₂_slots (b : Bounds) :
    List.Forall₂ (Fills b.constrains b.Checks) Kind.number.constraints b.slots := by
  simp only [Kind.constraints, slots, List.forall₂_cons]
  exact ⟨fills_map rfl rfl _, fills_map rfl rfl _, fills_map rfl rfl _, fills_map rfl rfl _,
    fills_map rfl rfl _, .nil⟩

theorem ListSize.forall₂_slots (s : ListSize) :
    List.Forall₂ (Fills s.constrains s.Checks) Kind.array.constraints s.slots := by
  simp only [Kind.constraints, slots, List.forall₂_cons]
  exact ⟨fills_map rfl rfl _, fills_map rfl rfl _, .nil⟩

theorem nodup_filled {names : List (List String)} (hnames : names.Pairwise List.Disjoint)
    {slots : List (Option Call)} (h : List.Forall₂ Named names slots) :
    ((filled slots).map Call.name).Nodup := by
  induction h with
  | nil => exact List.nodup_nil
  | @cons ns slot names slots hslot hrest ih =>
    obtain ⟨hns, hpair⟩ := List.pairwise_cons.1 hnames
    cases slot with
    | none => exact ih hpair
    | some call =>
      refine List.nodup_cons.2 ⟨fun hmem => ?_, ih hpair⟩
      obtain ⟨other, hother, hsame⟩ := List.mem_map.1 hmem
      obtain ⟨ns', hns', hmem'⟩ := exists_names_of_mem_filled hrest hother
      exact hns ns' hns' (named_some.1 hslot) (hsame ▸ hmem')

namespace Node

theorem nodup_chainNames (node : Node) : node.validator.chainNames.Nodup := by
  cases node with
  | string k content =>
    rw [validator_string]
    exact nodup_filled (by simp [StringKeywords.slotNames]) (k.named_slots _)
  | integer b =>
    rw [validator_integer]
    refine List.nodup_cons.2 ⟨fun hmem => ?_, ?_⟩
    · obtain ⟨call, hcall, hname⟩ := List.mem_map.1 hmem
      have hbound := name_mem_of_mem_filled b.named_slots hcall
      simp [hname, Bounds.slotNames, Call.plain] at hbound
    · exact nodup_filled (by simp [Bounds.slotNames]) b.named_slots
  | number b =>
    rw [validator_number]
    exact nodup_filled (by simp [Bounds.slotNames]) b.named_slots
  | array s items =>
    rw [validator_array]
    exact nodup_filled (by simp [ListSize.slotNames]) s.named_slots
  | object properties required =>
    rw [validator_object]
    exact List.nodup_nil
  | boolean | null | any => exact List.nodup_nil

theorem base_validator (node : Node) : node.validator.base = node.base := by
  cases node with
  | string k content => rw [validator_string, base]
  | integer b => rw [validator_integer, base]
  | number b => rw [validator_number, base]
  | array s items => rw [validator_array, base]
  | object properties required =>
    rw [validator_object, base, shape]
    simp only [propertyValidator_eq]
    rfl
  | boolean | null | any => rfl

theorem exists_checks (node : Node) : ∃ checks, node.validator.chain = node.kind.leading ++ checks
    ∧ List.Forall₂ node.Checks (node.kind.constraints.filter node.constrains) checks := by
  cases node with
  | string k content =>
    rw [validator_string]
    exact ⟨_, rfl, forall₂_filled (k.forall₂_slots content)⟩
  | integer b =>
    rw [validator_integer]
    exact ⟨_, rfl, forall₂_filled b.forall₂_slots⟩
  | number b =>
    rw [validator_number]
    exact ⟨_, rfl, forall₂_filled b.forall₂_slots⟩
  | array s items =>
    rw [validator_array]
    exact ⟨_, rfl, forall₂_filled s.forall₂_slots⟩
  | object properties required =>
    rw [validator_object]
    exact ⟨[], rfl, .nil⟩
  | boolean | null | any => exact ⟨[], rfl, .nil⟩

end Node

theorem LivePart.inOrder (p : LivePart) : p.InOrder p.validator := by
  obtain ⟨checks, hchain, hchecks⟩ := p.node.exists_checks
  have hbase := p.node.base_validator
  have hnodup := p.node.nodup_chainNames
  have hoptional := p.node.optional_not_mem_chainNames
  obtain ⟨node, mayBeMissing⟩ := p
  cases mayBeMissing with
  | false =>
    rw [validator_present]
    exact ⟨hbase, ⟨checks, by simpa using hchain, hchecks⟩, hnodup, by simpa using hoptional⟩
  | true =>
    have hne : ∀ name ∈ node.validator.chainNames, name ≠ "optional" := fun name hname heq =>
      hoptional (heq ▸ hname)
    rw [validator_missing]
    refine ⟨hbase, ⟨checks, ?_, hchecks⟩, ?_, ?_⟩
    · simp [Expression.push, hchain]
    · simpa [List.nodup_append, Call.plain] using ⟨hnodup, hne⟩
    · simp [Call.plain]

namespace Node

/-- Every constraint yields exactly one call, in a fixed order, in each expression of the validator
of a schema. -/
theorem calls_in_order (node : Node) :
    List.Forall₂ LivePart.InOrder node.liveParts node.validator.parts :=
  node.forall₂_parts LivePart.inOrder

end Node
end ValidatorGen
