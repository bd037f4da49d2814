import ValidatorGen.Expression.Render
import ValidatorGen.Proofs.Compile.Value
import ValidatorGen.Proofs.Schema.Finite

/-! Induction over validators. Main statement: what is true of every expression made of the calls
that compilation gives, if it is true of the expressions inside them, is true of every validator. -/
namespace ValidatorGen

/-- Names of calls that have no argument. -/
def bareNames : List String :=
  ["string", "number", "boolean", "null", "any", "int", "optional", "email", "ip", "url", "uuid",
    "time", "date", "duration", "base64"]

/-- Names of the checks of a bound. -/
def boundNames : List String := ["gte", "gt", "lte", "lt", "multipleOf"]

def regExpCode (pattern : String) : String := "new RegExp(" ++ Text.quote pattern ++ ")"

/-- The options that the call of a name takes, with a message or without. -/
def FitOptions (name : String) (entries : List (String × Arg)) : Prop :=
  ∃ message,
    name = "datetime" ∧ Arg.options entries = .optionsWith [("offset", .flag true)] message
    ∨ ∃ version, name = "ip"
      ∧ Arg.options entries = .optionsWith [("version", .text version)] message

/-- The calls that compilation gives. The numbers in them have one property, the expressions inside
them another. -/
inductive Call.Made (N : Binary64 → Prop) (P : Expression → Prop) : Call → Prop
  | bare {name : String} (h : name ∈ bareNames) (message : Option String) :
    Made N P ⟨name, [], message⟩
  | count {name : String} (h : name = "min" ∨ name = "max") (n : UInt64) (message : Option String) :
    Made N P (.unary name (.count n) message)
  | number {name : String} (h : name ∈ boundNames) {x : Binary64} (hx : N x)
    (message : Option String) :
    Made N P (.unary name (.number x) message)
  | options {name : String} {entries : List (String × Arg)} (h : FitOptions name entries) :
    Made N P (.unary name (.options entries) none)
  | parseJson (message : Option String) :
    Made N P (.unary "transform" (.code parseJsonCode) message)
  | regExp (pattern : String) (message : Option String) :
    Made N P (.unary "regex" (.code (regExpCode pattern)) message)
  | nested {name : String} (h : name = "array" ∨ name = "pipe") {e : Expression} (he : P e)
    (message : Option String) : Made N P (.unary name (.expression e) message)
  | shape {entries : List (String × Expression)} (h : ∀ entry ∈ entries, P entry.2) :
    Made N P
      (.unary "object" (.shape (entries.map fun entry => (entry.1, .expression entry.2))) none)

structure Expression.Made (N : Binary64 → Prop) (P : Expression → Prop) (e : Expression) :
    Prop where
  base : e.base.Made N P
  chain : ∀ call ∈ e.chain, call.Made N P

variable {N : Binary64 → Prop} {P : Expression → Prop}

theorem Call.made_plain {name : String} (h : name ∈ bareNames) : (plain name).Made N P :=
  .bare h none

theorem Expression.Made.propertyValidator {e : Expression} (h : e.Made N P) (required : List String)
    (name : String) : (propertyValidator required name e).Made N P := by
  unfold ValidatorGen.propertyValidator
  split
  · exact h
  · have hoptional : (Call.plain "optional").Made N P := Call.made_plain (by decide)
    exact ⟨h.base, by simpa [push, or_imp, forall_and] using ⟨h.chain, hoptional⟩⟩

theorem FormatSlot.made_call? (slot : FormatSlot) : ∀ call ∈ slot.call?, call.Made N P := by
  intro call hcall
  cases slot with
  | none => cases hcall
  | base64 message =>
    cases hcall
    exact .bare (by decide) message
  | format f message =>
    cases f <;> simp only [FormatSlot.call?, StringFormat.call?, Option.mem_def, Option.some.injEq,
      reduceCtorEq] at hcall <;> subst hcall
    case dateTime => exact .options ⟨message, .inl ⟨rfl, rfl⟩⟩
    case ipv4 => exact .options ⟨message, .inr ⟨"v4", rfl, rfl⟩⟩
    case ipv6 => exact .options ⟨message, .inr ⟨"v6", rfl, rfl⟩⟩
    all_goals exact .bare (by decide) message

theorem StringKeywords.made_slots (k : StringKeywords) {content : Option Expression}
    (h : ∀ e ∈ content, P e) : ∀ call ∈ filled (k.slots content), call.Made N P := by
  have htransform : ∀ call ∈ k.transformCall?, call.Made N P := by
    intro call hcall
    obtain ⟨-, hsome⟩ := Option.ite_none_right_eq_some.1 hcall
    cases hsome
    exact .parseJson _
  have hpipe : ∀ call ∈ k.pipeCall? content, call.Made N P := by
    intro call hcall
    obtain ⟨-, hmap⟩ := Option.ite_none_right_eq_some.1 hcall
    obtain ⟨e, he, rfl⟩ := Option.map_eq_some_iff.1 hmap
    exact .nested (.inr rfl) (h e he) _
  have hpattern : ∀ call ∈ k.patternCall?, call.Made N P := by
    intro call hcall
    obtain ⟨pattern, -, rfl⟩ := Option.map_eq_some_iff.1 hcall
    exact .regExp pattern _
  have hmin : ∀ call ∈ k.minLengthCall?, call.Made N P := by
    intro call hcall
    obtain ⟨n, -, rfl⟩ := Option.map_eq_some_iff.1 hcall
    exact .count (.inl rfl) n _
  have hmax : ∀ call ∈ k.maxLengthCall?, call.Made N P := by
    intro call hcall
    obtain ⟨n, -, rfl⟩ := Option.map_eq_some_iff.1 hcall
    exact .count (.inr rfl) n _
  simp only [forall_mem_filled, slots, List.forall_mem_cons]
  exact ⟨k.formatSlot.made_call?, htransform, hpipe, hpattern, hmin, hmax, List.forall_mem_nil _⟩

theorem Bounds.made_slots {b : Bounds} (h : b.Every N) :
    ∀ call ∈ filled b.slots, call.Made N P := by
  have hslot {method : String} (hmethod : method ∈ boundNames) (k : Keyword)
      {value : Option Binary64} (hvalue : ∀ x ∈ value, N x) :
      ∀ call ∈ slots.slot b method k value, call.Made N P := by
    intro call hcall
    obtain ⟨x, hx, rfl⟩ := Option.map_eq_some_iff.1 hcall
    exact .number hmethod (hvalue x hx) _
  simp only [Every, List.forall_mem_cons] at h
  obtain ⟨hminimum, hmaximum, hexclusiveMinimum, hexclusiveMaximum, hmultipleOf, -⟩ := h
  simp only [forall_mem_filled, slots, List.forall_mem_cons]
  exact ⟨hslot (by decide) _ ‹_›, hslot (by decide) _ ‹_›, hslot (by decide) _ ‹_›,
    hslot (by decide) _ ‹_›, hslot (by decide) _ ‹_›, List.forall_mem_nil _⟩

theorem ListSize.made_slots (s : ListSize) : ∀ call ∈ filled s.slots, call.Made N P := by
  have hslot {method : String} (hmethod : method = "min" ∨ method = "max") (k : Keyword)
      (value : Option UInt64) : ∀ call ∈ slots.slot s method k value, call.Made N P := by
    intro call hcall
    obtain ⟨n, -, rfl⟩ := Option.map_eq_some_iff.1 hcall
    exact .count hmethod n _
  simp only [forall_mem_filled, slots, List.forall_mem_cons]
  exact ⟨hslot (.inl rfl) _ _, hslot (.inr rfl) _ _, List.forall_mem_nil _⟩

/-- A property that spreads from the expressions inside an expression to the expression itself. -/
def Spreads (N : Binary64 → Prop) (P : Expression → Prop) : Prop :=
  ∀ e : Expression, e.Made N P → P e

namespace Node

mutual

theorem made_validator (h : Spreads N P) :
    (node : Node) → node.EveryBound N → node.validator.Made N P
  | .string k content, hN => by
    rw [validator_string]
    exact ⟨Call.made_plain (by decide), k.made_slots (holds_content h content hN)⟩
  | .integer b, hN => by
    rw [validator_integer]
    exact ⟨Call.made_plain (by decide),
      List.forall_mem_cons.2 ⟨Call.made_plain (by decide), Bounds.made_slots hN⟩⟩
  | .number b, hN => by
    rw [validator_number]
    exact ⟨Call.made_plain (by decide), Bounds.made_slots hN⟩
  | .boolean, _ | .null, _ | .any, _ => ⟨Call.made_plain (by decide), nofun⟩
  | .array size items, hN => by
    rw [validator_array]
    exact ⟨.nested (.inl rfl) (holds_items h items hN) none, size.made_slots⟩
  | .object properties required, hN => by
    have hshape : shape required properties
        = (properties.map fun p => (p.1, propertyValidator required p.1 p.2.validator)).map
          fun entry => (entry.1, Arg.expression entry.2) := by
      simp [shape]
    rw [validator_object, hshape]
    refine ⟨.shape ?_, nofun⟩
    rw [List.forall_mem_map]
    exact holds_properties h required properties hN

theorem holds_content (h : Spreads N P) :
    (content : Option Node) → EveryNested N content → ∀ e ∈ content.map validator, P e
  | none, _ => nofun
  | some node, hN => by
    rintro _ ⟨⟩
    exact h _ (made_validator h node hN)

theorem holds_items (h : Spreads N P) :
    (items : Option Node) → EveryNested N items → P (items.getD .any).validator
  | none, _ => h _ ⟨Call.made_plain (by decide), nofun⟩
  | some node, hN => h _ (made_validator h node hN)

theorem holds_properties (h : Spreads N P) (required : List String) :
    (properties : List (String × Node)) → EveryProperty N properties →
    ∀ p ∈ properties, P (propertyValidator required p.1 p.2.validator)
  | [], _ => nofun
  | (name, node) :: rest, hN => by
    have hnode := (made_validator h node hN.1).propertyValidator required name
    exact List.forall_mem_cons.2 ⟨h _ hnode, holds_properties h required rest hN.2⟩

end

end Node

theorem optionTexts_eq_map (entries : List (String × Arg)) :
    optionTexts entries
      = entries.map fun entry => entry.1.toList ++ ':' :: ' ' :: entry.2.chars := by
  induction entries with
  | nil => rfl
  | cons entry rest ih => rw [optionTexts, ih, List.map_cons]

theorem shapeTexts_eq_map (entries : List (String × Arg)) :
    shapeTexts entries
      = entries.map fun entry => Text.quoteChars entry.1.toList ++ ':' :: ' ' :: entry.2.chars := by
  induction entries with
  | nil => rfl
  | cons entry rest ih => rw [shapeTexts, ih, List.map_cons]

theorem argTexts_eq_map (args : List Arg) : argTexts args = args.map Arg.chars := by
  induction args with
  | nil => rfl
  | cons arg rest ih => rw [argTexts, ih, List.map_cons]

theorem chainChars_eq_flatMap (calls : List Call) :
    chainChars calls = (calls.map Call.chars).flatMap ('.' :: ·) := by
  induction calls with
  | nil => rfl
  | cons call rest ih => rw [chainChars, ih, List.map_cons, List.flatMap_cons]

end ValidatorGen
