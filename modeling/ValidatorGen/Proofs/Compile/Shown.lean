import ValidatorGen.Proofs.Compile.Chain
import ValidatorGen.Proofs.Compile.Context
import ValidatorGen.Proofs.Compile.Messages

/-! Where a custom message shows in code. Main statement: the message for a check stands in the code
of the check as it is quoted, and the code around it is the same for all messages. -/
namespace ValidatorGen

abbrev quotedChars (s : String) : List Char := Text.quoteChars s.toList

namespace Messages

def single (k : Keyword) (message : String) : Messages := ofList [(k.name, message)]

@[simp] theorem forKeyword_single (k other : Keyword) (message : String) :
    (single k message).forKeyword other = if other = k then some message else none := by
  by_cases h : other = k
  · simp [h, single, ofList, forKeyword]
  · simp [h, single, ofList, forKeyword]

end Messages

namespace StringKeywords

def withMessages (k : StringKeywords) (m : Messages) : StringKeywords := { k with messages := m }

variable (k : StringKeywords) (m : Messages)

@[simp] theorem messages_withMessages : (k.withMessages m).messages = m := rfl
@[simp] theorem knownFormat_withMessages : (k.withMessages m).knownFormat = k.knownFormat := rfl
@[simp] theorem knownEncoding_withMessages :
    (k.withMessages m).knownEncoding = k.knownEncoding := rfl

end StringKeywords

/-- The schema with other messages of its own. Schemas inside it keep theirs. -/
def Node.withMessages (m : Messages) : Node → Node
  | .string k content => .string (k.withMessages m) content
  | .integer b => .integer { b with messages := m }
  | .number b => .number { b with messages := m }
  | .array s items => .array { s with messages := m } items
  | .boolean => .boolean
  | .null => .null
  | .object properties required => .object properties required
  | .any => .any

/-- Whether a schema has a check that carries the message for a keyword. The check for base64 text
carries one for the format or one for the encoding. -/
def Node.shows : Node → Keyword → Bool
  | .string k _, .format => k.knownFormat.isSome
  | .string k _, .contentEncoding =>
    k.knownEncoding == some .base64
      && (k.knownFormat == none || k.knownFormat == some .binary)
  | node, k => node.constrains k

namespace Encloses

theorem message_call (name : String) (args : List Arg) :
    Encloses quotedChars fun s => (Call.mk name args (some s)).chars := by
  refine (item_commaJoin quotedChars (argTexts args) []).trans
    ⟨name.toList ++ ['('], [')'], fun s => ?_⟩
  simp [Call.chars]

theorem optionTexts_append (entries entries' : List (String × Arg)) :
    optionTexts (entries ++ entries') = optionTexts entries ++ optionTexts entries' := by
  induction entries with
  | nil => rfl
  | cons entry rest ih => simp [optionTexts, ih]

theorem message_options (name : String) (entries : List (String × Arg)) :
    Encloses quotedChars fun s => (Call.unary name (.optionsWith entries (some s)) none).chars := by
  have hentry : Encloses quotedChars fun s => "message".toList ++ ':' :: ' ' :: quotedChars s :=
    ⟨"message".toList ++ [':', ' '], [], fun s => by simp⟩
  have hoptions := hentry.trans (.entry_objectLiteral _ (optionTexts entries) [])
  have harg : Encloses quotedChars fun s => (Arg.optionsWith entries (some s)).chars := by
    simpa [Arg.optionsWith, Arg.chars, optionTexts_append, optionTexts] using hoptions
  exact harg.trans (.arg_unary name _ none)

end Encloses

/-- A slot is filled with a call that has the message in its code. -/
def SlotShows (slot : String → Option Call) : Prop :=
  ∃ call : String → Call, (∀ s, slot s = some (call s))
    ∧ Encloses quotedChars fun s => (call s).chars

theorem slotShows_map {α : Type} {value : Option α} (h : value.isSome) (name : String)
    (arg : α → Arg) : SlotShows fun s => value.map fun a => Call.unary name (arg a) (some s) := by
  obtain ⟨a, rfl⟩ := Option.isSome_iff_exists.1 h
  exact ⟨fun s => .unary name (arg a) (some s), fun _ => rfl, .message_call name [arg a]⟩

theorem slotShows_base64 : SlotShows fun s => some ⟨"base64", [], some s⟩ :=
  ⟨fun s => ⟨"base64", [], some s⟩, fun _ => rfl, .message_call "base64" []⟩

theorem slotShows_transform :
    SlotShows fun s => some (.unary "transform" (.code parseJsonCode) (some s)) :=
  ⟨fun s => .unary "transform" (.code parseJsonCode) (some s), fun _ => rfl,
    .message_call "transform" [.code parseJsonCode]⟩

theorem StringFormat.slotShows {f : StringFormat} (hf : f ≠ .binary) :
    SlotShows fun s => f.call? (some s) := by
  cases f with
  | dateTime => exact ⟨_, fun _ => rfl, .message_options "datetime" _⟩
  | ipv4 | ipv6 => exact ⟨_, fun _ => rfl, .message_options "ip" _⟩
  | email | ip | uri | uuid | time | date | duration =>
    exact ⟨_, fun _ => rfl, .message_call _ []⟩
  | binary => exact absurd rfl hf

/-- One of the slots has the message in its code, and the others are the same for all messages. -/
inductive SlotsShow : (String → List (Option Call)) → Prop
  | head {slot : String → Option Call} (after : List (Option Call)) :
    SlotShows slot → SlotsShow fun s => slot s :: after
  | tail (slot : Option Call) {slots : String → List (Option Call)} :
    SlotsShow slots → SlotsShow fun s => slot :: slots s

theorem SlotsShow.encloses {slots : String → List (Option Call)} (h : SlotsShow slots)
    (base : Call) (leading : List Call) :
    Encloses quotedChars fun s => (Expression.mk base (leading ++ filled (slots s))).chars := by
  induction h generalizing leading with
  | head after hslot =>
    obtain ⟨call, hcall, hchars⟩ := hslot
    simpa [hcall] using hchars.trans (.call_chain base leading (filled after) call)
  | tail slot _ ih =>
    -- What fills an earlier slot belongs to the front of the chain.
    simpa using ih (leading ++ slot.toList)

namespace StringKeywords

theorem slotShows_format {k : StringKeywords} {content : Option Node}
    (h : (Node.string k content).shows .format) :
    SlotShows fun s => (k.withMessages (.single .format s)).formatSlot.call? := by
  obtain ⟨f, hf⟩ := Option.isSome_iff_exists.1 h
  by_cases hbinary : f = .binary
  · subst hbinary
    simpa [formatSlot, base64Message, FormatSlot.call?, hf] using slotShows_base64
  · simpa [formatSlot, FormatSlot.call?, hf, hbinary] using f.slotShows hbinary

theorem slotShows_encoding {k : StringKeywords} {content : Option Node}
    (h : (Node.string k content).shows .contentEncoding) :
    SlotShows fun s => (k.withMessages (.single .contentEncoding s)).formatSlot.call? := by
  obtain ⟨hbase64, hf⟩ : k.knownEncoding = some .base64
      ∧ (k.knownFormat = none ∨ k.knownFormat = some .binary) := by
    simpa [Node.shows] using h
  simpa [formatSlot, base64Message, FormatSlot.call?, hf, hbase64] using slotShows_base64

/-- In the slot for the format only messages for the format and the encoding show. -/
theorem formatSlot_single (k : StringKeywords) (key : Keyword) (hformat : key ≠ .format)
    (hencoding : key ≠ .contentEncoding) (s : String) :
    (k.withMessages (.single key s)).formatSlot = k.withoutMessages.formatSlot := by
  have hmessage : (k.withMessages (.single key s)).base64Message = none := by
    simp [base64Message, hformat.symm, hencoding.symm]
  simp [formatSlot, hmessage, base64Message_withoutMessages, hformat.symm]

theorem slots_withMessages (k : StringKeywords) (m : Messages) (content : Option Expression) :
    (k.withMessages m).slots content = [(k.withMessages m).formatSlot.call?,
      if k.hasJsonContent then
        some (.unary "transform" (.code parseJsonCode) (m.forKeyword .contentMediaType))
      else none,
      if k.hasJsonContent then
        content.map fun e => .unary "pipe" (.expression e) (m.forKeyword .contentSchema)
      else none,
      k.pattern.map fun p => .unary "regex" (.code (regExpCode p)) (m.forKeyword .pattern),
      k.minLength.map fun n => .unary "min" (.count n) (m.forKeyword .minLength),
      k.maxLength.map fun n => .unary "max" (.count n) (m.forKeyword .maxLength)] := rfl

theorem slotsShow {k : StringKeywords} {content : Option Node} {key : Keyword}
    (h : (Node.string k content).shows key) :
    SlotsShow fun s => (k.withMessages (.single key s)).slots (content.map Node.validator) := by
  have hothers := k.formatSlot_single key
  simp only [slots_withMessages, Messages.forKeyword_single]
  cases key with
  | format =>
    simp only [reduceCtorEq, if_false]
    exact .head _ (slotShows_format h)
  | contentEncoding =>
    simp only [reduceCtorEq, if_false]
    exact .head _ (slotShows_encoding h)
  | contentMediaType =>
    have hjson : k.hasJsonContent = true := h
    simp only [hothers nofun nofun, hjson, reduceCtorEq, if_false, if_true]
    exact .tail _ (.head _ slotShows_transform)
  | contentSchema =>
    obtain ⟨hjson, hcontent⟩ := Bool.and_eq_true_iff.1 h
    have hvalidator : (content.map Node.validator).isSome := by simpa using hcontent
    simp only [hothers nofun nofun, hjson, reduceCtorEq, if_false, if_true]
    exact .tail _ (.tail _ (.head _ (slotShows_map hvalidator "pipe" .expression)))
  | pattern =>
    simp only [hothers nofun nofun, reduceCtorEq, if_false, if_true]
    exact .tail _ (.tail _ (.tail _ (.head _ (slotShows_map h "regex" _))))
  | minLength =>
    simp only [hothers nofun nofun, reduceCtorEq, if_false, if_true]
    exact .tail _ (.tail _ (.tail _ (.tail _ (.head _ (slotShows_map h "min" .count)))))
  | maxLength =>
    simp only [hothers nofun nofun, reduceCtorEq, if_false, if_true]
    exact .tail _ (.tail _ (.tail _ (.tail _ (.tail _ (.head _ (slotShows_map h "max" .count))))))
  | _ => cases h

end StringKeywords

theorem Bounds.slotsShow {b : Bounds} {key : Keyword} (h : b.constrains key) :
    SlotsShow fun s => slots { b with messages := .single key s } := by
  simp only [slots, slots.slot, Messages.forKeyword_single]
  cases key with
  | minimum =>
    simp only [reduceCtorEq, if_false, if_true]
    exact .head _ (slotShows_map h "gte" .number)
  | exclusiveMinimum =>
    simp only [reduceCtorEq, if_false, if_true]
    exact .tail _ (.head _ (slotShows_map h "gt" .number))
  | maximum =>
    simp only [reduceCtorEq, if_false, if_true]
    exact .tail _ (.tail _ (.head _ (slotShows_map h "lte" .number)))
  | exclusiveMaximum =>
    simp only [reduceCtorEq, if_false, if_true]
    exact .tail _ (.tail _ (.tail _ (.head _ (slotShows_map h "lt" .number))))
  | multipleOf =>
    simp only [reduceCtorEq, if_false, if_true]
    exact .tail _ (.tail _ (.tail _ (.tail _ (.head _ (slotShows_map h "multipleOf" .number)))))
  | _ => cases h

theorem ListSize.slotsShow {size : ListSize} {key : Keyword} (h : size.constrains key) :
    SlotsShow fun s => slots { size with messages := .single key s } := by
  simp only [slots, slots.slot, Messages.forKeyword_single]
  cases key with
  | minItems =>
    simp only [reduceCtorEq, if_false, if_true]
    exact .head _ (slotShows_map h "min" .count)
  | maxItems =>
    simp only [reduceCtorEq, if_false, if_true]
    exact .tail _ (.head _ (slotShows_map h "max" .count))
  | _ => cases h

/-- The message for a check stands in the code as it is quoted, and the code around it is the same
for all messages. -/
theorem Node.encloses_message {node : Node} {key : Keyword} (h : node.shows key) :
    Encloses quotedChars fun s => (node.withMessages (.single key s)).validator.chars := by
  cases node with
  | string k content =>
    simp only [withMessages, validator_string]
    exact (StringKeywords.slotsShow h).encloses _ []
  | integer b =>
    simp only [withMessages, validator_integer]
    exact (Bounds.slotsShow h).encloses _ [.plain "int"]
  | number b =>
    simp only [withMessages, validator_number]
    exact (Bounds.slotsShow h).encloses _ []
  | array size items =>
    simp only [withMessages, validator_array]
    exact (ListSize.slotsShow h).encloses _ []
  | boolean | null | object | any => cases h

end ValidatorGen
