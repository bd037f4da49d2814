import ValidatorGen.Proofs.Compile.Parts

/-! Where custom messages go. Main statement: messages change nothing but the messages of calls, and
every call carries the message that its own schema has for its own keyword, and no other one. -/
namespace ValidatorGen

def lastMessage? (entries : List (String × Arg)) : Option String :=
  match entries.getLast? with
  | some ("message", .text message) => some message
  | _ => none

def dropLastMessage (entries : List (String × Arg)) : List (String × Arg) :=
  if (lastMessage? entries).isSome then entries.dropLast else entries

def Arg.lastMessage? : Arg → Option String
  | .options entries => ValidatorGen.lastMessage? entries
  | _ => none

/-- All messages of a call, those in options and the last argument. -/
def Call.messages (call : Call) : List String :=
  call.args.flatMap (·.lastMessage?.toList) ++ call.message.toList

mutual

/-- The argument without any messages of calls. -/
def Arg.withoutMessages : Arg → Arg
  | .options entries => .options (dropLastMessage entries)
  | .shape entries => .shape (entriesWithoutMessages entries)
  | .expression e => .expression e.withoutMessages
  | .text s => .text s
  | .count n => .count n
  | .number x => .number x
  | .flag b => .flag b
  | .code s => .code s

def entriesWithoutMessages : List (String × Arg) → List (String × Arg)
  | [] => []
  | (name, arg) :: rest => (name, arg.withoutMessages) :: entriesWithoutMessages rest

def argsWithoutMessages : List Arg → List Arg
  | [] => []
  | arg :: rest => arg.withoutMessages :: argsWithoutMessages rest

def Call.withoutMessages : Call → Call
  | ⟨name, args, _⟩ => ⟨name, argsWithoutMessages args, none⟩

def callsWithoutMessages : List Call → List Call
  | [] => []
  | call :: rest => call.withoutMessages :: callsWithoutMessages rest

def Expression.withoutMessages : Expression → Expression
  | ⟨base, chain⟩ => ⟨base.withoutMessages, callsWithoutMessages chain⟩

end

namespace StringKeywords

def withoutMessages (k : StringKeywords) : StringKeywords := { k with messages := .empty }

@[simp] theorem messages_withoutMessages (k : StringKeywords) :
    k.withoutMessages.messages = .empty := rfl
@[simp] theorem knownFormat_withoutMessages (k : StringKeywords) :
    k.withoutMessages.knownFormat = k.knownFormat := rfl
@[simp] theorem knownEncoding_withoutMessages (k : StringKeywords) :
    k.withoutMessages.knownEncoding = k.knownEncoding := rfl
@[simp] theorem hasJsonContent_withoutMessages (k : StringKeywords) :
    k.withoutMessages.hasJsonContent = k.hasJsonContent := rfl

end StringKeywords

def Bounds.withoutMessages (b : Bounds) : Bounds := { b with messages := .empty }

def ListSize.withoutMessages (s : ListSize) : ListSize := { s with messages := .empty }

mutual

/-- The schema with no messages anywhere in it, dead parts included. -/
def Node.withoutMessages : Node → Node
  | .string k content => .string k.withoutMessages (nestedWithoutMessages content)
  | .integer b => .integer b.withoutMessages
  | .number b => .number b.withoutMessages
  | .boolean => .boolean
  | .null => .null
  | .array s items => .array s.withoutMessages (nestedWithoutMessages items)
  | .object properties required => .object (propertiesWithoutMessages properties) required
  | .any => .any

def nestedWithoutMessages : Option Node → Option Node
  | none => none
  | some node => some node.withoutMessages

def propertiesWithoutMessages : List (String × Node) → List (String × Node)
  | [] => []
  | (name, node) :: rest => (name, node.withoutMessages) :: propertiesWithoutMessages rest

end

/-- The calls of a kind of schema that carry a message, each with the keyword it is filed under. The
check for base64 text has two keywords and is left out. -/
def Kind.messageKeys : Kind → List (String × Keyword)
  | .string =>
    [("datetime", .format), ("email", .format), ("ip", .format), ("url", .format),
      ("uuid", .format), ("time", .format), ("date", .format), ("duration", .format),
      ("transform", .contentMediaType), ("pipe", .contentSchema), ("regex", .pattern),
      ("min", .minLength), ("max", .maxLength)]
  | .integer | .number =>
    [("gte", .minimum), ("gt", .exclusiveMinimum), ("lte", .maximum), ("lt", .exclusiveMaximum),
      ("multipleOf", .multipleOf)]
  | .array => [("min", .minItems), ("max", .maxItems)]
  | .boolean | .null | .object | .any => []

def Messages.forMethod (m : Messages) (kind : Kind) (method : String) : Option String :=
  (kind.messageKeys.lookup method).bind m.forKeyword

/-- The message that a call of the given name has to carry in the validator of a schema. -/
def Node.messageFor : Node → String → Option String
  | .string k _, method =>
    if method = "base64" then k.base64Message else k.messages.forMethod .string method
  | .integer b, method => b.messages.forMethod .integer method
  | .number b, method => b.messages.forMethod .number method
  | .array s _, method => s.messages.forMethod .array method
  | .boolean, _ | .null, _ | .object .., _ | .any, _ => none

/-- An expression has the messages of the part it comes from: none at its base, and at every other
call the one for that call. -/
structure LivePart.OwnMessages (p : LivePart) (e : Expression) : Prop where
  base : e.base.messages = []
  chain : ∀ call ∈ e.chain, call.messages = (p.node.messageFor call.name).toList

@[simp] theorem forKeyword_empty (k : Keyword) : Messages.empty.forKeyword k = none := rfl

section Options

variable {name : String} (hname : name ≠ "message") (arg : Arg) (message : Option String)
include hname

theorem lastMessage?_optionsWith :
    (Arg.optionsWith [(name, arg)] message).lastMessage? = message := by
  cases message <;> simp [Arg.optionsWith, Arg.lastMessage?, lastMessage?, hname]

theorem withoutMessages_optionsWith :
    (Arg.optionsWith [(name, arg)] message).withoutMessages = .optionsWith [(name, arg)] none := by
  cases message <;>
    simp [Arg.optionsWith, Arg.withoutMessages, dropLastMessage, lastMessage?, hname]

end Options

@[simp] theorem Call.withoutMessages_plain (name : String) :
    (plain name).withoutMessages = plain name := rfl

@[simp] theorem Call.withoutMessages_unary (name : String) (arg : Arg) (message : Option String) :
    (unary name arg message).withoutMessages = unary name arg.withoutMessages none := rfl

theorem callsWithoutMessages_eq_map (calls : List Call) :
    callsWithoutMessages calls = calls.map Call.withoutMessages := by
  induction calls with
  | nil => rfl
  | cons call rest ih => simp [callsWithoutMessages, ih]

theorem callsWithoutMessages_filled (slots : List (Option Call)) :
    callsWithoutMessages (filled slots) = filled (slots.map (Option.map Call.withoutMessages)) := by
  induction slots with
  | nil => rfl
  | cons slot rest ih =>
    rw [callsWithoutMessages_eq_map] at ih ⊢
    cases slot <;> simp [ih]

theorem propertyValidator_withoutMessages (required : List String) (name : String)
    (e : Expression) : (propertyValidator required name e).withoutMessages
      = propertyValidator required name e.withoutMessages := by
  cases e
  unfold propertyValidator
  split
  · rfl
  · simp [Expression.push, Expression.withoutMessages, callsWithoutMessages_eq_map]

theorem map_withoutMessages {α : Type} {name : String} {f g : α → Arg}
    (h : ∀ a, (f a).withoutMessages = g a) (value : Option α) (message : Option String) :
    (value.map fun a => Call.unary name (f a) message).map Call.withoutMessages
      = value.map fun a => .unary name (g a) none := by
  cases value <;> simp [h]

namespace StringKeywords

theorem base64Message_withoutMessages (k : StringKeywords) :
    k.withoutMessages.base64Message = none := by
  simp only [base64Message, messages_withoutMessages, forKeyword_empty, ite_self, Option.or_none]

theorem formatCall_withoutMessages (k : StringKeywords) :
    k.formatSlot.call?.map Call.withoutMessages = k.withoutMessages.formatSlot.call? := by
  simp only [formatSlot, base64Message_withoutMessages, knownFormat_withoutMessages,
    knownEncoding_withoutMessages, messages_withoutMessages, forKeyword_empty]
  split
  · split <;> rfl
  · cases k.knownFormat with
    | none => rfl
    | some f =>
      cases f <;>
        simp [FormatSlot.call?, StringFormat.call?, StringFormat.call?.ip, Call.withoutMessages,
          argsWithoutMessages, withoutMessages_optionsWith]

theorem transformCall_withoutMessages (k : StringKeywords) :
    k.transformCall?.map Call.withoutMessages = k.withoutMessages.transformCall? := by
  rw [transformCall?, transformCall?, hasJsonContent_withoutMessages]
  cases k.hasJsonContent <;> rfl

theorem pipeCall_withoutMessages (k : StringKeywords) (content : Option Expression) :
    (k.pipeCall? content).map Call.withoutMessages
      = k.withoutMessages.pipeCall? (content.map Expression.withoutMessages) := by
  rw [pipeCall?, pipeCall?, hasJsonContent_withoutMessages]
  cases k.hasJsonContent <;> cases content <;> rfl

theorem slots_withoutMessages (k : StringKeywords) (content : Option Expression) :
    (k.slots content).map (Option.map Call.withoutMessages)
      = k.withoutMessages.slots (content.map Expression.withoutMessages) := by
  have hpattern : k.patternCall?.map Call.withoutMessages = k.withoutMessages.patternCall? :=
    map_withoutMessages (fun _ => rfl) k.pattern _
  have hmin : k.minLengthCall?.map Call.withoutMessages = k.withoutMessages.minLengthCall? :=
    map_withoutMessages (fun _ => rfl) k.minLength _
  have hmax : k.maxLengthCall?.map Call.withoutMessages = k.withoutMessages.maxLengthCall? :=
    map_withoutMessages (fun _ => rfl) k.maxLength _
  simp [slots, formatCall_withoutMessages, transformCall_withoutMessages,
    pipeCall_withoutMessages, hpattern, hmin, hmax]

end StringKeywords

theorem Bounds.slots_withoutMessages (b : Bounds) :
    b.slots.map (Option.map Call.withoutMessages) = b.withoutMessages.slots := by
  have hslot (method : String) (k : Keyword) (value : Option Binary64) :
      (slots.slot b method k value).map Call.withoutMessages
        = slots.slot b.withoutMessages method k value := map_withoutMessages (fun _ => rfl) value _
  simp only [slots, List.map_cons, List.map_nil, hslot]
  rfl

theorem ListSize.slots_withoutMessages (s : ListSize) :
    s.slots.map (Option.map Call.withoutMessages) = s.withoutMessages.slots := by
  have hslot (method : String) (k : Keyword) (value : Option UInt64) :
      (slots.slot s method k value).map Call.withoutMessages
        = slots.slot s.withoutMessages method k value := map_withoutMessages (fun _ => rfl) value _
  simp only [slots, List.map_cons, List.map_nil, hslot]
  rfl

namespace Node

mutual

/-- It makes no difference whether messages are left out before or after compilation. -/
theorem validator_withoutMessages : (node : Node) →
    node.withoutMessages.validator = node.validator.withoutMessages
  | .string k content => by
    have hcontent := map_validator_withoutMessages content
    rw [withoutMessages, validator_string, validator_string, hcontent, ← k.slots_withoutMessages]
    simp [Expression.withoutMessages, callsWithoutMessages_filled]
  | .integer b => by
    rw [withoutMessages, validator_integer, validator_integer, ← b.slots_withoutMessages]
    simp [Expression.withoutMessages, callsWithoutMessages, callsWithoutMessages_filled]
  | .number b => by
    rw [withoutMessages, validator_number, validator_number, ← b.slots_withoutMessages]
    simp [Expression.withoutMessages, callsWithoutMessages_filled]
  | .boolean | .null | .any => rfl
  | .array s items => by
    have hitems := items_withoutMessages items
    rw [withoutMessages, validator_array, validator_array, hitems, ← s.slots_withoutMessages]
    simp [Expression.withoutMessages, callsWithoutMessages_filled, Arg.withoutMessages]
  | .object properties required => by
    have hshape := shape_withoutMessages required properties
    rw [withoutMessages, validator_object, validator_object, hshape]
    rfl

theorem map_validator_withoutMessages : (content : Option Node) →
    (nestedWithoutMessages content).map validator
      = (content.map validator).map Expression.withoutMessages
  | none => rfl
  | some node => by simp [nestedWithoutMessages, validator_withoutMessages node]

theorem items_withoutMessages : (items : Option Node) →
    ((nestedWithoutMessages items).getD .any).validator
      = (items.getD .any).validator.withoutMessages
  | none => rfl
  | some node => by simp [nestedWithoutMessages, validator_withoutMessages node]

theorem shape_withoutMessages (required : List String) : (properties : List (String × Node)) →
    shape required (propertiesWithoutMessages properties)
      = entriesWithoutMessages (shape required properties)
  | [] => rfl
  | (name, node) :: rest => by
    have hrest := shape_withoutMessages required rest
    have hnode := validator_withoutMessages node
    unfold shape at hrest ⊢
    simp [propertiesWithoutMessages, entriesWithoutMessages, Arg.withoutMessages, hrest, hnode,
      propertyValidator_withoutMessages]

end

end Node

theorem Call.messages_unary {name : String} {arg : Arg} (h : arg.lastMessage? = none)
    (message : Option String) : (unary name arg message).messages = message.toList := by
  simp [messages, unary, h]

theorem messages_of_mem_map {α : Type} {name : String} {f : α → Arg}
    (hf : ∀ a, (f a).lastMessage? = none) {messageFor : String → Option String}
    {message : Option String} (hmessage : messageFor name = message) {value : Option α}
    {call : Call} (hcall : call ∈ value.map fun a => Call.unary name (f a) message) :
    call.messages = (messageFor call.name).toList := by
  obtain ⟨a, -, rfl⟩ := Option.map_eq_some_iff.1 hcall
  rw [Call.messages_unary (hf a), ← hmessage]
  rfl

theorem StringFormat.messages_call? {f : StringFormat} {message : Option String} {call : Call}
    (h : f.call? message = some call) :
    Kind.string.messageKeys.lookup call.name = some .format ∧ call.name ≠ "base64"
      ∧ call.messages = message.toList := by
  cases f <;> simp only [call?, Option.some.injEq, reduceCtorEq] at h <;> subst h <;>
    simp [Kind.messageKeys, List.lookup_cons, Call.messages, call?.ip, Call.unary,
      lastMessage?_optionsWith]

namespace StringKeywords

theorem messages_formatCall (k : StringKeywords) (content : Option Node) :
    ∀ call ∈ k.formatSlot.call?,
      call.messages = ((Node.string k content).messageFor call.name).toList := by
  intro call hcall
  unfold formatSlot at hcall
  split at hcall
  · split at hcall
    · cases hcall
      rfl
    · cases hcall
  · cases hf : k.knownFormat with
    | none => simp [hf, FormatSlot.call?] at hcall
    | some f =>
      simp only [hf, Option.map_some, Option.getD_some, FormatSlot.call?, Option.mem_def] at hcall
      obtain ⟨hkey, hname, hmessages⟩ := f.messages_call? hcall
      simp [Node.messageFor, hname, Messages.forMethod, hkey, hmessages]

theorem messages_slots (k : StringKeywords) (content : Option Node) (e : Option Expression) :
    ∀ call ∈ filled (k.slots e),
      call.messages = ((Node.string k content).messageFor call.name).toList := by
  rw [forall_mem_filled]
  intro slot hslot call hcall
  simp only [slots, List.mem_cons, List.not_mem_nil, or_false] at hslot
  rcases hslot with rfl | rfl | rfl | rfl | rfl | rfl
  · exact k.messages_formatCall content call hcall
  · obtain ⟨-, hsome⟩ := Option.ite_none_right_eq_some.1 hcall
    cases hsome
    rfl
  · obtain ⟨-, hmap⟩ := Option.ite_none_right_eq_some.1 hcall
    exact messages_of_mem_map (fun _ => rfl) rfl hmap
  · exact messages_of_mem_map (fun _ => rfl) rfl hcall
  · exact messages_of_mem_map (fun _ => rfl) rfl hcall
  · exact messages_of_mem_map (fun _ => rfl) rfl hcall

end StringKeywords

theorem Bounds.messages_slots (b : Bounds) : ∀ call ∈ filled b.slots,
    call.messages = (b.messages.forMethod .number call.name).toList := by
  rw [forall_mem_filled]
  intro slot hslot call hcall
  simp only [slots, List.mem_cons, List.not_mem_nil, or_false] at hslot
  rcases hslot with rfl | rfl | rfl | rfl | rfl
  all_goals exact messages_of_mem_map (fun _ => rfl) rfl hcall

theorem ListSize.messages_slots (s : ListSize) : ∀ call ∈ filled s.slots,
    call.messages = (s.messages.forMethod .array call.name).toList := by
  rw [forall_mem_filled]
  intro slot hslot call hcall
  simp only [slots, List.mem_cons, List.not_mem_nil, or_false] at hslot
  rcases hslot with rfl | rfl
  all_goals exact messages_of_mem_map (fun _ => rfl) rfl hcall

namespace Node

theorem messageFor_optional (node : Node) : node.messageFor "optional" = none := by
  cases node <;> rfl

/-- The base of a validator carries no message, and each call of its chain carries its own. -/
theorem ownMessages_validator (node : Node) :
    LivePart.OwnMessages ⟨node, false⟩ node.validator := by
  cases node with
  | string k content =>
    rw [validator_string]
    exact ⟨rfl, k.messages_slots content _⟩
  | integer b =>
    rw [validator_integer]
    exact ⟨rfl, List.forall_mem_cons.2 ⟨rfl, b.messages_slots⟩⟩
  | number b =>
    rw [validator_number]
    exact ⟨rfl, b.messages_slots⟩
  | array s items =>
    rw [validator_array]
    exact ⟨rfl, s.messages_slots⟩
  | object properties required =>
    rw [validator_object]
    exact ⟨rfl, by simp [Expression.ofBase]⟩
  | boolean | null | any => exact ⟨rfl, fun _ hcall => nomatch hcall⟩

end Node

theorem LivePart.ownMessages (p : LivePart) : p.OwnMessages p.validator := by
  obtain ⟨hbase, hchain⟩ := p.node.ownMessages_validator
  unfold validator
  split
  · refine ⟨hbase, fun call hcall => ?_⟩
    rcases List.mem_append.1 hcall with hcall | hcall
    · exact hchain call hcall
    · rw [List.mem_singleton.1 hcall, Call.plain, p.node.messageFor_optional]
      rfl
  · exact ⟨hbase, hchain⟩

namespace Node

/-- Messages never leak: schemas that differ in nothing but messages have validators that differ in
nothing but messages, and each expression in a validator has the messages of its own schema, each at
the call for its own keyword. -/
theorem messages_never_leak (a : Node) :
    (∀ b : Node, a.withoutMessages = b.withoutMessages →
        a.validator.withoutMessages = b.validator.withoutMessages)
      ∧ List.Forall₂ LivePart.OwnMessages a.liveParts a.validator.parts := by
  refine ⟨fun b h => ?_, a.forall₂_parts LivePart.ownMessages⟩
  rw [← a.validator_withoutMessages, ← b.validator_withoutMessages, h]

/-- Two lists of addresses, one with messages of its own at every keyword that it has. -/
theorem messages_never_leak_addresses : ∃ a b : Node, a.withoutMessages = b.withoutMessages
    ∧ a.validator.same b.validator = false
    ∧ a.validator.withoutMessages = b.validator.withoutMessages
    ∧ List.Forall₂ LivePart.OwnMessages a.liveParts a.validator.parts := by
  let texts := Messages.ofList [("format", "no address"), ("minItems", "none"), ("min", "short")]
  let addresses (size address : Messages) : Node :=
    .array { minItems := some 1, messages := size }
      (some (.string { format := some "ipv4", minLength := some 7, messages := address } none))
  have hleak := messages_never_leak (addresses texts texts)
  have hdiffer : (addresses texts texts).validator.same (addresses .empty texts).validator
      = false := by decide +kernel
  exact ⟨addresses texts texts, addresses .empty texts, rfl, hdiffer, hleak.1 _ rfl, hleak.2⟩

end Node
end ValidatorGen
