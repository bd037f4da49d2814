import ValidatorGen.Proofs.Compile.Value
import ValidatorGen.Proofs.Expression.Unambiguous

/-! Schemas with a hole. Main statement: the code of the schema in the hole stands in code that
depends on nothing but what is around the hole, or the hole is in the content of a string that is
not JSON, and then does not show at all. -/
namespace ValidatorGen

theorem Call.chars_unary (name : String) (arg : Arg) (message : Option String) :
    (unary name arg message).chars
      = name.toList ++ '(' :: arg.chars ++ messageTail [',', ' '] message ++ [')'] := by
  have hcall : (unary name arg message).chars
      = name.toList ++ '(' :: argChars ⟨name, [arg], message⟩ ++ [')'] := rfl
  rw [hcall, argChars_unary]
  simp

theorem commaJoin_append_cons (texts : List (List Char)) (text : List Char)
    (rest : List (List Char)) :
    commaJoin (texts ++ text :: rest)
      = texts.flatMap (· ++ [',', ' ']) ++ text ++ commaTail rest := by
  induction texts with
  | nil => simp [commaJoin_cons]
  | cons first texts ih =>
    have htail : commaTail (texts ++ text :: rest)
        = ',' :: ' ' :: commaJoin (texts ++ text :: rest) := by
      cases texts <;> simp [commaTail, commaJoin_cons]
    rw [List.cons_append, commaJoin_cons, htail, ih]
    simp

theorem objectLiteral_append_cons (texts : List (List Char)) (text : List Char)
    (rest : List (List Char)) :
    objectLiteral (texts ++ text :: rest) = ['{', ' '] ++ texts.flatMap (· ++ [',', ' '])
      ++ text ++ commaTail rest ++ [' ', '}'] := by
  have hne : (texts ++ text :: rest).isEmpty = false := by simp
  rw [objectLiteral, hne, commaJoin_append_cons]
  simp

theorem chainChars_append (calls calls' : List Call) :
    chainChars (calls ++ calls') = chainChars calls ++ chainChars calls' := by
  induction calls with
  | nil => rfl
  | cons call rest ih => simp [chainChars, ih]

theorem shapeTexts_append (entries entries' : List (String × Arg)) :
    shapeTexts (entries ++ entries') = shapeTexts entries ++ shapeTexts entries' := by
  induction entries with
  | nil => rfl
  | cons entry rest ih => simp [shapeTexts, ih]

/-- What a property has after the code of its schema. -/
def optionalChars (required : List String) (name : String) : List Char :=
  if required.contains name then [] else chainChars [.plain "optional"]

theorem chars_propertyValidator (required : List String) (name : String) (e : Expression) :
    (propertyValidator required name e).chars = e.chars ++ optionalChars required name := by
  unfold propertyValidator optionalChars
  split
  · exact (List.append_nil _).symm
  · cases e
    simp [Expression.push, Expression.chars, chainChars_append]

theorem shapeTexts_shape_cons (required : List String) (name : String) (node : Node)
    (rest : List (String × Node)) : shapeTexts (Node.shape required ((name, node) :: rest))
      = (Text.quoteChars name.toList ++ ':' :: ' '
          :: (node.validator.chars ++ optionalChars required name))
        :: shapeTexts (Node.shape required rest) := by
  rw [← chars_propertyValidator]
  rfl

theorem Node.shape_append (required : List String) (properties properties' : List (String × Node)) :
    shape required (properties ++ properties')
      = shape required properties ++ shape required properties' := List.map_append

/-- The inner text has something before it and after it that does not depend on the value. -/
def Encloses {α : Type} (inner outer : α → List Char) : Prop :=
  ∃ before after, ∀ a, outer a = before ++ inner a ++ after

namespace Encloses

variable {α : Type} {f g h : α → List Char}

theorem trans (hfg : Encloses f g) (hgh : Encloses g h) : Encloses f h := by
  obtain ⟨before, after, hg⟩ := hfg
  obtain ⟨before', after', hh⟩ := hgh
  exact ⟨before' ++ before, after ++ after', fun a => by simp [hg, hh]⟩

theorem item_commaJoin (f : α → List Char) (before after : List (List Char)) :
    Encloses f fun a => commaJoin (before ++ f a :: after) :=
  ⟨before.flatMap (· ++ [',', ' ']), commaTail after, fun a => commaJoin_append_cons _ (f a) _⟩

theorem entry_objectLiteral (f : α → List Char) (before after : List (List Char)) :
    Encloses f fun a => objectLiteral (before ++ f a :: after) :=
  (item_commaJoin f before after).trans ⟨['{', ' '], [' ', '}'], fun a => by simp [objectLiteral]⟩

theorem arg_unary (name : String) (arg : α → Arg) (message : Option String) :
    Encloses (fun a => (arg a).chars) fun a => (Call.unary name (arg a) message).chars :=
  ⟨name.toList ++ ['('], messageTail [',', ' '] message ++ [')'], fun a => by
    simp [Call.chars_unary]⟩

end Encloses

theorem Encloses.call_chain {α : Type} (base : Call) (before after : List Call) (call : α → Call) :
    Encloses (fun a => (call a).chars)
      fun a => (Expression.mk base (before ++ call a :: after)).chars := by
  refine ⟨libraryName ++ '.' :: base.chars ++ chainChars before ++ ['.'], chainChars after,
    fun a => ?_⟩
  simp [Expression.chars, chainChars_append, chainChars]

/-- One step on the way to a hole in a schema. -/
inductive Frame where
  | items (size : ListSize)
  | property (before : List (String × Node)) (name : String) (after : List (String × Node))
    (required : List String)
  | content (keywords : StringKeywords)

namespace Frame

def fill : Frame → Node → Node
  | .items size, node => .array size (some node)
  | .property before name after required, node =>
    .object (before ++ (name, node) :: after) required
  | .content keywords, node => .string keywords (some node)

/-- The content of a string counts only if it is JSON. -/
def live : Frame → Bool
  | .content keywords => keywords.hasJsonContent
  | .items _ | .property .. => true

end Frame

/-- The way to a hole at any depth, from the outside. -/
abbrev Context := List Frame

def Context.fill (c : Context) (node : Node) : Node := c.foldr Frame.fill node

namespace StringKeywords

theorem filled_slots_of_json {k : StringKeywords} (h : k.hasJsonContent) (e : Expression) :
    filled (k.slots (some e)) = filled [k.formatSlot.call?, k.transformCall?]
      ++ .unary "pipe" (.expression e) (k.messages.forKeyword .contentSchema)
        :: filled [k.patternCall?, k.minLengthCall?, k.maxLengthCall?] := by
  simp [slots, pipeCall?, h]

theorem slots_of_not_json {k : StringKeywords} (h : k.hasJsonContent = false)
    (content content' : Option Expression) : k.slots content = k.slots content' := by
  simp [slots, pipeCall?, h]

end StringKeywords

namespace Frame

/-- The code in front of the hole, which does not depend on what is in it. -/
def front : Frame → List Char
  | .items _ => libraryName ++ '.' :: "array".toList ++ ['(']
  | .property before name _ required =>
    libraryName ++ '.' :: "object".toList ++ ['(', '{', ' ']
      ++ (shapeTexts (Node.shape required before)).flatMap (· ++ [',', ' '])
      ++ Text.quoteChars name.toList ++ [':', ' ']
  | .content k =>
    (Expression.mk (.plain "string") (filled [k.formatSlot.call?, k.transformCall?])).chars
      ++ '.' :: "pipe".toList ++ ['(']

def back : Frame → List Char
  | .items size => ')' :: chainChars (filled size.slots)
  | .property _ name after required =>
    optionalChars required name ++ commaTail (shapeTexts (Node.shape required after))
      ++ [' ', '}', ')']
  | .content k =>
    messageTail [',', ' '] (k.messages.forKeyword .contentSchema)
      ++ ')' :: chainChars (filled [k.patternCall?, k.minLengthCall?, k.maxLengthCall?])

theorem chars_content {k : StringKeywords} (h : k.hasJsonContent) (e : Expression) :
    (Expression.mk (.plain "string") (filled (k.slots (some e)))).chars
      = (content k).front ++ e.chars ++ (content k).back := by
  rw [StringKeywords.filled_slots_of_json h]
  simp [front, back, Expression.chars, chainChars_append, chainChars, Call.chars_unary, Arg.chars]

/-- The validator of the schema in the hole shows as it is, with the same code around it. -/
theorem chars_fill {f : Frame} (h : f.live) (node : Node) :
    (f.fill node).validator.chars = f.front ++ node.validator.chars ++ f.back := by
  cases f with
  | items size =>
    rw [fill, Node.validator_array]
    simp [front, back, Expression.chars, Call.chars_unary, Arg.chars, messageTail]
  | property before name after required =>
    rw [fill, Node.validator_object, Node.shape_append]
    simp [front, back, Expression.ofBase, Expression.chars, Call.chars_unary, Arg.chars,
      shapeTexts_append, shapeTexts_shape_cons, objectLiteral_append_cons, chainChars, messageTail]
  | content k =>
    rw [fill, Node.validator_string]
    exact chars_content h node.validator

theorem validator_fill_of_dead {f : Frame} (h : f.live = false) (a b : Node) :
    (f.fill a).validator = (f.fill b).validator := by
  cases f with
  | items size => cases h
  | property before name after required => cases h
  | content keywords =>
    have hslots := StringKeywords.slots_of_not_json h (some a.validator) (some b.validator)
    simp [fill, Node.validator_string, hslots]

theorem validator_fill_congr (f : Frame) {a b : Node} (h : a.validator = b.validator) :
    (f.fill a).validator = (f.fill b).validator := by
  cases f with
  | items size => simp [fill, Node.validator_array, h]
  | property before name after required => simp [fill, Node.validator_object, Node.shape, h]
  | content keywords => simp [fill, Node.validator_string, h]

end Frame

theorem StringKeywords.content_encloses {k : StringKeywords} (h : k.hasJsonContent) :
    Encloses Expression.chars
      fun e => (Expression.mk (.plain "string") (filled (k.slots (some e)))).chars :=
  ⟨_, _, Frame.chars_content h⟩

namespace Context

def front (c : Context) : List Char := c.flatMap Frame.front

/-- The code after the hole, where the last step comes first. -/
def back (c : Context) : List Char := c.reverse.flatMap Frame.back

theorem chars_fill {c : Context} (h : ∀ f ∈ c, f.live) (node : Node) :
    (c.fill node).validator.chars = c.front ++ node.validator.chars ++ c.back := by
  induction c with
  | nil => simp [fill, front, back]
  | cons f c ih =>
    obtain ⟨hf, hc⟩ := List.forall_mem_cons.1 h
    have houter := Frame.chars_fill hf (fill c node)
    rw [ih hc] at houter
    simpa [fill, front, back] using houter

theorem fill_encloses {c : Context} (h : ∀ f ∈ c, f.live) :
    Encloses (fun node : Node => node.validator.chars)
      fun node => (c.fill node).validator.chars :=
  ⟨c.front, c.back, chars_fill h⟩

theorem validator_fill_of_dead {c : Context} (h : ∃ f ∈ c, f.live = false) (a b : Node) :
    (c.fill a).validator = (c.fill b).validator := by
  induction c with
  | nil => simp at h
  | cons f c ih =>
    obtain ⟨g, hg, hdead⟩ := h
    rcases List.mem_cons.1 hg with rfl | hg
    · exact Frame.validator_fill_of_dead hdead _ _
    · exact f.validator_fill_congr (ih ⟨g, hg, hdead⟩)

/-- Compilation is compositional: in a hole that counts a schema shows with its own code, in
surroundings that are the same for all schemas, and in one that does not count it makes no
difference. -/
theorem render_fill (c : Context) :
    ((∀ f ∈ c, f.live) → ∃ before after : String, ∀ node : Node,
        (c.fill node).validator.render = before ++ node.validator.render ++ after)
      ∧ ((∃ f ∈ c, f.live = false) → ∀ a b : Node,
        (c.fill a).validator = (c.fill b).validator) := by
  refine ⟨fun h => ?_, validator_fill_of_dead⟩
  obtain ⟨before, after, hchars⟩ := fill_encloses h
  refine ⟨.ofList before, .ofList after, fun node => ?_⟩
  simp [Expression.render, hchars, String.append_assoc]

/-- The content of the texts in a list that is an optional property. -/
theorem render_fill_payload :
    (∃ before after : String, ∀ node : Node,
        (Context.fill [.property [("id", .null)] "log" [("tag", .any)] ["id"], .items {},
          .content { contentMediaType := some "Application/JSON", maxLength := some 9 }]
          node).validator.render = before ++ node.validator.render ++ after)
      ∧ ∀ a b : Node, (Context.fill [.items {}, .content { contentMediaType := some "text/json5" },
          .items {}] a).validator
        = (Context.fill [.items {}, .content { contentMediaType := some "text/json5" },
          .items {}] b).validator :=
  ⟨(render_fill _).1 (by decide +kernel), (render_fill _).2 (by decide +kernel)⟩

end Context
end ValidatorGen
