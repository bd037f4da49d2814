import ValidatorGen.Proofs.Compile.Shown
import ValidatorGen.Proofs.Reading.Around
import ValidatorGen.Proofs.Reading.Insertion
import ValidatorGen.Proofs.Schema.Fields

/-! Quoted texts on their way from the text of a schema to code. Main statement: what is quoted is
read as it was, up to its last quote, and so patterns, messages and names of properties stand in the
code just as they stood in the schema. -/
namespace ValidatorGen

open Json

/-- Reads the literal of a text off the front of any text, and nothing more. -/
def TakesQuoted {α : Type} (read : Reader α) (result : String → α) : Prop :=
  ∀ s u : String, read (Text.quote s ++ u).toList = .ok (result s, u.toList)

namespace Reader

variable {α β : Type}

theorem takesQuoted_iff {read : Reader α} {result : String → α} :
    TakesQuoted read result ↔ ∀ s u : String,
      read.outcome ('"' :: (Text.bodyChars (Text.quotedPieces s.toList) ++ '"' :: u.toList))
        = .ok (result s, u.toList) := by
  have hquote (s u : String) : (Text.quote s ++ u).toList
      = '"' :: (Text.bodyChars (Text.quotedPieces s.toList) ++ '"' :: u.toList) := by
    simp [quoteChars_eq_quotedPieces]
  simp only [TakesQuoted, hquote, outcome_eq_ok_iff]

/-- The quote that ends the literal is found, since no piece of a quoted text starts with one. -/
theorem outcome_text_quoted (s : String) (rest : List Char) :
    text.outcome (Text.bodyChars (Text.quotedPieces s.toList) ++ '"' :: rest) = .ok (s, rest) := by
  rw [outcome_text (Text.proper_quotedPieces s.toList), Text.decode_quotedPieces, Verdict.map_ok,
    String.ofList_toList]

theorem takesQuoted_head : TakesQuoted head .text := by
  refine takesQuoted_iff.2 fun s u => ?_
  rw [outcome_head_quote, outcome_text_quoted, Verdict.map_ok]

theorem takesQuoted_name : TakesQuoted nextName.name some := by
  refine takesQuoted_iff.2 fun s u => ?_
  rw [outcome_name (Text.proper_quotedPieces s.toList), Text.decode_quotedPieces, Verdict.map_ok,
    String.ofList_toList]

theorem takesQuoted_afterHead {next : Head → Reader β} {result : String → β}
    (h : ∀ s, next (.text s) = pure (result s)) : TakesQuoted (head >>= next) result := by
  refine takesQuoted_iff.2 fun s u => ?_
  rw [outcome_bind, takesQuoted_iff.1 takesQuoted_head s u, Verdict.ok_bind, h, outcome_pure]

end Reader

theorem takesQuoted_text (levels : Nat) : TakesQuoted (Shape.read levels .text) some := by
  refine Reader.takesQuoted_afterHead fun s => ?_
  cases levels <;> rfl

theorem takesQuoted_readName : TakesQuoted readName id := Reader.takesQuoted_afterHead fun _ => rfl

theorem Messages.takesQuoted_readEntry (levels : Nat) : TakesQuoted (readEntry levels) some :=
  Reader.takesQuoted_afterHead fun _ => rfl

def patternText (pattern : String) : String :=
  "\x7b\"type\":\"string\",\"pattern\":" ++ Text.quote pattern ++ "\x7d"

def patternCode (pattern : String) : String :=
  "z.string().regex(new RegExp(" ++ Text.quote pattern ++ "))"

theorem value_generate_of_isTextOf {text : String} {form : Form} (h : IsTextOf form text.toList)
    {node : Node} (hform : Node.ofForm maxLevels form = .ok node) :
    (generate text {}).value = .ok node.validator.render :=
  value_generate_of_parse (Node.parse_of_isTextOf h hform) {}

theorem Node.ofForm_pattern (pattern : String) :
    Node.ofForm maxLevels (.ofMembers [("type", .ofText "string"), ("pattern", .ofText pattern)])
      = .ok (.string { pattern := some pattern } none) := by
  have hscalar : (Form.ofText pattern).IsScalar := trivial
  have hvalue : Shape.ofForm (maxLevels - 1) .text (.ofText pattern) = .ok (some pattern) := by
    rw [Shape.ofForm_of_isScalar _ _ hscalar, head_ofText]
    rfl
  exact Node.ofForm_typed "string" (k := .pattern) (by decide) hvalue

theorem Node.validator_pattern (pattern : String) :
    (Node.string { pattern := some pattern } none).validator
      = ⟨.plain "string", [Call.unary "regex" (.code (regExpCode pattern)) none]⟩ := by
  rw [validator_string]
  rfl

theorem render_pattern (pattern : String) :
    Expression.render ⟨.plain "string", [Call.unary "regex" (.code (regExpCode pattern)) none]⟩
      = patternCode pattern := by
  have hfront : "z.string().regex(new RegExp(".toList
      = libraryName ++ '.' :: ("string".toList ++ '(' :: ')' :: '.' :: ("regex".toList
        ++ '(' :: "new RegExp(".toList)) := by decide
  have hback : "))".toList = ")".toList ++ [')'] := by decide
  unfold patternCode
  apply String.toList_injective
  simp [Expression.render, Expression.chars, Call.chars, chainChars, argTexts, Arg.chars,
    Call.plain, Call.unary, commaJoin, regExpCode, hfront, hback]

theorem generate_pattern (pattern : String) :
    (generate (patternText pattern) {}).value = .ok (patternCode pattern) := by
  have htext : IsTextOf (.ofText pattern) (Text.quote pattern).toList := by
    rw [Text.toList_quote]
    exact isTextOf_quoteChars pattern
  have hwritten : IsTextOf (.ofMembers [("type", .ofText "string"), ("pattern", .ofText pattern)])
      (patternText pattern).toList := Site.isTextOf_typed (by decide) htext
  rw [value_generate_of_isTextOf hwritten (Node.ofForm_pattern pattern), Node.validator_pattern,
    render_pattern]

section Message

theorem Record.eq_of_foldMembers {value : (s : Shape) → Form → Verdict s.Value}
    {members : List (List Text.Piece × Form)} {k : Keyword}
    (hne : ∀ member ∈ members, Text.decode member.1 ≠ .ok k.name.toList) {r r' : Record}
    (h : foldMembers (memberOfForm value) r members = .ok r') : r' k = r k := by
  induction members generalizing r with
  | nil =>
    cases h
    rfl
  | cons member members ih =>
    obtain ⟨pieces, form⟩ := member
    obtain ⟨hname, hrest⟩ := List.forall_mem_cons.1 hne
    rw [foldMembers] at h
    cases hdecode : Text.decode pieces with
    | error c => simp [hdecode] at h
    | ok chars =>
      simp only [hdecode, Verdict.within_ok, Verdict.ok_bind] at h
      cases hmember : r.memberOfForm value (.ofList chars) form with
      | error c => simp [hmember] at h
      | ok next =>
        simp only [hmember, Verdict.ok_bind] at h
        have hchars : String.ofList chars ≠ k.name := by
          intro heq
          rw [← heq, String.toList_ofList] at hname
          exact hname hdecode
        have hadd : r.addField (fun s form => (value s form).toOption) (.ofList chars, form)
            = some next := by rw [← toOption_memberOfForm, hmember]; rfl
        rw [ih hrest h, addField_of_ne hadd hchars]

theorem Record.memberOfForm_of_ok {value : (s : Shape) → Form → Verdict s.Value} {r : Record}
    {k : Keyword} (hk : r.has k = false) {form : Form} {v : k.shape.Value}
    (h : value k.shape form = .ok v) : r.memberOfForm value k.name form = .ok (r.set k v) := by
  rw [memberOfForm_name value r hk, h]
  rfl

theorem Node.ofRecord_set_errorMessage (r : Record) (m : Messages) :
    ofRecord (r.set .errorMessage m) = (ofRecord r).withMessages m := by
  have htype : (r.set .errorMessage m).value .type = r.value .type := rfl
  unfold ofRecord
  rw [htype]
  cases Kind.ofType (r.value .type) <;> rfl

theorem Messages.ofForm_single (levels : Nat) (k : Keyword) (message : String) :
    ofForm (levels + 1) (.ofMembers [(k.name, .ofText message)]) = .ok (.single k message) := by
  have hentry : entryOfForm levels (.ofText message) = .ok (some message) := by
    have hhead : entryOfForm levels (.ofText message)
        = (Form.ofText message).head >>= entryOfHead := rfl
    rw [hhead, head_ofText]
    rfl
  have hmember : memberOfForm levels .empty k.name (.ofText message) = .ok (.single k message) := by
    rw [memberOfForm, hentry]
    rfl
  rw [Form.ofMembers, ofForm, foldMembers_ofMembers]
  simp only [List.foldlM_cons, List.foldlM_nil, hmember, Verdict.ok_bind]
  rfl

/-- A message that is added to a schema without messages is its only one. -/
theorem Node.ofForm_message {levels : Nat} {members : List (List Text.Piece × Form)} {node : Node}
    (hne : ∀ member ∈ members, Text.decode member.1 ≠ .ok Keyword.errorMessage.name.toList)
    (h : Node.ofForm (levels + 2) (.object members) = .ok node) (k : Keyword) (message : String) :
    Node.ofForm (levels + 2) (.object (members ++
        [(Text.quotedPieces Keyword.errorMessage.name.toList,
          .ofMembers [(k.name, .ofText message)])]))
      = .ok (node.withMessages (.single k message)) := by
  have hread := eq_ok_of_requiredNode h
  rw [Shape.ofForm] at hread
  cases hmembers : foldMembers (Record.memberOfForm (Shape.ofForm (levels + 1))) .empty members with
  | error c => simp [hmembers] at hread
  | ok r =>
    simp only [hmembers, Verdict.map_ok, Except.ok.injEq, Function.comp, Option.some.injEq] at hread
    -- A second member for the messages would be refused, but there is no first one.
    have hnone : r .errorMessage = none := Record.eq_of_foldMembers hne hmembers
    have hhas : r.has .errorMessage = false := by
      rw [Record.has, hnone]
      rfl
    have hmessages := Shape.ofForm_messages (levels + 1) (.ofMembers [(k.name, .ofText message)])
    have hvalue := hmessages.trans (Messages.ofForm_single levels k message)
    have hlast : r.memberOfForm (Shape.ofForm (levels + 1)) Keyword.errorMessage.name
        (.ofMembers [(k.name, .ofText message)]) = .ok (r.set .errorMessage (.single k message)) :=
      Record.memberOfForm_of_ok hhas hvalue
    have hadded : foldMembers (Record.memberOfForm (Shape.ofForm (levels + 1))) .empty (members ++
        [(Text.quotedPieces Keyword.errorMessage.name.toList,
          .ofMembers [(k.name, .ofText message)])])
        = .ok (r.set .errorMessage (.single k message)) := by
      rw [foldMembers_append, hmembers, Verdict.ok_bind, foldMembers, Text.decode_quotedPieces]
      simp only [Verdict.within_ok, Verdict.ok_bind, String.ofList_toList, hlast, foldMembers]
    rw [Node.ofForm, Shape.ofForm, hadded, ← hread, ← ofRecord_set_errorMessage]
    rfl

end Message

/-- The front of the text of a schema, up to where its last bracket would close it. It has members,
none of which holds its messages. -/
def IsFrontOf (front : String) (node : Node) : Prop :=
  ∃ blanks chars members, IsBlanks blanks ∧ front.toList = blanks ++ '{' :: chars
    ∧ MembersBefore true members chars false
    ∧ (∀ member ∈ members, Text.decode member.1 ≠ .ok Keyword.errorMessage.name.toList)
    ∧ Node.parse (front ++ "\x7d") = .ok node

def withMessage (front : String) (k : Keyword) (message : String) : String :=
  front ++ ",\"errorMessage\":\x7b" ++ Text.quote k.name ++ ":" ++ Text.quote message ++ "\x7d\x7d"

theorem IsFrontOf.parse_withMessage {front : String} {node : Node} (h : IsFrontOf front node)
    (k : Keyword) (message : String) :
    Node.parse (withMessage front k message) = .ok (node.withMessages (.single k message)) := by
  obtain ⟨blanks, chars, members, hblanks, hfront, hmembers, hne, hparse⟩ := h
  have hclose := Written.object (hmembers.append (.close isBlanks_nil))
  have htext : (front ++ "\x7d").toList = blanks ++ (('{' :: (chars ++ ([] ++ ['}']))) ++ []) := by
    have hbracket : "\x7d".toList = ['}'] := by decide
    simp [hfront, hbracket]
  have hform := (Node.parse_eq_ok_iff_ofForm hblanks hclose id htext).1 hparse
  rw [List.append_nil] at hform
  have hmessage : IsTextOf (.ofMembers [(k.name, .ofText message)])
      (compactObject [(k.name, Text.quoteChars message.toList)]) :=
    isTextOf_compactObject (.cons ⟨rfl, isTextOf_quoteChars message⟩ .nil)
  have hmember : List.Forall₂ (fun member text => member.1 = text.1 ∧ IsTextOf member.2 text.2)
      [(Keyword.errorMessage.name, .ofMembers [(k.name, .ofText message)])]
      [(Keyword.errorMessage.name, compactObject [(k.name, Text.quoteChars message.toList)])] :=
    .cons ⟨rfl, hmessage⟩ .nil
  have htail := membersWritten_compact hmember false isBlanks_nil
  have hwritten := Written.object (hmembers.append htail)
  have hname : ",\"errorMessage\":\x7b".toList
      = ',' :: (Text.quoteChars Keyword.errorMessage.name.toList ++ [':', '{']) := by decide
  have hbrackets : "\x7d\x7d".toList = ['}', '}'] := by decide
  refine Node.parse_of_isTextOf ⟨blanks, _, [], hblanks, isBlanks_nil, hwritten, ?_⟩
    (Node.ofForm_message hne hform k message)
  unfold withMessage
  simp [hfront, hname, hbrackets, compactMembers, compactObject]

/-- The code around a message is the same for all messages. -/
theorem exists_code_of_isFrontOf {front : String} {node : Node} (h : IsFrontOf front node)
    {k : Keyword} (hk : node.shows k) : ∃ before after : String, ∀ message,
      (generate (withMessage front k message) {}).value
        = .ok (before ++ Text.quote message ++ after) := by
  obtain ⟨before, after, hchars⟩ := Node.encloses_message hk
  refine ⟨.ofList before, .ofList after, fun message => ?_⟩
  rw [value_generate_of_parse (h.parse_withMessage k message)]
  have hcode : (node.withMessages (.single k message)).validator.render
      = .ofList before ++ Text.quote message ++ .ofList after := by
    simp [Expression.render, hchars, quotedChars, Text.quote, String.append_assoc]
  exact congrArg Except.ok hcode

def propertyCode (name inner : String) : String :=
  "z.object(\x7b " ++ Text.quote name ++ ": " ++ inner ++ ".optional() \x7d)"

theorem render_property (name : String) (property : Node) :
    ((Site.property name).frame.fill property).validator.render
      = propertyCode name property.validator.render := by
  have hvalidator : ((Site.property name).frame.fill property).validator
      = .ofBase (.unary "object"
        (.shape [(name, .expression (property.validator.push (.plain "optional")))]) none) := by
    have hfill : (Site.property name).frame.fill property = .object [(name, property)] [] := rfl
    rw [hfill, Node.validator_object]
    rfl
  have hpush (e : Expression) : (e.push (.plain "optional")).chars
      = e.chars ++ ".optional()".toList := by
    obtain ⟨base, chain⟩ := e
    have hname : ".optional()".toList = '.' :: ("optional".toList ++ ['(', ')']) := by decide
    simp [Expression.push, Expression.chars, chainChars_append, chainChars, Call.chars, Call.plain,
      commaJoin, argTexts, hname]
  have hfront : "z.object(\x7b ".toList
      = libraryName ++ '.' :: ("object".toList ++ ['(', '{', ' ']) := by decide
  have hcolon : ": ".toList = [':', ' '] := by decide
  have hback : ".optional() \x7d)".toList = ".optional()".toList ++ [' ', '}', ')'] := by decide
  rw [hvalidator]
  unfold propertyCode
  apply String.toList_injective
  simp [Expression.render, Expression.ofBase, Expression.chars, Call.chars, Call.unary, chainChars,
    argTexts, Arg.chars, shapeTexts, objectLiteral, commaJoin, hpush, hfront, hcolon, hback]

theorem generate_property (name : String) {t : String} {form : Form} {property : Node}
    (h : IsTextOf form t.toList) (hform : Node.ofForm (maxLevels - 2) form = .ok property) :
    (generate ((Site.property name).around t) {}).value
      = .ok (propertyCode name property.validator.render) := by
  have haround := (Site.property name).isTextOf_around h
  have hnode : Node.ofForm maxLevels ((Site.property name).wrap form)
      = .ok ((Site.property name).frame.fill property) := by
    have hwrap := (Site.property name).ofForm_wrap (maxLevels - 2)
      (fun hnull : (Site.property name).TakesNull => (hnull.elim : form ≠ .null))
    rw [hform] at hwrap
    exact hwrap
  rw [value_generate_of_isTextOf haround hnode, render_property]

/-- Quoting comes through: what is quoted is read as it was, up to its last quote and whatever is
after that, and so a pattern, a message or the name of a property stands in the code just as it
stood in the text. -/
theorem generate_quoted :
    (∀ levels, TakesQuoted Reader.head .text ∧ TakesQuoted (Shape.read levels .text) some
        ∧ TakesQuoted (Messages.readEntry levels) some ∧ TakesQuoted readName id
        ∧ TakesQuoted Reader.nextName.name some)
      ∧ (∀ pattern, (generate (patternText pattern) {}).value = .ok (patternCode pattern))
      ∧ (∀ front node k, IsFrontOf front node → node.shows k → ∃ before after : String,
        ∀ message, (generate (withMessage front k message) {}).value
          = .ok (before ++ Text.quote message ++ after))
      ∧ ∀ name t form property, IsTextOf form t.toList →
        Node.ofForm (maxLevels - 2) form = .ok property →
          (generate ((Site.property name).around t) {}).value
            = .ok (propertyCode name property.validator.render) := by
  refine ⟨fun levels => ?_, generate_pattern, fun front node k hfront hk => ?_,
    fun name t form property ht hform => ?_⟩
  · exact ⟨Reader.takesQuoted_head, takesQuoted_text levels, Messages.takesQuoted_readEntry levels,
      takesQuoted_readName, Reader.takesQuoted_name⟩
  · exact exists_code_of_isFrontOf hfront hk
  · exact generate_property name ht hform

/-- The message of a shortest length, and a name with a quote and a backslash. -/
theorem generate_quoted_slashes :
    (∃ before after : String, before ++ Text.quote "short" ++ after = "z.string().min(1, \"short\")"
      ∧ ∀ message, (generate (withMessage "\x7b\"type\":\"string\",\"minLength\":1" .minLength
        message) {}).value = .ok (before ++ Text.quote message ++ after))
    ∧ (generate ((Site.property "\"\\").around "\x7b\x7d") {}).value
      = .ok (propertyCode "\"\\" "z.any()") := by
  constructor
  · let front := "\x7b\"type\":\"string\",\"minLength\":1"
    have hparse : (Node.parse (front ++ "\x7d")).toOption.map (·.shows .minLength) = some true := by
      decide +kernel
    obtain ⟨node, hnode, hshows⟩ := Option.map_eq_some_iff.1 hparse
    have hone : Numeral.Written ⟨false, ['1'], none, none⟩ ['1'] :=
      .mk false (.inr ⟨⟨by decide, List.all_eq_true.1 rfl⟩, by decide⟩) .absent .absent
    have hproper (t : String) := Text.proper_quotedPieces t.toList
    have hmembers := MembersBefore.member (.first isBlanks_nil) (hproper "type") isBlanks_nil
      isBlanks_nil (.text (hproper "string")) (.member (.later isBlanks_nil isBlanks_nil)
        (hproper "minLength") isBlanks_nil isBlanks_nil (.number hone) .none)
    have hfront : IsFrontOf front node := by
      refine ⟨[], _, _, isBlanks_nil, ?_, hmembers, ?_, toOption_eq_some_iff.1 hnode⟩
      · decide
      · simp [Text.decode_quotedPieces, Keyword.name]
    obtain ⟨before, after, hcode⟩ := generate_quoted.2.2.1 front node .minLength hfront hshows
    have hshort : (generate (withMessage front .minLength "short") {}).value
        = .ok "z.string().min(1, \"short\")" := toOption_eq_some_iff.1 (by decide +kernel)
    exact ⟨before, after, Except.ok.inj ((hcode "short").symm.trans hshort), hcode⟩
  · have htext : IsTextOf (.ofMembers []) "\x7b\x7d".toList := isTextOf_compactObject .nil
    exact generate_quoted.2.2.2 "\"\\" "\x7b\x7d" (.ofMembers []) .any htext rfl

end ValidatorGen
