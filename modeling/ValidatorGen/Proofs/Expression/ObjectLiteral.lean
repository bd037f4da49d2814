import Mathlib.Data.List.DropRight
import ValidatorGen.Proofs.Expression.Balance
import ValidatorGen.Proofs.Json.Compact
import ValidatorGen.Proofs.Reading.Judges

/-! Object literals as ECMAScript evaluates them. Main statement: in the object that the literal of
an object's shape comes to, each property of the schema has the validator of its own schema, except
for the one that is called like the prototype. -/
namespace ValidatorGen

open Json Reader

/-- What an object literal comes to: own properties with the code of their values, in the order in
which they were defined, and the code of the prototype if it is set. -/
structure ObjectValue where
  own : List (String × String) := []
  prototype : Option String := none
deriving DecidableEq

/-- An entry with a literal name defines a property, or sets the prototype. -/
def ObjectValue.define (o : ObjectValue) (name code : String) : ObjectValue :=
  if name = "__proto__" then { o with prototype := some code }
  else { o with own := Entries.put name code o.own }

namespace Reader

/-- The code of an expression, without the blanks after it. -/
def expressionCode : Reader String := fun text =>
  let code := (codeSpan ⟨0, .code⟩ text).1.rdropWhile isBlank
  if code.isEmpty then failAhead 1 .valueWanted text
  else .ok (.ofList code, (codeSpan ⟨0, .code⟩ text).2)

def objectEntry (o : ObjectValue) (name : String) : Reader ObjectValue := do
  colon
  blanks
  return o.define name (← expressionCode)

def objectValue : Reader ObjectValue := object objectEntry {}

end Reader

def ObjectValue.ofLiteral (code : String) : Except ParseError ObjectValue :=
  (whole objectValue).run code

def entryText (entry : String × Expression) : List Char :=
  Text.quoteChars entry.1.toList ++ ':' :: ' ' :: entry.2.chars

theorem Call.exists_append (call : Call) : ∃ init, call.chars = init ++ [')'] := by
  cases call
  exact ⟨_, rfl⟩

theorem exists_append_chainChars {front : List Char} (h : ∃ init, front = init ++ [')'])
    (calls : List Call) : ∃ init, front ++ chainChars calls = init ++ [')'] := by
  induction calls generalizing front with
  | nil => simpa [chainChars] using h
  | cons call rest ih =>
    obtain ⟨init, hinit⟩ := call.exists_append
    have hrest := ih ⟨front ++ '.' :: init, show front ++ '.' :: call.chars = _ by simp [hinit]⟩
    simpa [chainChars] using hrest

theorem Expression.exists_append (e : Expression) : ∃ init, e.chars = init ++ [')'] := by
  obtain ⟨base, chain⟩ := e
  obtain ⟨init, hinit⟩ := base.exists_append
  exact exists_append_chainChars ⟨libraryName ++ '.' :: init, by simp [hinit]⟩ chain

namespace Reader

/-- An expression that closes what it opens is read up to the comma or the bracket after it. -/
theorem outcome_expressionCode {e : Expression} (h : Passes 0 e.chars) {blanks : List Char}
    (hblanks : IsBlanks blanks) {c : Char} (hc : c = ',' ∨ c = '}') (rest : List Char) :
    expressionCode.outcome (e.chars ++ (blanks ++ c :: rest)) = .ok (e.render, c :: rest) := by
  have hmarks : Passes.marks.any isBlank = false := by decide
  have hpasses : Passes 0 blanks := .of_class hmarks hblanks
  have hstop : codeSpan ⟨0, .code⟩ (c :: rest) = ([], c :: rest) := by
    rcases hc with rfl | rfl <;> rfl
  have hspan : codeSpan ⟨0, .code⟩ (e.chars ++ (blanks ++ c :: rest))
      = (e.chars ++ blanks, c :: rest) := by
    rw [← List.append_assoc, codeSpan_append (h.append hpasses), hstop, List.append_nil]
  have htrim : (e.chars ++ blanks).rdropWhile isBlank = e.chars := by
    obtain ⟨init, hinit⟩ := e.exists_append
    have hreverse : IsBlanks blanks.reverse := fun d hd => hblanks d (List.mem_reverse.1 hd)
    have hdrop := dropWhile_blanks hreverse (show isBlank ')' = false by decide) init.reverse
    rw [List.rdropWhile, hinit, List.reverse_append, List.reverse_append, List.reverse_singleton,
      List.singleton_append, hdrop, List.reverse_cons, List.reverse_reverse]
  have hne : e.chars.isEmpty = false := by
    obtain ⟨init, hinit⟩ := e.exists_append
    simp [hinit]
  refine outcome_eq_ok_iff.2 ?_
  simp [expressionCode, hspan, htrim, hne, Expression.render]

theorem outcome_entry {first : Bool} {separator : List Char}
    (hseparator : Separator first separator) {entry : String × Expression}
    (h : Passes 0 entry.2.chars) {blanks : List Char} (hblanks : IsBlanks blanks) {c : Char}
    (hc : c = ',' ∨ c = '}') (o : ObjectValue) (rest : List Char) :
    (memberStep objectEntry (first, o)).outcome
        (separator ++ (entryText entry ++ (blanks ++ c :: rest)))
      = .ok (.again (false, o.define entry.1 entry.2.render), c :: rest) := by
  obtain ⟨name, e⟩ := entry
  have hname := outcome_nextName_name hseparator (Text.proper_quotedPieces name.toList)
    (':' :: ' ' :: (e.chars ++ (blanks ++ c :: rest)))
  rw [Text.decode_quotedPieces] at hname
  have hcolon := outcome_colon isBlanks_nil (' ' :: (e.chars ++ (blanks ++ c :: rest)))
  rw [List.nil_append] at hcolon
  have hcode := outcome_expressionCode h hblanks hc rest
  have hblank : (' ' :: (e.chars ++ (blanks ++ c :: rest))).dropWhile isBlank
      = e.chars ++ (blanks ++ c :: rest) := by
    obtain ⟨base, chain⟩ := e
    rfl
  have htext : separator ++ (entryText (name, e) ++ (blanks ++ c :: rest))
      = separator ++ '"' :: (Text.bodyChars (Text.quotedPieces name.toList) ++ '"' :: ':' :: ' '
        :: (e.chars ++ (blanks ++ c :: rest))) := by
    simp [entryText, quoteChars_eq_quotedPieces]
  rw [htext, memberStep, outcome_bind, outcome_under, hname]
  simp only [Verdict.map_ok, Verdict.within_ok, Verdict.ok_bind, String.ofList_toList, objectEntry,
    outcome_bind, hcolon, outcome_blanks, hblank, hcode]
  rfl

theorem comes_close (first : Bool) (o : ObjectValue) (rest : List Char) :
    Comes (memberStep objectEntry) (first, o) ('}' :: rest) (.ok (o, '}' :: rest)) := by
  have hclose := outcome_nextName_close isBlanks_nil first rest
  refine .done ?_
  rw [memberStep, outcome_bind, outcome_under, ← List.nil_append ('}' :: rest), hclose]
  rfl

theorem comes_entries {entry : String × Expression} {entries : List (String × Expression)}
    (h : ∀ entry' ∈ entry :: entries, Passes 0 entry'.2.chars) {first : Bool}
    {separator : List Char} (hseparator : Separator first separator) (o : ObjectValue)
    (rest : List Char) :
    Comes (memberStep objectEntry) (first, o)
      (separator ++ (commaJoin ((entry :: entries).map entryText) ++ ' ' :: '}' :: rest))
      (.ok ((entry :: entries).foldl (fun o entry' => o.define entry'.1 entry'.2.render) o,
        '}' :: rest)) := by
  induction entries generalizing entry first separator o with
  | nil =>
    have hblank : IsBlanks [' '] := by simp [IsBlanks, isBlank]
    have hround := outcome_entry hseparator (h entry (by simp)) hblank (.inr rfl) o rest
    exact .again hround (by simp; omega) (comes_close false _ rest)
  | cons next entries ih =>
    obtain ⟨hentry, hentries⟩ := List.forall_mem_cons.1 h
    have hround := outcome_entry hseparator hentry isBlanks_nil (.inl rfl) o
      (' ' :: (commaJoin ((next :: entries).map entryText) ++ ' ' :: '}' :: rest))
    have hcomma : Separator false ([] ++ ',' :: [' ']) :=
      .later isBlanks_nil (by simp [IsBlanks, isBlank])
    have hlater := ih hentries hcomma (o.define entry.1 entry.2.render)
    have htext : commaJoin ((entry :: next :: entries).map entryText) ++ ' ' :: '}' :: rest
        = entryText entry ++ ([] ++ ',' :: ' ' ::
          (commaJoin ((next :: entries).map entryText) ++ ' ' :: '}' :: rest)) := by
      simp [commaJoin]
    have hlt : 0 < (entryText entry).length := by simp [entryText]
    rw [htext]
    exact .again hround (by simp; omega) hlater

theorem outcome_objectValue {entries : List (String × Expression)}
    (h : ∀ entry ∈ entries, Passes 0 entry.2.chars) :
    objectValue.outcome (objectLiteral (entries.map entryText))
      = .ok (entries.foldl (fun o entry => o.define entry.1 entry.2.render) {}, []) := by
  cases entries with
  | nil =>
    have htext : objectLiteral (([] : List (String × Expression)).map entryText) = ['{', '}'] := rfl
    rw [htext, objectValue, object, outcome_skip_bind, List.tail_cons, outcome_bind,
      (comes_close true {} []).loop]
    rfl
  | cons entry entries =>
    have hblank : IsBlanks [' '] := by simp [IsBlanks, isBlank]
    have hloop := (comes_entries h (.first hblank) {} []).loop
    have htext : objectLiteral ((entry :: entries).map entryText)
        = '{' :: ([' '] ++ (commaJoin ((entry :: entries).map entryText) ++ [' ', '}'])) := by
      simp [objectLiteral]
    rw [htext, objectValue, object, outcome_skip_bind, List.tail_cons, outcome_bind, hloop]
    rfl

end Reader

/-- With distinct names, all but the prototype become own properties, in the same order. -/
theorem ObjectValue.foldl_define {entries : List (String × Expression)}
    (hnodup : (entries.map Prod.fst).Nodup) {o : ObjectValue}
    (ho : ∀ entry ∈ entries, entry.1 ∉ o.own.map Prod.fst) :
    entries.foldl (fun o entry => o.define entry.1 entry.2.render) o
      = ⟨o.own ++ (entries.filter (·.1 ≠ "__proto__")).map fun entry => (entry.1, entry.2.render),
        ((entries.lookup "__proto__").map Expression.render).or o.prototype⟩ := by
  induction entries generalizing o with
  | nil => simp
  | cons entry entries ih =>
    -- The name is new both to the properties there are and to the entries that come later.
    obtain ⟨name, e⟩ := entry
    obtain ⟨hname, hrest⟩ := List.nodup_cons.1 hnodup
    obtain ⟨hnew, hold⟩ := List.forall_mem_cons.1 ho
    by_cases hproto : name = "__proto__"
    · subst hproto
      have hlookup : entries.lookup "__proto__" = none := by
        rw [List.lookup_eq_none_iff]
        intro entry hentry
        simpa using fun heq => hname (List.mem_map.2 ⟨entry, hentry, heq.symm⟩)
      have hset : o.define "__proto__" e.render = ⟨o.own, some e.render⟩ := if_pos rfl
      have hlater := ih hrest (o := ⟨o.own, some e.render⟩) hold
      rw [List.foldl_cons, hset, hlater, hlookup]
      simp
    · have hput : o.define name e.render = { o with own := o.own ++ [(name, e.render)] } := by
        rw [define, if_neg hproto, Entries.put_of_notMem _ hnew]
      have hdistinct : ∀ entry ∈ entries, entry.1 ∉ (o.own ++ [(name, e.render)]).map Prod.fst := by
        intro entry hentry
        have hne : entry.1 ≠ name := fun heq => hname (List.mem_map.2 ⟨entry, hentry, heq⟩)
        simpa [hne] using hold entry hentry
      rw [List.foldl_cons, hput, ih hrest hdistinct, List.lookup_cons]
      have hskip : ("__proto__" == name) = false := by simpa using Ne.symm hproto
      simp [hproto, hskip]

namespace Node

def entries (required : List String) (properties : List (String × Node)) :
    List (String × Expression) :=
  properties.map fun p => (p.1, propertyValidator required p.1 p.2.validator)

theorem shapeTexts_shape (required : List String) (properties : List (String × Node)) :
    shapeTexts (shape required properties) = (entries required properties).map entryText := by
  rw [shapeTexts_eq_map, shape, entries, List.map_map, List.map_map]
  rfl

theorem ofLiteral_shape (required : List String) (properties : List (String × Node)) :
    ObjectValue.ofLiteral (Arg.shape (shape required properties)).render
      = .ok ((entries required properties).foldl
          (fun o entry => o.define entry.1 entry.2.render) {}) := by
  have hpasses : ∀ entry ∈ entries required properties, Passes 0 entry.2.chars := by
    rw [entries, List.forall_mem_map]
    exact holds_properties spreads_passes required properties
      (everyProperty_of_forall (fun _ => trivial) properties)
  have hliteral : (Arg.shape (shape required properties)).render.toList
      = objectLiteral ((entries required properties).map entryText) := by
    rw [Arg.render, String.toList_ofList, Arg.chars, shapeTexts_shape]
  refine run_of_outcome_ok (?_ : _ = Except.ok (_, []))
  rw [hliteral, whole, outcome_bind, outcome_objectValue hpasses]
  rfl

/-- The code of an object is a call with a literal, and what the literal comes to has all properties
of the schema with the validators of their own schemas, in the same order, unless one of them is
called like the prototype: that one sets the prototype instead and is not checked. -/
theorem evaluate_shape {properties : List (String × Node)} (required : List String)
    (h : (properties.map Prod.fst).Nodup) :
    (object properties required).validator.render
        = "z.object(" ++ (Arg.shape (shape required properties)).render ++ ")"
      ∧ ∃ o, ObjectValue.ofLiteral (Arg.shape (shape required properties)).render = .ok o
      ∧ o.own = ((entries required properties).filter (·.1 ≠ "__proto__")).map
          (fun entry => (entry.1, entry.2.render))
      ∧ o.prototype = ((entries required properties).lookup "__proto__").map Expression.render
      ∧ (o.own = (entries required properties).map (fun entry => (entry.1, entry.2.render))
          ↔ "__proto__" ∉ properties.map Prod.fst) := by
  have hcode : (object properties required).validator.render
      = "z.object(" ++ (Arg.shape (shape required properties)).render ++ ")" := by
    refine String.toList_injective ?_
    rw [validator_object]
    simp [Expression.render, Arg.render, Expression.ofBase, Expression.chars, Call.unary,
      Call.chars, argTexts, commaJoin, chainChars, libraryName]
  have hnames : (entries required properties).map Prod.fst = properties.map Prod.fst := by
    simp [entries]
  have hvalue := ofLiteral_shape required properties
  rw [ObjectValue.foldl_define (hnames ▸ h) (by simp)] at hvalue
  refine ⟨hcode, _, hvalue, by simp, by simp, ?_⟩
  rw [← hnames]
  constructor
  · intro hall hmem
    obtain ⟨entry, hentry, hproto⟩ := List.mem_map.1 hmem
    have hlength := congrArg List.length hall
    have hkept : ∀ entry ∈ entries required properties, entry.1 ≠ "__proto__" := by
      simpa [List.length_filter_eq_length_iff] using hlength
    exact hkept entry hentry hproto
  · intro hnone
    have hkept : ∀ entry ∈ entries required properties, entry.1 ≠ "__proto__" :=
      fun entry hentry hproto => hnone (List.mem_map.2 ⟨entry, hentry, hproto⟩)
    rw [List.filter_eq_self.2 (by simpa using hkept)]
    rfl

theorem evaluate_shape_boolean : ∃ o,
    ObjectValue.ofLiteral (Arg.shape (shape ["a"] [("a", .boolean), ("__proto__", .null)])).render
        = .ok o
      ∧ o.own = [("a", "z.boolean()")] ∧ o.prototype = some "z.null().optional()" := by
  have hnodup : ([("a", Node.boolean), ("__proto__", .null)].map Prod.fst).Nodup := by decide
  obtain ⟨-, o, ho, hown, hprototype, -⟩ := evaluate_shape ["a"] hnodup
  refine ⟨o, ho, hown.trans ?_, hprototype.trans ?_⟩
  · decide +kernel
  · decide +kernel

def object? : Node → Option (List (String × Node) × List String)
  | .object properties required => some (properties, required)
  | _ => none

theorem eq_object_of_object? {node : Node} {o : List (String × Node) × List String}
    (h : node.object? = some o) : node = .object o.1 o.2 := by
  cases node with
  | object properties required =>
    cases h
    rfl
  | _ => cases h

/-- A required property called like the prototype is not checked. -/
theorem not_own_of_proto : ∃ properties,
    parse "\x7b\"type\":\"object\",\"properties\":\x7b\"__proto__\":\x7b\"type\":\"string\"\x7d\x7d,\"required\":[\"__proto__\"]\x7d"
        = .ok (.object properties ["__proto__"])
      ∧ properties.map Prod.fst = ["__proto__"]
      ∧ (Arg.shape (shape ["__proto__"] properties)).render = "\x7b \"__proto__\": z.string() \x7d"
      ∧ ObjectValue.ofLiteral "\x7b \"__proto__\": z.string() \x7d"
        = .ok ⟨[], some "z.string()"⟩ := by
  let text := "\x7b\"type\":\"object\",\"properties\":\x7b\"__proto__\":\x7b\"type\":\"string\"\x7d\x7d,\"required\":[\"__proto__\"]\x7d"
  have hview : ((parse text).toOption.bind object?).map (fun o =>
      (o.2, o.1.map Prod.fst, (Arg.shape (shape o.2 o.1)).render))
      = some (["__proto__"], ["__proto__"], "\x7b \"__proto__\": z.string() \x7d") := by
    decide +kernel
  have hliteral : ObjectValue.ofLiteral "\x7b \"__proto__\": z.string() \x7d"
      = .ok ⟨[], some "z.string()"⟩ := toOption_eq_some_iff.1 (by decide +kernel)
  obtain ⟨⟨properties, required⟩, hobject, hseen⟩ := Option.map_eq_some_iff.1 hview
  obtain ⟨node, hparse, hnode⟩ := Option.bind_eq_some_iff.1 hobject
  obtain ⟨rfl, hrest⟩ := Prod.mk.inj hseen
  obtain ⟨hnames, hrender⟩ := Prod.mk.inj hrest
  have hread := toOption_eq_some_iff.1 hparse
  rw [eq_object_of_object? hnode] at hread
  exact ⟨properties, hread, hnames, hrender, hliteral⟩

end Node

end ValidatorGen
