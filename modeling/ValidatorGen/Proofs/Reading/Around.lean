import ValidatorGen.Proofs.Compile.Context
import ValidatorGen.Proofs.Reading.Forms
import ValidatorGen.Proofs.Schema.Levels

/-! Schemas inside schemas. Main statement: a schema inside others is read like a text of its own, and
a complaint about it is the same but for the way to it. -/
namespace ValidatorGen

open Json

theorem Record.memberOfForm_name (value : (s : Shape) → Form → Verdict s.Value) (r : Record)
    {k : Keyword} (hk : r.has k = false) (form : Form) :
    r.memberOfForm value k.name form
      = r.set k <$> Verdict.within (.key k.name) (value k.shape form) := by
  simp [memberOfForm, Keyword.ofName?_name, hk]

def Record.ofType (type : String) : Record := empty.set .type (some type)

theorem Record.has_ofType (type : String) {k : Keyword} (hk : k ≠ .type) :
    (ofType type).has k = false := by
  have hnone : ofType type k = none := set_of_ne _ _ hk.symm
  rw [has, hnone]
  rfl

/-- The value of a keyword, with the type before it, makes the node. -/
theorem Node.ofForm_typed {levels : Nat} (type : String) {k : Keyword} (hk : k ≠ .type)
    {form : Form} {verdict : Verdict k.shape.Value}
    (h : Shape.ofForm levels k.shape form = verdict) :
    Node.ofForm (levels + 1) (.ofMembers [("type", .ofText type), (k.name, form)])
      = (fun value => Node.ofRecord ((Record.ofType type).set k value))
        <$> Verdict.within (.key k.name) verdict := by
  have htype : Shape.ofForm levels Keyword.type.shape (.ofText type) = .ok (some type) := by
    have hscalar : (Form.ofText type).IsScalar := trivial
    rw [Shape.ofForm_of_isScalar levels _ hscalar, head_ofText]
    rfl
  have hfirst : Record.memberOfForm (Shape.ofForm levels) .empty "type" (.ofText type)
      = .ok (.ofType type) := by
    have hmember := Record.memberOfForm_name (Shape.ofForm levels) .empty (k := .type) rfl
      (.ofText type)
    rw [htype] at hmember
    exact hmember
  have hsecond := Record.memberOfForm_name (Shape.ofForm levels) (.ofType type)
    (Record.has_ofType type hk) form
  rw [Node.ofForm, Form.ofMembers, Shape.ofForm, foldMembers_ofMembers]
  simp only [List.foldlM_cons, List.foldlM_nil, hfirst, Verdict.ok_bind, hsecond, h]
  cases verdict <;> rfl

theorem Shape.ofForm_node (levels : Nat) {form : Form} (h : form ≠ .null) :
    Shape.ofForm levels .node form = some <$> Node.ofForm levels form := by
  have hsome {verdict : Verdict Record} :
      (some ∘ Node.ofRecord) <$> verdict
        = some <$> requiredNode ((some ∘ Node.ofRecord) <$> verdict) := by
    cases verdict <;> rfl
  cases form with
  | null => exact absurd rfl h
  | boolean b => cases levels <;> rfl
  | number n =>
    have hscalar : (Form.number n).IsScalar := trivial
    rw [Node.ofForm, ofForm_of_isScalar levels _ hscalar, Form.head]
    cases n.verdict <;> rfl
  | text pieces =>
    have hscalar : (Form.text pieces).IsScalar := trivial
    rw [Node.ofForm, ofForm_of_isScalar levels _ hscalar, Form.head]
    cases Text.decode pieces <;> rfl
  | list items =>
    cases levels with
    | zero => rfl
    | succ inner => exact hsome
  | object members =>
    cases levels with
    | zero => rfl
    | succ inner => exact hsome

/-- Where in a schema another one can stand. -/
inductive Site where
  | items
  | content
  | property (name : String)

namespace Site

/-- The text of a schema that says nothing but its type and what stands there. -/
def around : Site → String → String
  | .items, t => "\x7b\"type\":\"array\",\"items\":" ++ t ++ "\x7d"
  | .content, t => "\x7b\"type\":\"string\",\"contentSchema\":" ++ t ++ "\x7d"
  | .property name, t =>
    "\x7b\"type\":\"object\",\"properties\":"
      ++ ("\x7b" ++ Text.quote name ++ ":" ++ t ++ "\x7d") ++ "\x7d"

def frame : Site → Frame
  | .items => .items {}
  | .content => .content {}
  | .property name => .property [] name [] []

def segments : Site → List Segment
  | .items => [.key "items"]
  | .content => [.key "contentSchema"]
  | .property name => [.key "properties", .key name]

/-- Whether `null` stands for nothing there. -/
def TakesNull : Site → Prop
  | .items | .content => True
  | .property _ => False

def levels : Site → Nat
  | .items | .content => 1
  | .property _ => 2

def wrap : Site → Form → Form
  | .items, form => .ofMembers [("type", .ofText "array"), ("items", form)]
  | .content, form => .ofMembers [("type", .ofText "string"), ("contentSchema", form)]
  | .property name, form =>
    .ofMembers [("type", .ofText "object"), ("properties", .ofMembers [(name, form)])]

theorem isTextOf_typed {opening type name t : String} {form : Form}
    (hopening : opening.toList = '{' :: (Text.quoteChars "type".toList ++ ':' ::
      (Text.quoteChars type.toList ++ ',' :: (Text.quoteChars name.toList ++ [':']))))
    (h : IsTextOf form t.toList) :
    IsTextOf (.ofMembers [("type", .ofText type), (name, form)]) (opening ++ t ++ "\x7d").toList := by
  have htext : IsTextOf (.ofMembers [("type", .ofText type), (name, form)])
      (compactObject [("type", Text.quoteChars type.toList), (name, t.toList)]) :=
    isTextOf_compactObject (.cons ⟨rfl, isTextOf_quoteChars type⟩ (.cons ⟨rfl, h⟩ .nil))
  have hclose : "\x7d".toList = ['}'] := by decide
  rw [String.toList_append, String.toList_append, hopening, hclose]
  simpa only [compactObject, compactMembers, if_true, Bool.false_eq_true, if_false, List.nil_append,
    List.cons_append, List.append_assoc] using htext

theorem isTextOf_around (s : Site) {form : Form} {t : String} (h : IsTextOf form t.toList) :
    IsTextOf (s.wrap form) (s.around t).toList := by
  cases s with
  | items => exact isTextOf_typed (by decide) h
  | content => exact isTextOf_typed (by decide) h
  | property name =>
    refine isTextOf_typed (by decide) ?_
    have htext : IsTextOf (.ofMembers [(name, form)]) (compactObject [(name, t.toList)]) :=
      isTextOf_compactObject (.cons ⟨rfl, h⟩ .nil)
    have hopen : "\x7b".toList = ['{'] := by decide
    have hcolon : ":".toList = [':'] := by decide
    have hclose : "\x7d".toList = ['}'] := by decide
    simp only [String.toList_append, Text.toList_quote, hopen, hcolon, hclose]
    simpa only [compactObject, compactMembers, if_true, List.nil_append, List.cons_append,
      List.append_assoc] using htext

theorem exists_value_of_wrap (s : Site) {form : Form} {levels : Nat} {w : Json}
    (h : (s.wrap form).value? levels = some w) :
    ∃ inner, levels = inner + s.levels ∧ ∃ value, form.value? inner = some value := by
  cases levels with
  | zero => cases s <;> cases h
  | succ inner =>
    cases s with
    | items =>
      exact ⟨inner, rfl, exists_value_of_object h (Text.quotedPieces "items".toList, form) (by simp)⟩
    | content =>
      exact ⟨inner, rfl,
        exists_value_of_object h (Text.quotedPieces "contentSchema".toList, form) (by simp)⟩
    | property name =>
      obtain ⟨properties, hproperties⟩ := exists_value_of_object h
        (Text.quotedPieces "properties".toList, .ofMembers [(name, form)]) (by simp)
      cases inner with
      | zero => cases hproperties
      | succ inner =>
        exact ⟨inner, rfl,
          exists_value_of_object hproperties (Text.quotedPieces name.toList, form) (by simp)⟩

/-- A schema around another one is that one in its place, or complains about it there. -/
theorem ofForm_wrap (s : Site) (levels : Nat) {form : Form} (hnull : s.TakesNull → form ≠ .null) :
    Node.ofForm (levels + s.levels) (s.wrap form)
      = s.frame.fill <$> Verdict.along s.segments (Node.ofForm levels form) := by
  cases s with
  | items =>
    have hnode := Shape.ofForm_node levels (hnull trivial)
    refine (Node.ofForm_typed "array" (k := .items) (by decide) hnode).trans ?_
    cases Node.ofForm levels form <;> rfl
  | content =>
    have hnode := Shape.ofForm_node levels (hnull trivial)
    refine (Node.ofForm_typed "string" (k := .contentSchema) (by decide) hnode).trans ?_
    cases Node.ofForm levels form <;> rfl
  | property name =>
    have hproperties : Shape.ofForm (levels + 1) .properties (.ofMembers [(name, form)])
        = (Entries.put name · []) <$> Verdict.within (.key name) (Node.ofForm levels form) := by
      rw [Form.ofMembers, Shape.ofForm, foldMembers_ofMembers, List.foldlM_cons]
      exact bind_pure _
    refine (Node.ofForm_typed "object" (k := .properties) (by decide) hproperties).trans ?_
    cases Node.ofForm levels form <;> rfl

end Site

namespace Site

def aroundAll (sites : List Site) (t : String) : String := sites.foldr around t

def wrapAll (sites : List Site) (form : Form) : Form := sites.foldr wrap form

def path (sites : List Site) : List Segment := sites.flatMap segments

theorem isTextOf_aroundAll (sites : List Site) {form : Form} {t : String}
    (h : IsTextOf form t.toList) : IsTextOf (wrapAll sites form) (aroundAll sites t).toList := by
  induction sites with
  | nil => exact h
  | cons s sites ih => exact s.isTextOf_around ih

theorem wrapAll_ne_null {sites : List Site} {s : Site} {form : Form}
    (hnull : ∀ last ∈ (s :: sites).getLast?, last.TakesNull → form ≠ .null) :
    s.TakesNull → wrapAll sites form ≠ .null := by
  intro hs
  cases sites with
  | nil => exact hnull s rfl hs
  | cons other sites => cases other <;> nofun

theorem exists_value_of_wrapAll (sites : List Site) {form : Form} {levels : Nat} {w : Json}
    (hw : (wrapAll sites form).value? levels = some w) :
    ∃ inner ≤ levels, ∃ value, form.value? inner = some value := by
  induction sites generalizing levels w with
  | nil => exact ⟨levels, Nat.le_refl _, w, hw⟩
  | cons s sites ih =>
    obtain ⟨inner, rfl, v, hv⟩ := s.exists_value_of_wrap hw
    obtain ⟨least, hle, hvalue⟩ := ih hv
    exact ⟨least, Nat.le_add_right_of_le hle, hvalue⟩

/-- Schemas around a schema are that one in its place, or complain about it there. The levels that
they take up themselves are not missed inside. -/
theorem ofForm_wrapAll (sites : List Site) {form : Form} {levels : Nat} {w : Json}
    (hw : (wrapAll sites form).value? levels = some w)
    (hnull : ∀ last ∈ sites.getLast?, last.TakesNull → form ≠ .null) :
    Node.ofForm levels (wrapAll sites form)
      = Context.fill (sites.map frame) <$> Verdict.along (path sites) (Node.ofForm levels form) := by
  induction sites generalizing levels w with
  | nil =>
    have hform : wrapAll [] form = form := rfl
    rw [hform]
    cases Node.ofForm levels form <;> rfl
  | cons s sites ih =>
    obtain ⟨inner, rfl, v, hv⟩ := s.exists_value_of_wrap hw
    obtain ⟨least, hle, value, hvalue⟩ := exists_value_of_wrapAll sites hv
    have hlast : ∀ last ∈ sites.getLast?, last.TakesNull → form ≠ .null := by
      intro last hlast
      have hsites : sites ≠ [] := by
        rintro rfl
        cases hlast
      exact hnull last (by rwa [List.getLast?_cons_of_ne_nil hsites])
    have hmore : Node.ofForm (inner + s.levels) form = Node.ofForm inner form := by
      rw [Node.ofForm_of_le hle hvalue, Node.ofForm_of_le (Nat.le_add_right_of_le hle) hvalue]
    have hwrap := s.ofForm_wrap inner (wrapAll_ne_null hnull)
    rw [ih hv hlast] at hwrap
    rw [hmore]
    refine hwrap.trans ?_
    cases Node.ofForm inner form with
    | ok node => rfl
    | error c => simp [path]

end Site

namespace Segment

theorem joinRest_append (way path : List Segment) :
    joinRest (way ++ path) = joinRest way ++ joinRest path := by
  induction way with
  | nil => simp [joinRest]
  | cons s way ih => simp [joinRest, ih, String.append_assoc]

/-- How a path goes on after another one. The root adds nothing, and an index needs no point. -/
def joinAfter : List Segment → String
  | [] => ""
  | s :: rest => s.separator ++ join (s :: rest)

theorem join_append {way : List Segment} (h : way ≠ []) (path : List Segment) :
    join (way ++ path) = join way ++ joinAfter path := by
  cases way with
  | nil => exact absurd rfl h
  | cons s way =>
    rw [List.cons_append, join, join, joinRest_append, String.append_assoc]
    cases path <;> simp [joinRest, joinAfter, join, String.append_assoc]

end Segment

/-- A schema inside others is read like a text of its own. If it is one, the schema around it holds
it; if not, the same is wrong, and the path leads to the schema and goes on inside. -/
theorem Node.parse_around (s : Site) (sites : List Site) {t : String} {value w : Json}
    (ht : Json.parse t = .ok value)
    (hnull : ∀ last ∈ (s :: sites).getLast?, last.TakesNull → value ≠ .null)
    (hw : Json.parse (Site.aroundAll (s :: sites) t) = .ok w) :
    match Node.parse t with
    | .ok node => Node.parse (Site.aroundAll (s :: sites) t)
        = .ok (Context.fill ((s :: sites).map Site.frame) node)
    | .error e => ∃ e', Node.parse (Site.aroundAll (s :: sites) t) = .error e'
        ∧ e'.cause = e.cause ∧ e'.message = { e with position := e'.position }.message
        ∧ e'.path = Site.path (s :: sites) ++ e.path
        ∧ e'.pathText = Segment.join (Site.path (s :: sites)) ++ Segment.joinAfter e.path := by
  obtain ⟨v, hspells, rfl⟩ := parse_eq_ok_iff.1 ht
  obtain ⟨form, htext, hvalue⟩ := spells_iff.1 hspells
  have haround := Site.isTextOf_aroundAll (s :: sites) htext
  obtain ⟨w, hwrap, -⟩ := exists_value_of_parse haround hw
  have hform : ∀ last ∈ (s :: sites).getLast?, last.TakesNull → form ≠ .null := by
    rintro last hlast hnulls rfl
    cases hvalue
    exact hnull last hlast hnulls rfl
  have hinner := Node.complaint_parse htext
  have houter := Node.complaint_parse haround
  rw [Site.ofForm_wrapAll (s :: sites) hwrap hform, ← hinner] at houter
  cases hparse : Node.parse t with
  | ok node =>
    rw [hparse] at houter
    cases hresult : Node.parse (Site.aroundAll (s :: sites) t) with
    | error e =>
      rw [hresult] at houter
      cases houter
    | ok node' =>
      rw [hresult] at houter
      exact congrArg _ (Except.ok.inj houter)
  | error e =>
    rw [hparse] at houter
    cases hresult : Node.parse (Site.aroundAll (s :: sites) t) with
    | ok node =>
      rw [hresult] at houter
      cases houter
    | error e' =>
      rw [hresult] at houter
      have hcomplaint : e'.complaint = ⟨e.cause, Site.path (s :: sites) ++ e.path⟩ :=
        Except.error.inj houter
      obtain ⟨hcause, hpath⟩ := Complaint.mk.inj hcomplaint
      have hway : Site.path (s :: sites) ≠ [] := by cases s <;> nofun
      refine ⟨e', rfl, hcause, ?_, hpath, ?_⟩
      · rw [ParseError.message, ParseError.message, hcause]
      · rw [ParseError.pathText, hpath, Segment.join_append hway]

/-- A number where the format should be, in the items of a property. -/
theorem Node.parse_around_format : ∃ value w e e', Json.parse "[\"string\", 3]" = .ok value
    ∧ value ≠ .null
    ∧ Json.parse (Site.aroundAll [.property "pair", .items] "[\"string\", 3]") = .ok w
    ∧ Node.parse "[\"string\", 3]" = .error e
    ∧ Node.parse (Site.aroundAll [.property "pair", .items] "[\"string\", 3]") = .error e'
    ∧ e.pathText = "[1]" ∧ e'.cause = e.cause ∧ e'.pathText = "properties.pair.items[1]" := by
  have hhead : (Json.parse "[\"string\", 3]").toOption.map Json.head = some .list := by
    decide +kernel
  obtain ⟨value, hvalue, hlist⟩ := Option.map_eq_some_iff.1 hhead
  have hne : value ≠ .null := by
    rintro rfl
    cases hlist
  have houter : (Json.parse (Site.aroundAll [.property "pair", .items]
      "[\"string\", 3]")).toOption.map Json.head = some .object := by decide +kernel
  obtain ⟨w, hw, -⟩ := Option.map_eq_some_iff.1 houter
  have hpath : (match Node.parse "[\"string\", 3]" with
      | .ok _ => []
      | .error e => e.path) = [.index 1] := by decide +kernel
  have haround := Node.parse_around (.property "pair") [.items] (toOption_eq_some_iff.1 hvalue)
    (fun _ _ _ => hne) (toOption_eq_some_iff.1 hw)
  cases hparse : Node.parse "[\"string\", 3]" with
  | ok node =>
    rw [hparse] at hpath
    cases hpath
  | error e =>
    rw [hparse] at hpath haround
    obtain ⟨e', hresult, hcause, -, -, htext⟩ := haround
    have he : e.path = [.index 1] := hpath
    refine ⟨value, w, e, e', toOption_eq_some_iff.1 hvalue, hne, toOption_eq_some_iff.1 hw, rfl,
      hresult, ?_, hcause, ?_⟩
    · rw [ParseError.pathText, he]
      decide
    · rw [htext, he]
      decide

end ValidatorGen
