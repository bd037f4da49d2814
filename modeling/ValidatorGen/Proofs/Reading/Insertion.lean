import ValidatorGen.Proofs.Generate
import ValidatorGen.Proofs.Reading.Extent

/-! Members that are put into a schema. Main statement: whatever member with an unknown name is put
into a node, wherever that node is in a text, the text is read as the same schema. -/
namespace ValidatorGen

open Json

namespace Json

/-- Members in a row with no bracket after them. The flags say whether they are from the first one
on, and whether what follows them still is the first. -/
inductive MembersBefore : Bool → List (List Text.Piece × Form) → List Char → Bool → Prop
  | none {first : Bool} : MembersBefore first [] [] first
  | member {first last : Bool} {separator blanks blanks' chars more : List Char}
    {name : List Text.Piece} {form : Form} {members : List (List Text.Piece × Form)} :
    Separator first separator → (∀ p ∈ name, p.Proper) → IsBlanks blanks → IsBlanks blanks' →
    Written form chars → MembersBefore false members more last →
    MembersBefore first ((name, form) :: members)
      (separator ++ '"' :: (Text.bodyChars name
        ++ '"' :: (blanks ++ ':' :: (blanks' ++ (chars ++ more))))) last

/-- Items in a row with no bracket after them. -/
inductive ItemsBefore : Bool → List Form → List Char → Bool → Prop
  | none {first : Bool} : ItemsBefore first [] [] first
  | item {first last : Bool} {separator chars more : List Char} {form : Form} {items : List Form} :
    Separator first separator → Written form chars → ItemsBefore false items more last →
    ItemsBefore first (form :: items) (separator ++ (chars ++ more)) last

theorem MembersBefore.append {first last : Bool} {members members' : List (List Text.Piece × Form)}
    {front tail : List Char} (h : MembersBefore first members front last)
    (htail : MembersWritten last members' tail) :
    MembersWritten first (members ++ members') (front ++ tail) := by
  induction h with
  | none => exact htail
  | member hseparator hproper hblanks hblanks' hwritten _ ih =>
    simpa using MembersWritten.member hseparator hproper hblanks hblanks' hwritten (ih htail)

theorem ItemsBefore.append {first last : Bool} {items items' : List Form} {front tail : List Char}
    (h : ItemsBefore first items front last) (htail : ItemsWritten last items' tail) :
    ItemsWritten first (items ++ items') (front ++ tail) := by
  induction h with
  | none => exact htail
  | item hseparator hwritten _ ih =>
    simpa using ItemsWritten.item hseparator hwritten (ih htail)

theorem Separator.prepend {first : Bool} {separator blanks : List Char}
    (h : Separator first separator) (hblanks : IsBlanks blanks) :
    Separator first (blanks ++ separator) := by
  cases h with
  | first hfirst => exact .first (hblanks.append hfirst)
  | later hbefore hafter => simpa using Separator.later (hblanks.append hbefore) hafter

theorem MembersWritten.prepend {first : Bool} {members : List (List Text.Piece × Form)}
    {blanks chars : List Char} (h : MembersWritten first members chars)
    (hblanks : IsBlanks blanks) : MembersWritten first members (blanks ++ chars) := by
  cases h with
  | close hclose =>
    rw [← List.append_assoc]
    exact .close (hblanks.append hclose)
  | member hseparator hproper hbefore hafter hwritten htail =>
    simpa using MembersWritten.member (hseparator.prepend hblanks) hproper hbefore hafter hwritten
      htail

theorem MembersWritten.after {first : Bool} {members : List (List Text.Piece × Form)}
    {separator chars : List Char} (h : MembersWritten true members chars) (hne : members ≠ [])
    (hseparator : Separator first separator) :
    MembersWritten first members (separator ++ chars) := by
  cases h with
  | close _ => exact absurd rfl hne
  | member hfirst hproper hbefore hafter hwritten htail =>
    obtain @⟨_, hblanks⟩ := hfirst
    simpa using MembersWritten.member (hseparator.append hblanks) hproper hbefore hafter hwritten
      htail

/-- A member with its name in quotes, however that is spelled, and blanks around its parts. -/
inductive MemberWritten (name : String) (form : Form) : List Char → Prop
  | intro {pieces : List Text.Piece} {blanks before after chars blanks' : List Char} :
    (∀ p ∈ pieces, p.Proper) → Text.decode pieces = .ok name.toList → IsBlanks blanks →
    IsBlanks before → IsBlanks after → Written form chars → IsBlanks blanks' →
    MemberWritten name form (blanks ++ '"' :: (Text.bodyChars pieces
      ++ '"' :: (before ++ ':' :: (after ++ (chars ++ blanks')))))

theorem MemberWritten.exists_pieces {name : String} {form : Form} {member : List Char}
    (h : MemberWritten name form member) : ∃ pieces, Text.decode pieces = .ok name.toList ∧
      ∀ {first : Bool} {separator tail : List Char} {members : List (List Text.Piece × Form)},
        Separator first separator → MembersWritten false members tail →
        MembersWritten first ((pieces, form) :: members) (separator ++ (member ++ tail)) := by
  obtain @⟨pieces, _, _, _, _, _, hproper, hdecode, hblanks, hbefore, hafter, hwritten,
    hblanks'⟩ := h
  refine ⟨pieces, hdecode, fun {first separator tail members} hseparator htail => ?_⟩
  simpa using MembersWritten.member (hseparator.append hblanks) hproper hbefore hafter hwritten
    (htail.prepend hblanks')

end Json

/-- Where a new member stands in an object. -/
inductive Spot where
  | alone
  | beforeMember
  | afterMember

def Spot.insert (spot : Spot) (member : List Char) : List Char :=
  match spot with
  | .alone => member
  | .beforeMember => member ++ [',']
  | .afterMember => ',' :: member

/-- What the value of a member has to be, in a node and among properties. -/
inductive Inside : Shape → String → Shape → Prop
  | keyword (k : Keyword) : Inside .node k.name k.shape
  | property (name : String) : Inside .properties name .node

/-- Places among the members of the nodes in a text of some shape, with the text before and after
the place. Nodes are at any depth, and it does not matter whether the keyword that they are under
counts. A node that is written as a list has no such place itself, but others may be in it. -/
inductive Gap : Shape → Spot → List Char → List Char → Prop
  | alone {blanks blanks' : List Char} : IsBlanks blanks → IsBlanks blanks' →
    Gap .node .alone ('{' :: blanks) (blanks' ++ ['}'])
  | beforeMember {last : Bool} {front separator tail : List Char}
    {members members' : List (List Text.Piece × Form)} :
    MembersBefore true members front last → Separator last separator →
    MembersWritten true members' tail → members' ≠ [] →
    Gap .node .beforeMember ('{' :: (front ++ separator)) tail
  | afterMember {members members' : List (List Text.Piece × Form)} {front blanks tail : List Char} :
    MembersBefore true members front false → IsBlanks blanks → MembersWritten false members' tail →
    Gap .node .afterMember ('{' :: (front ++ blanks)) tail
  | member {s inner : Shape} {spot : Spot} {last : Bool} {decoded : List Char}
    {front separator blanks blanks' before after tail : List Char} {name : List Text.Piece}
    {members members' : List (List Text.Piece × Form)} :
    MembersBefore true members front last → Separator last separator → (∀ p ∈ name, p.Proper) →
    Text.decode name = .ok decoded → Inside s (.ofList decoded) inner → IsBlanks blanks →
    IsBlanks blanks' → Gap inner spot before after → MembersWritten false members' tail →
    Gap s spot ('{' :: (front ++ (separator
      ++ '"' :: (Text.bodyChars name ++ '"' :: (blanks ++ ':' :: (blanks' ++ before))))))
      (after ++ tail)
  | item {k : Keyword} {spot : Spot} {last : Bool} {front separator before after tail : List Char}
    {items items' : List Form} :
    ItemsBefore true items front last → Separator last separator →
    Keyword.all[items.length]? = some k → Gap k.shape spot before after →
    ItemsWritten false items' tail →
    Gap .node spot ('[' :: (front ++ (separator ++ before))) (after ++ tail)

/-- Two forms say the same where a value of this shape is wanted, however many levels there are. -/
def Alike (s : Shape) (form form' : Form) : Prop :=
  ∀ levels, Shape.ofForm levels s form = Shape.ofForm levels s form'

section Fold

variable {σ : Type} {step : σ → String → Form → Verdict σ}

theorem foldMembers_append (members members' : List (List Text.Piece × Form)) (state : σ) :
    foldMembers step state (members ++ members')
      = foldMembers step state members >>= fun next => foldMembers step next members' := by
  induction members generalizing state with
  | nil => rfl
  | cons member members ih =>
    obtain ⟨name, form⟩ := member
    simp only [List.cons_append, foldMembers, ih, bind_assoc]

theorem foldMembers_replace {name : List Text.Piece} {decoded : List Char} {form form' : Form}
    (hname : Text.decode name = .ok decoded)
    (h : ∀ state, step state (.ofList decoded) form = step state (.ofList decoded) form')
    (members members' : List (List Text.Piece × Form)) (state : σ) :
    foldMembers step state (members ++ (name, form) :: members')
      = foldMembers step state (members ++ (name, form') :: members') := by
  simp only [foldMembers_append, foldMembers, hname, Verdict.within_ok, Verdict.ok_bind, h]

theorem foldMembers_skip {name : List Text.Piece} {decoded : List Char} {form : Form}
    (hname : Text.decode name = .ok decoded)
    (h : ∀ state, step state (.ofList decoded) form = .ok state)
    (members members' : List (List Text.Piece × Form)) (state : σ) :
    foldMembers step state (members ++ (name, form) :: members')
      = foldMembers step state (members ++ members') := by
  simp only [foldMembers_append, foldMembers, hname, Verdict.within_ok, Verdict.ok_bind, h]

end Fold

theorem Record.ofItems_replace {value : (s : Shape) → Form → Verdict s.Value} {k : Keyword}
    {form form' : Form} (h : value k.shape form = value k.shape form') {keywords : List Keyword}
    {items : List Form} (hk : keywords[items.length]? = some k) (items' : List Form) (i : Nat)
    (r : Record) : ofItems value keywords i r (items ++ form :: items')
      = ofItems value keywords i r (items ++ form' :: items') := by
  induction items generalizing keywords i r with
  | nil =>
    cases keywords with
    | nil => cases hk
    | cons other keywords =>
      obtain rfl : other = k := by simpa using hk
      simp only [List.nil_append, ofItems, h]
  | cons item items ih =>
    cases keywords with
    | nil => simp at hk
    | cons other keywords =>
      have hrest : keywords[items.length]? = some k := by simpa using hk
      simp only [List.cons_append, ofItems, ih hrest]

namespace Alike

theorem member {s inner : Shape} {name : List Text.Piece} {decoded : List Char} {form form' : Form}
    (h : Alike inner form form') (hname : Text.decode name = .ok decoded)
    (hinside : Inside s (.ofList decoded) inner)
    (members members' : List (List Text.Piece × Form)) :
    Alike s (.object (members ++ (name, form) :: members'))
      (.object (members ++ (name, form') :: members')) := by
  intro levels
  generalize hdecoded : String.ofList decoded = text at hinside
  cases hinside with
  | keyword k =>
    cases levels with
    | zero => rfl
    | succ levels =>
      have hstep (r : Record) : r.memberOfForm (Shape.ofForm levels) (.ofList decoded) form
          = r.memberOfForm (Shape.ofForm levels) (.ofList decoded) form' := by
        simp only [hdecoded, Record.memberOfForm, h levels, Keyword.ofName?_name]
      simp only [Shape.ofForm, foldMembers_replace hname hstep]
  | property name =>
    cases levels with
    | zero => rfl
    | succ levels =>
      refine foldMembers_replace hname (fun properties => ?_) members members' []
      simp only [h levels]

theorem item {k : Keyword} {form form' : Form} (h : Alike k.shape form form') {items : List Form}
    (hk : Keyword.all[items.length]? = some k) (items' : List Form) :
    Alike .node (.list (items ++ form :: items')) (.list (items ++ form' :: items')) := by
  intro levels
  cases levels with
  | zero => rfl
  | succ levels => simp only [Shape.ofForm, Record.ofItems_replace (h levels) hk items' 0 .empty]

/-- An unknown name does not count, whatever its value is. -/
theorem unknown {name : String} (hname : Keyword.ofName? name = none) {pieces : List Text.Piece}
    (hdecode : Text.decode pieces = .ok name.toList) (form : Form)
    (members members' : List (List Text.Piece × Form)) :
    Alike .node (.object (members ++ members'))
      (.object (members ++ (pieces, form) :: members')) := by
  intro levels
  cases levels with
  | zero => rfl
  | succ levels =>
    have hstep (r : Record) : r.memberOfForm (Shape.ofForm levels) (.ofList name.toList) form
        = .ok r := by
      simp only [String.ofList_toList, Record.memberOfForm, hname]
    simp only [Shape.ofForm, foldMembers_skip hdecode hstep]

end Alike

/-- The texts without and with a new member are those of forms that say the same. -/
theorem Gap.exists_alike {s : Shape} {spot : Spot} {before after : List Char}
    (h : Gap s spot before after) {name : String} (hname : Keyword.ofName? name = none)
    {form : Form} {member : List Char} (hmember : MemberWritten name form member) :
    ∃ old new, Written old (before ++ after)
      ∧ Written new (before ++ (spot.insert member ++ after))
      ∧ ¬old.IsScalar ∧ ¬new.IsScalar ∧ Alike s old new := by
  obtain ⟨spelling, hdecoded, hadded⟩ := hmember.exists_pieces
  induction h with
  | alone hblanks hblanks' =>
    have hold := Written.object (.close (hblanks.append hblanks'))
    have hnew := Written.object (hadded (.first hblanks) (.close hblanks'))
    exact ⟨_, _, by simpa using hold, by simpa [Spot.insert] using hnew, id, id,
      .unknown hname hdecoded form [] []⟩
  | @beforeMember last front separator tail members members' hfront hseparator htail hne =>
    have hold := Written.object (hfront.append (htail.after hne hseparator))
    have hlater := htail.after hne (.later isBlanks_nil isBlanks_nil)
    have hnew := Written.object (hfront.append (hadded hseparator hlater))
    exact ⟨_, _, by simpa using hold, by simpa [Spot.insert] using hnew, id, id,
      .unknown hname hdecoded form members members'⟩
  | @afterMember members members' front blanks tail hfront hblanks htail =>
    have hold := Written.object (hfront.append (htail.prepend hblanks))
    have hnew := Written.object (hfront.append (hadded (.later hblanks isBlanks_nil) htail))
    exact ⟨_, _, by simpa using hold, by simpa [Spot.insert] using hnew, id, id,
      .unknown hname hdecoded form members members'⟩
  | @member s inner spot last decoded front separator blanks blanks' before after tail pieces
      members members' hfront hseparator hpieces hdecode hinside hblanks hblanks' _ htail ih =>
    obtain ⟨old, new, hold, hnew, -, -, halike⟩ := ih
    have hwithout := Written.object
      (hfront.append (.member hseparator hpieces hblanks hblanks' hold htail))
    have hwith := Written.object
      (hfront.append (.member hseparator hpieces hblanks hblanks' hnew htail))
    exact ⟨_, _, by simpa using hwithout, by simpa using hwith, id, id,
      halike.member hdecode hinside members members'⟩
  | @item k spot last front separator before after tail items items' hfront hseparator hk _ htail
      ih =>
    obtain ⟨old, new, hold, hnew, -, -, halike⟩ := ih
    have hwithout := Written.list (hfront.append (.item hseparator hold htail))
    have hwith := Written.list (hfront.append (.item hseparator hnew htail))
    exact ⟨_, _, by simpa using hwithout, by simpa using hwith, id, id, halike.item hk items'⟩

/-- Unknown keywords never matter: with a member of any other name, and any JSON value in it, put
into any node of a schema, the text is the same schema, and the same code is generated for it. -/
theorem Node.parse_insert {text : String} {node : Node} {blanks before after rest : List Char}
    {spot : Spot} {name : String} {form : Form} {member : List Char}
    (h : Node.parse text = .ok node)
    (htext : text.toList = blanks ++ (before ++ (after ++ rest))) (hblanks : IsBlanks blanks)
    (hgap : Gap .node spot before after) (hname : ∀ k : Keyword, name ≠ k.name)
    (hmember : MemberWritten name form member) {text' : String}
    (htext' : text'.toList = blanks ++ (before ++ (spot.insert member ++ (after ++ rest)))) :
    Node.parse text' = .ok node ∧ ∀ o, generate text' o = generate text o := by
  have hunknown : Keyword.ofName? name = none :=
    Option.eq_none_iff_forall_ne_some.2 fun k hk => hname k (Keyword.eq_name_of_ofName? hk)
  obtain ⟨old, new, hold, hnew, holdScalar, hnewScalar, halike⟩ :=
    hgap.exists_alike hunknown hmember
  have hform := (parse_eq_ok_iff_ofForm hblanks hold holdScalar (by simpa using htext)).1 h
  have hparse : Node.parse text' = .ok node := by
    refine (parse_eq_ok_iff_ofForm hblanks hnew hnewScalar (by simpa using htext')).2 ?_
    rw [← hform, ofForm, ofForm, halike]
  refine ⟨hparse, fun o => ?_⟩
  simp only [generate, compileText, hparse, h]

/-- A string has no properties, but what is under them is read; the new member holds a number that
is too large and half a pair of surrogates. -/
theorem Node.parse_insert_title : ∃ node,
    parse "\x7b\"type\":\"string\",\"properties\":\x7b\"a\":\x7b\x7d\x7d\x7d" = .ok node ∧
    parse "\x7b\"type\":\"string\",\"properties\":\x7b\"a\":\x7b\"title\":[1e999,\"\\ud800\"]\x7d\x7d\x7d"
      = .ok node := by
  have haccepted : (parse "\x7b\"type\":\"string\",\"properties\":\x7b\"a\":\x7b\x7d\x7d\x7d"
      ).toOption.isSome := by decide +kernel
  obtain ⟨node, hparse⟩ := Option.isSome_iff_exists.1 haccepted
  have hnode := toOption_eq_some_iff.1 hparse
  have hproper (t : String) := Text.proper_quotedPieces t.toList
  have hinner := Gap.alone isBlanks_nil isBlanks_nil
  have ha : Inside .properties (.ofList "a".toList) .node := .property _
  have hproperties : Inside .node (.ofList "properties".toList) .properties := by
    rw [String.ofList_toList]
    exact .keyword .properties
  have hmiddle := Gap.member .none (.first isBlanks_nil) (hproper "a") (Text.decode_quotedPieces _)
    ha isBlanks_nil isBlanks_nil hinner (.close isBlanks_nil)
  have houter := Gap.member
    (.member (.first isBlanks_nil) (hproper "type") isBlanks_nil isBlanks_nil
      (.text (hproper "string")) .none)
    (.later isBlanks_nil isBlanks_nil) (hproper "properties") (Text.decode_quotedPieces _)
    hproperties isBlanks_nil isBlanks_nil hmiddle (.close isBlanks_nil)
  have hone : Numeral.IsWhole ['1'] := .inr ⟨⟨by decide, List.all_eq_true.1 rfl⟩, by decide⟩
  have hlarge : IsDigits ['9', '9', '9'] := ⟨by decide, List.all_eq_true.1 rfl⟩
  have hnumber := Numeral.Written.mk false hone .absent (.present 'e' (.inl rfl) .bare hlarge)
  have hhalf : ∀ p ∈ [Text.Piece.unit 'd' '8' '0' '0'], p.Proper := by
    simp only [List.forall_mem_singleton, Text.Piece.Proper]
    exact List.all_eq_true.1 rfl
  have hvalue := Written.list (.item (.first isBlanks_nil) (.number hnumber)
    (.item (.later isBlanks_nil isBlanks_nil) (.text hhalf) (.close isBlanks_nil)))
  have hmember : MemberWritten "title" _ _ :=
    .intro (hproper "title") (Text.decode_quotedPieces _) isBlanks_nil isBlanks_nil isBlanks_nil
      hvalue isBlanks_nil
  refine ⟨node, hnode, (parse_insert hnode (?_ : _ = _ ++ (_ ++ (_ ++ []))) isBlanks_nil houter ?_
    hmember ?_).1⟩
  · decide
  · intro k
    cases k <;> decide
  · decide

end ValidatorGen
