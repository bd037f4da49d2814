import ValidatorGen.Proofs.Json.Compact
import ValidatorGen.Proofs.Reading.Judges
import ValidatorGen.Proofs.Reading.Value
import ValidatorGen.Reading.Node

/-! Reading values and schemas off written forms. Main statement: whatever the form, its text comes
to what the form describes, or to the complaint about it. -/
namespace ValidatorGen

open Json Reader

namespace Messages

theorem outcome_skipItems {items : List Form} {chars : List Char}
    (h : ItemsWritten true items chars) (rest : List Char) :
    skipItems.outcome ('[' :: (chars ++ rest)) = .ok ((), rest) := by
  have hfold (items : List Form) (i : Nat) :
      foldItems (fun _ _ => .ok ()) i () items = .ok () := by
    induction items generalizing i with
    | nil => rfl
    | cons form items ih => exact ih (i + 1)
  have hlist := outcome_list (fun _ => judges_skipValue) h () rest
  rwa [hfold] at hlist

theorem outcome_skipMembers {members : List (List Text.Piece × Form)} {chars : List Char}
    (h : MembersWritten true members chars) (rest : List Char) :
    skipMembers.outcome ('{' :: (chars ++ rest))
      = (fun _ => ((), rest)) <$> foldMembers (fun _ _ _ => .ok ()) () members :=
  outcome_object (fun _ name => judges_skipValue.valueOf name) h () rest

theorem judges_readEntry (levels : Nat) : Judges (readEntry levels) (entryOfForm levels) := by
  unfold readEntry
  apply Judges.ofHead entryOfHead
  · intro form hscalar
    cases form with
    | null | boolean b | number n | text s => rfl
    | list items | object members => exact hscalar.elim
  · intro h hlist hobject rest
    cases h with
    | list => exact absurd rfl hlist
    | object => exact absurd rfl hobject
    | _ => rfl
  · intro items chars hitems rest
    cases levels with
    | zero => rfl
    | succ inner => simp [outcome_skipItems hitems rest, entryOfForm, Form.head, entryOfHead]
  · intro members chars hmembers rest
    cases levels with
    | zero => rfl
    | succ inner =>
      have hskip := outcome_skipMembers hmembers rest
      simp only [Nat.succ_ne_zero, if_false, outcome_map, hskip, entryOfForm]
      cases foldMembers (fun _ _ _ => .ok ()) () members <;> rfl

theorem judges_readMember (levels : Nat) (m : Messages) (name : String) :
    JudgesAfter IsColon (readMember levels m name) (memberOfForm levels m name) :=
  ((judges_readEntry levels).valueOf name).bind fun entry text => by
    cases entry <;> rfl

end Messages

theorem judges_readName : Judges readName nameOfForm := by
  apply Judges.ofHead fun h => Verdict.ofMismatch h.asText
  · intro form _
    rfl
  · intro h _ _ rest
    exact outcome_orMismatch h.asText rest
  · intro items chars _ rest
    rfl
  · intro members chars _ rest
    rfl

/-- The object may end at a keyword that is written twice, but the complaint is the same. -/
theorem outcome_repeatedKeyword {α : Type} (k : Keyword) (text : List Char) :
    (repeatedKeyword k : Reader α).outcome text = .refuse (.mismatch (.repeatedKeyword k)) := by
  rw [repeatedKeyword, outcome_blanks_bind, outcome_peek_bind]
  split <;> rfl

namespace Record

variable {value : (s : Shape) → Reader s.Value} {f : (s : Shape) → Form → Verdict s.Value}
  (hvalue : ∀ s, Judges (value s) (f s))
include hvalue

theorem judges_readMember (r : Record) (name : String) :
    JudgesAfter IsColon (r.readMember value name) (r.memberOfForm f name) := by
  unfold readMember memberOfForm
  cases Keyword.ofName? name with
  | none => exact (judges_skipValue.valueOf name).map fun _ => r
  | some k =>
    by_cases hk : r.has k
    · simp only [hk, if_true]
      intro before chars form _ _ rest _
      exact outcome_repeatedKeyword k _
    · simp only [hk, Bool.false_eq_true, if_false]
      exact ((hvalue k.shape).valueOf name).map (r.set k)

theorem outcome_readItems_cons {first : Bool} {separator chars : List Char} {form : Form}
    (hseparator : Separator first separator) (hwritten : Written form chars) (k : Keyword)
    (keywords : List Keyword) {i : Nat} (hi : first = decide (i = 0)) (r : Record)
    {rest : List Char} (hrest : Follows rest) :
    (readItems value (k :: keywords) i r).outcome (separator ++ (chars ++ rest))
      = Verdict.within (.index i) (f k.shape form) >>= fun v =>
        (readItems value keywords (i + 1) (r.set k v)).outcome rest := by
  have hread := hvalue k.shape isBlanks_nil hwritten rest hrest
  obtain ⟨c, tail, rfl, hblank, hclose⟩ := hwritten.exists_cons
  have hmore := outcome_moreItems_item hseparator hblank hclose (tail ++ rest)
  rw [List.nil_append, List.cons_append] at hread
  rw [List.cons_append, readItems, outcome_bind, ← hi, hmore, Verdict.ok_bind, if_pos rfl,
    outcome_bind, outcome_under, hread]
  cases f k.shape form <;> rfl

theorem outcome_readItems {keywords : List Keyword} {items : List Form} {first : Bool}
    {chars : List Char} (h : ItemsWritten first items chars) {i : Nat}
    (hi : first = decide (i = 0)) (hlast : keywords = [] → first = false) (r : Record)
    (rest : List Char) :
    (readItems value keywords i r >>= fun r => closeList >>= fun _ => pure r).outcome
        (chars ++ rest)
      = (fun r => (r, rest)) <$> ofItems f keywords i r items := by
  induction keywords generalizing items first chars i r with
  | nil =>
    cases h with
    | close hblanks =>
      have hclose := outcome_closeList hblanks rest
      simp [readItems, hclose, ofItems]
    | item hseparator hwritten _ =>
      rw [hlast rfl] at hseparator
      obtain ⟨c, tail, rfl, hblank, hclose⟩ := hwritten.exists_cons
      have hextra := outcome_closeList_item hseparator hblank hclose
      simp [readItems, hextra, ofItems]
  | cons k keywords ih =>
    cases h with
    | close hblanks =>
      have hmore := outcome_moreItems_close hblanks (decide (i = 0)) rest
      have hclose := outcome_closeList isBlanks_nil rest
      rw [List.nil_append] at hclose
      by_cases hk : k.mayEndBefore
      · simp [readItems, hmore, hclose, ofItems, hk]
      · simp [readItems, hmore, ofItems, hk]
    | item hseparator hwritten htail =>
      have hitem := outcome_readItems_cons hvalue hseparator hwritten k keywords hi r
        (htail.follows rest)
      rw [List.append_assoc, List.append_assoc, outcome_bind, hitem, ofItems]
      cases Verdict.within (.index i) (f k.shape _) with
      | error c => rfl
      | ok v =>
        have hrest := ih htail (i := i + 1) (by simp) (fun _ => rfl) (r.set k v)
        rw [outcome_bind] at hrest
        exact hrest

theorem outcome_readList {items : List Form} {chars : List Char}
    (h : ItemsWritten true items chars) (rest : List Char) :
    (readList value).outcome ('[' :: (chars ++ rest))
      = (fun r => (r, rest)) <$> ofItems f Keyword.all 0 .empty items := by
  rw [readList, outcome_skip_bind, List.tail_cons]
  have hnotAll : Keyword.all ≠ [] := by decide
  exact outcome_readItems hvalue h (i := 0) rfl (fun hall => absurd hall hnotAll) .empty rest

end Record

/-- What is read as a value of this shape is what the form is worth. -/
def JudgesShape (levels : Nat) (s : Shape) : Prop :=
  Judges (s.read levels) (Shape.ofForm levels s)

section Heads

variable (levels : Nat) (s : Shape)

theorem readFrom_of_ne {h : Head} (hlist : h ≠ .list) (hobject : h ≠ .object) :
    Shape.readFrom levels s h = orMismatch (s.ofHead h) := by
  cases h with
  | list => exact absurd rfl hlist
  | object => exact absurd rfl hobject
  | null | boolean b | number n | text t => cases levels <;> cases s <;> rfl

/-- Scalars are read as what their heads are worth, so only lists and objects matter. -/
theorem judgesShape_of
    (list : ∀ items chars, ItemsWritten true items chars → ∀ rest,
      (Shape.readFrom levels s .list).outcome ('[' :: (chars ++ rest))
        = (fun value => (value, rest)) <$> Shape.ofForm levels s (.list items))
    (object : ∀ members chars, MembersWritten true members chars → ∀ rest,
      (Shape.readFrom levels s .object).outcome ('{' :: (chars ++ rest))
        = (fun value => (value, rest)) <$> Shape.ofForm levels s (.object members)) :
    JudgesShape levels s := by
  refine Judges.ofHead (fun h => .ofMismatch (s.ofHead h)) ?_ ?_ list object
  · intro form hscalar
    exact Shape.ofForm_of_isScalar levels s hscalar
  · intro h hlist hobject rest
    rw [readFrom_of_ne levels s hlist hobject, outcome_orMismatch]

end Heads

section Shapes

variable {levels : Nat} (hinner : ∀ inner, levels = inner + 1 → ∀ s, JudgesShape inner s)
include hinner

theorem outcome_node_list {items : List Form} {chars : List Char}
    (h : ItemsWritten true items chars) (rest : List Char) :
    (Shape.readFrom levels .node .list).outcome ('[' :: (chars ++ rest))
      = (fun node => (node, rest)) <$> Shape.ofForm levels .node (.list items) := by
  cases levels with
  | zero => rfl
  | succ inner =>
    have hlist := Record.outcome_readList (hinner inner rfl) h rest
    rw [Shape.readFrom, outcome_map, ← Shape.read, Shape.ofForm]
    refine (congrArg _ hlist).trans ?_
    cases Record.ofItems (Shape.ofForm inner) Keyword.all 0 .empty items <;> rfl

theorem outcome_node_object {members : List (List Text.Piece × Form)} {chars : List Char}
    (h : MembersWritten true members chars) (rest : List Char) :
    (Shape.readFrom levels .node .object).outcome ('{' :: (chars ++ rest))
      = (fun node => (node, rest)) <$> Shape.ofForm levels .node (.object members) := by
  cases levels with
  | zero => rfl
  | succ inner =>
    have hobject := outcome_object
      (fun r name => Record.judges_readMember (hinner inner rfl) r name) h .empty rest
    rw [Shape.readFrom, outcome_map, ← Shape.read, Shape.ofForm]
    refine (congrArg _ hobject).trans ?_
    cases foldMembers (Record.memberOfForm (Shape.ofForm inner)) .empty members <;> rfl

theorem judgesShape_node : JudgesShape levels .node :=
  judgesShape_of levels .node (fun _ _ hitems => outcome_node_list hinner hitems)
    (fun _ _ hmembers => outcome_node_object hinner hmembers)

omit hinner in
theorem readFrom_properties (inner : Nat) : Shape.readFrom (inner + 1) .properties .object
    = Reader.object (fun properties name => (Entries.put name · properties)
      <$> Reader.valueOf name
        (Shape.read inner .node >>= fun node? => orMismatch (requireNode node?))) [] := by
  rw [Shape.readFrom]
  simp only [bind_pure_comp]
  rfl

theorem judgesShape_properties : JudgesShape levels .properties := by
  apply judgesShape_of
  · intro items chars _ rest
    cases levels <;> rfl
  · intro members chars hmembers rest
    cases levels with
    | zero => rfl
    | succ inner =>
      have hnode : Judges
          (Shape.read inner .node >>= fun node? => orMismatch (requireNode node?))
          (fun form => requiredNode (Shape.ofForm inner .node form)) :=
        (hinner inner rfl .node).bind fun node? text => outcome_orMismatch (requireNode node?) text
      have hobject := outcome_object
        (fun properties name => (hnode.valueOf name).map (Entries.put name · properties))
        hmembers [] rest
      rw [readFrom_properties, hobject, Shape.ofForm]

omit hinner in
theorem judgesShape_names : JudgesShape levels .names := by
  apply judgesShape_of
  · intro items chars hitems rest
    cases levels with
    | zero => rfl
    | succ inner =>
      have hlist := outcome_list (fun names => judges_readName.map (· :: names)) hitems [] rest
      rw [Shape.readFrom, outcome_map, hlist, Shape.ofForm]
      cases foldItems (fun names form => (· :: names) <$> nameOfForm form) 0 [] items <;> rfl
  · intro members chars _ rest
    cases levels <;> rfl

omit hinner in
theorem judgesShape_messages : JudgesShape levels .messages := by
  apply judgesShape_of
  · intro items chars hitems rest
    have hskip := Messages.outcome_skipItems hitems rest
    cases levels with
    | zero => rfl
    | succ inner => simp [Shape.readFrom, Messages.readFrom, hskip, Shape.ofForm, Messages.ofForm,
        Form.head]
  · intro members chars hmembers rest
    cases levels with
    | zero => rfl
    | succ inner => exact outcome_object (Messages.judges_readMember inner) hmembers .empty rest

theorem judgesShape_of_inner (s : Shape) : JudgesShape levels s := by
  cases s with
  | text | count | number =>
    apply judgesShape_of
    · intro items chars _ rest
      cases levels <;> rfl
    · intro members chars _ rest
      cases levels <;> rfl
  | node => exact judgesShape_node hinner
  | properties => exact judgesShape_properties hinner
  | names => exact judgesShape_names
  | messages => exact judgesShape_messages

end Shapes

theorem judgesShape (levels : Nat) (s : Shape) : JudgesShape levels s := by
  induction levels generalizing s with
  | zero => exact judgesShape_of_inner (by rintro _ ⟨⟩) s
  | succ inner ih =>
    refine judgesShape_of_inner ?_ s
    rintro _ ⟨⟩
    exact ih

theorem Messages.judges_read (levels : Nat) : Judges (read levels) (ofForm levels) := by
  have hread : Shape.read levels .messages = read levels := by
    unfold Shape.read Shape.afterHead read
    simp only [Shape.readFrom]
  have hform : Shape.ofForm levels .messages = ofForm levels := by
    funext form
    rw [Shape.ofForm]
  rw [← hread, ← hform]
  exact judgesShape levels .messages

/-- The text of a form is read to its end, or complained about like the form. -/
theorem Node.judges_read : Judges Node.read (Node.ofForm maxLevels) :=
  (judgesShape maxLevels .node).bind fun node? text => outcome_orMismatch (requireNode node?) text

/-- A text with a form is a schema, or refused, just like the form. -/
theorem Node.complaint_parse {text : String} {form : Form} (h : IsTextOf form text.toList) :
    (Node.parse text).mapError ParseError.complaint = Node.ofForm maxLevels form := by
  obtain ⟨before, chars, after, hbefore, hafter, hwritten, htext⟩ := h
  have hfollows : Follows after := by simpa using hafter.follows follows_nil
  have hread := Node.judges_read hbefore hwritten after hfollows
  rw [← htext] at hread
  cases hform : Node.ofForm maxLevels form with
  | ok node =>
    rw [hform] at hread
    rw [Node.parse, run_of_outcome_ok hread]
    rfl
  | error c =>
    rw [hform] at hread
    obtain ⟨e, hrun, he⟩ := run_of_outcome_error hread
    rw [Node.parse, hrun, ← he]
    rfl

theorem Node.parse_of_isTextOf {text : String} {form : Form} (h : IsTextOf form text.toList)
    {node : Node} (hform : Node.ofForm maxLevels form = .ok node) :
    Node.parse text = .ok node := by
  have hcomplaint := Node.complaint_parse h
  rw [hform] at hcomplaint
  cases hparse : Node.parse text with
  | error e =>
    rw [hparse] at hcomplaint
    cases hcomplaint
  | ok other =>
    rw [hparse] at hcomplaint
    exact congrArg Except.ok (Except.ok.inj hcomplaint)

end ValidatorGen
