import ValidatorGen.Proofs.Reading.Forms
import ValidatorGen.Proofs.Reading.Skipped

/-! How much of a text is read as a schema. Main statements: it is a list or an object and nothing
after it, so a text that is cut short is no schema, and what follows a schema does not matter. -/
namespace ValidatorGen

open Json Reader

theorem eq_of_orMismatch {α : Type} {result : Except Mismatch α} {text rest : List Char} {a : α}
    (h : (orMismatch result).result? text = some (a, rest)) : rest = text := by
  cases result with
  | error m => cases h
  | ok b =>
    cases h
    rfl

namespace Messages

theorem starts_readEntry (levels : Nat) : Starts (readEntry levels) := by
  apply Starts.ofHead
  · intro h hlist hobject text a rest hread
    cases h with
    | list => exact absurd rfl hlist
    | object => exact absurd rfl hobject
    | null | boolean b | number n | text s =>
      cases hread
      rfl
  · intro text a rest hread
    cases levels with
    | zero => cases hread
    | succ inner =>
      rw [result?_ite, if_neg (Nat.succ_ne_zero inner), result?_map, Option.map_eq_some_iff] at hread
      obtain ⟨⟨_, _⟩, hskip, heq⟩ := hread
      cases heq
      exact list_sound (fun _ => starts_skipValue) hskip
  · intro text a rest hread
    cases levels with
    | zero => cases hread
    | succ inner =>
      rw [result?_ite, if_neg (Nat.succ_ne_zero inner), result?_map, Option.map_eq_some_iff] at hread
      obtain ⟨⟨_, _⟩, hskip, heq⟩ := hread
      cases heq
      exact object_sound (fun _ name => starts_skipValue.valueOf name) hskip

theorem starts_readMember (levels : Nat) (m : Messages) (name : String) :
    StartsAfter IsColon (readMember levels m name) :=
  ((starts_readEntry levels).valueOf name).bind fun entry text m rest hread => by
    cases entry <;> cases hread <;> rfl

end Messages

theorem starts_readName : Starts readName := by
  apply Starts.ofHead
  · intro h _ _ text name rest hread
    exact eq_of_orMismatch hread
  · rintro text name rest ⟨⟩
  · rintro text name rest ⟨⟩

theorem closeList_sound {text rest : List Char} (h : closeList.result? text = some ((), rest)) :
    ∃ blanks, IsBlanks blanks ∧ text = blanks ++ ']' :: rest := by
  obtain ⟨blanks, c, tail, hblanks, htext, h⟩ := afterBlanks_sound h rfl
  simp only [result?_ite] at h
  split at h
  · next hc =>
    cases h
    exact ⟨blanks, hblanks, by rw [htext, hc, List.tail_cons]⟩
  split at h
  · rw [result?_skip_bind, result?_blanks_bind, result?_peek_bind, result?_ite] at h
    split at h <;> cases h
  · cases h

section Record

variable {value : (s : Shape) → Reader s.Value} (hvalue : ∀ s, Starts (value s))
include hvalue

theorem Record.starts_readMember (r : Record) (name : String) :
    StartsAfter IsColon (r.readMember value name) := by
  unfold readMember
  cases Keyword.ofName? name with
  | none => exact (starts_skipValue.valueOf name).map fun _ => r
  | some k =>
    by_cases hk : r.has k
    · simp only [hk, if_true]
      intro text rest a hread
      rw [result?_eq_toOption, outcome_repeatedKeyword] at hread
      cases hread
    · simp only [hk, Bool.false_eq_true, if_false]
      exact ((hvalue k.shape).valueOf name).map (r.set k)

theorem Record.readItems_sound {keywords : List Keyword} {i : Nat} {r result : Record}
    {text middle rest : List Char}
    (h : (readItems value keywords i r).result? text = some (result, middle))
    (hclose : closeList.result? middle = some ((), rest)) :
    ∃ items chars, ItemsWritten (decide (i = 0)) items chars ∧ text = chars ++ rest := by
  induction keywords generalizing i r text with
  | nil =>
    cases h
    obtain ⟨blanks, hblanks, rfl⟩ := closeList_sound hclose
    exact ⟨[], _, .close hblanks, by simp⟩
  | cons k keywords ih =>
    rw [readItems, result?_bind, Option.bind_eq_some_iff] at h
    obtain ⟨⟨more, front⟩, hmore, h⟩ := h
    obtain ⟨rfl, blanks, after, hblanks, rfl, rfl⟩ | ⟨rfl, separator, hseparator, rfl⟩ :=
      moreItems_sound hmore
    · by_cases hk : k.mayEndBefore
      · simp only [Bool.false_eq_true, if_false, hk, if_true] at h
        cases h
        have hend := result?_of_outcome (outcome_closeList isBlanks_nil after)
        rw [List.nil_append, hclose] at hend
        cases hend
        exact ⟨[], _, .close hblanks, by simp⟩
      · simp only [Bool.false_eq_true, if_false, hk] at h
        cases h
    · simp only [if_true, result?_bind, result?_under, Option.bind_eq_some_iff] at h
      obtain ⟨⟨v, after⟩, hread, h⟩ := h
      obtain ⟨before, chars, form, hbefore, hwritten, rfl⟩ := hvalue k.shape hread
      obtain ⟨items, tail, htail, hafter⟩ := ih h
      simp only at hafter
      have hitem := ItemsWritten.item (hseparator.append hbefore) hwritten htail
      exact ⟨form :: items, _, hitem, by simp [hafter]⟩

theorem Record.readList_sound {text rest : List Char} {r : Record}
    (h : (readList value).result? ('[' :: text) = some (r, rest)) :
    ∃ items chars, ItemsWritten true items chars ∧ text = chars ++ rest := by
  rw [readList, result?_skip_bind, List.tail_cons, result?_bind, Option.bind_eq_some_iff] at h
  obtain ⟨⟨_, middle⟩, hitems, h⟩ := h
  rw [result?_bind, Option.bind_eq_some_iff] at h
  obtain ⟨⟨_, _⟩, hclose, h⟩ := h
  cases h
  exact readItems_sound hvalue (i := 0) hitems hclose

end Record

theorem eq_of_readFrom {levels : Nat} {s : Shape} {h : Head} (hlist : h ≠ .list)
    (hobject : h ≠ .object) {text rest : List Char} {a : s.Value}
    (hread : (Shape.readFrom levels s h).result? text = some (a, rest)) : rest = text := by
  rw [readFrom_of_ne levels s hlist hobject] at hread
  exact eq_of_orMismatch hread

section Shapes

variable {levels : Nat} (hinner : ∀ inner, levels = inner + 1 → ∀ s, Starts (Shape.read inner s))
include hinner

theorem node_list_sound {text rest : List Char} {node : Option Node}
    (h : (Shape.readFrom levels .node .list).result? ('[' :: text) = some (node, rest)) :
    ∃ items chars, ItemsWritten true items chars ∧ text = chars ++ rest := by
  cases levels with
  | zero => cases h
  | succ inner =>
    rw [Shape.readFrom, result?_map, Option.map_eq_some_iff] at h
    obtain ⟨⟨_, _⟩, hlist, heq⟩ := h
    cases heq
    exact Record.readList_sound (hinner inner rfl) hlist

theorem node_object_sound {text rest : List Char} {node : Option Node}
    (h : (Shape.readFrom levels .node .object).result? ('{' :: text) = some (node, rest)) :
    ∃ members chars, MembersWritten true members chars ∧ text = chars ++ rest := by
  cases levels with
  | zero => cases h
  | succ inner =>
    rw [Shape.readFrom, result?_map, Option.map_eq_some_iff] at h
    obtain ⟨⟨_, _⟩, hobject, heq⟩ := h
    cases heq
    exact object_sound (fun r name => Record.starts_readMember (hinner inner rfl) r name) hobject

theorem properties_object_sound {text rest : List Char} {properties : List (String × Node)}
    (h : (Shape.readFrom levels .properties .object).result? ('{' :: text)
      = some (properties, rest)) :
    ∃ members chars, MembersWritten true members chars ∧ text = chars ++ rest := by
  cases levels with
  | zero => cases h
  | succ inner =>
    have hnode : Starts (Shape.read inner .node >>= fun node? => orMismatch (requireNode node?)) :=
      (hinner inner rfl .node).bind fun node? text node rest hread => eq_of_orMismatch hread
    rw [readFrom_properties] at h
    exact object_sound
      (fun properties name => (hnode.valueOf name).map (Entries.put name · properties)) h

theorem starts_of_inner (s : Shape) : Starts (s.read levels) := by
  apply Starts.ofHead
  · intro h hlist hobject text a rest hread
    exact eq_of_readFrom hlist hobject hread
  · intro text a rest hread
    cases s with
    | node => exact node_list_sound hinner hread
    | names =>
      cases levels with
      | zero => cases hread
      | succ inner =>
        rw [Shape.readFrom, result?_map, Option.map_eq_some_iff] at hread
        obtain ⟨⟨_, _⟩, hlist, heq⟩ := hread
        cases heq
        exact list_sound (fun names => starts_readName.map (· :: names)) hlist
    | messages =>
      cases levels with
      | zero => cases hread
      | succ inner =>
        have hskip : ((fun _ => Messages.empty) <$> Messages.skipItems).result? ('[' :: text)
            = some (a, rest) := hread
        rw [result?_map, Option.map_eq_some_iff] at hskip
        obtain ⟨⟨_, _⟩, hlist, heq⟩ := hskip
        cases heq
        exact list_sound (fun _ => starts_skipValue) hlist
    | text | count | number | properties => cases levels <;> cases hread
  · intro text a rest hread
    cases s with
    | node => exact node_object_sound hinner hread
    | properties => exact properties_object_sound hinner hread
    | messages =>
      cases levels with
      | zero => cases hread
      | succ inner => exact object_sound (Messages.starts_readMember inner) hread
    | text | count | number | names => cases levels <;> cases hread

end Shapes

theorem starts_read (levels : Nat) (s : Shape) : Starts (s.read levels) := by
  induction levels generalizing s with
  | zero => exact starts_of_inner (by rintro _ ⟨⟩) s
  | succ inner ih =>
    refine starts_of_inner ?_ s
    rintro _ ⟨⟩
    exact ih

namespace Node

/-- What is read as a schema is a list or an object. -/
theorem read_sound {text rest : List Char} {node : Node}
    (h : Node.read.result? text = some (node, rest)) :
    ∃ before chars form, IsBlanks before ∧ Written form chars ∧ ¬form.IsScalar
      ∧ text = before ++ (chars ++ rest) := by
  have inner (inner : Nat) (_ : maxLevels = inner + 1) (s : Shape) := starts_read inner s
  rw [Node.read, result?_bind, Option.bind_eq_some_iff] at h
  obtain ⟨⟨node?, middle⟩, hread, hnode⟩ := h
  obtain rfl := eq_of_orMismatch hnode
  rw [Shape.read, Shape.afterHead, result?_bind, Option.bind_eq_some_iff] at hread
  obtain ⟨⟨head, front⟩, hhead, hread⟩ := hread
  obtain ⟨before, front, hbefore, rfl, hcases⟩ := head_sound hhead
  obtain ⟨hlist, hobject, -⟩ | ⟨rfl, rfl, hfront⟩ | ⟨rfl, rfl, hfront⟩ := hcases
  · rw [readFrom_of_ne maxLevels .node hlist hobject] at hread
    cases head with
    | null =>
      cases hread
      cases hnode
    | list => exact absurd rfl hlist
    | object => exact absurd rfl hobject
    | boolean b | number n | text s => cases hread
  · obtain ⟨tail, rfl⟩ := List.head?_eq_some_iff.1 hfront
    obtain ⟨items, chars, hitems, rfl⟩ := node_list_sound inner hread
    exact ⟨before, _, .list items, hbefore, .list hitems, not_false, rfl⟩
  · obtain ⟨tail, rfl⟩ := List.head?_eq_some_iff.1 hfront
    obtain ⟨members, chars, hmembers, rfl⟩ := node_object_sound inner hread
    exact ⟨before, _, .object members, hbefore, .object hmembers, not_false, rfl⟩

theorem outcome_read {before chars : List Char} {form : Form} (hbefore : IsBlanks before)
    (hwritten : Written form chars) (hscalar : ¬form.IsScalar) (rest : List Char) :
    Node.read.outcome (before ++ (chars ++ rest))
      = (fun node => (node, rest)) <$> Node.ofForm maxLevels form := by
  have inner (inner : Nat) (_ : maxLevels = inner + 1) (s : Shape) := judgesShape inner s
  have hshape : (Shape.read maxLevels .node).outcome (before ++ (chars ++ rest))
      = (fun node => (node, rest)) <$> Shape.ofForm maxLevels .node form := by
    cases hwritten with
    | null | boolean b | number _ | text _ => exact absurd trivial hscalar
    | list hitems =>
      rw [Shape.read, Shape.afterHead, outcome_bind, List.cons_append,
        outcome_head_blanks hbefore (by decide)]
      exact outcome_node_list inner hitems rest
    | object hmembers =>
      rw [Shape.read, Shape.afterHead, outcome_bind, List.cons_append,
        outcome_head_blanks hbefore (by decide)]
      exact outcome_node_object inner hmembers rest
  rw [Node.read, outcome_bind, hshape, Node.ofForm, requiredNode]
  cases Shape.ofForm maxLevels .node form with
  | error c => rfl
  | ok node? => exact outcome_orMismatch (requireNode node?) rest

theorem parse_eq_ok_iff_ofForm {text : String} {before chars rest : List Char} {form : Form}
    (hbefore : IsBlanks before) (hwritten : Written form chars) (hscalar : ¬form.IsScalar)
    (htext : text.toList = before ++ (chars ++ rest)) {node : Node} :
    Node.parse text = .ok node ↔ Node.ofForm maxLevels form = .ok node := by
  have hread := outcome_read hbefore hwritten hscalar rest
  rw [← htext] at hread
  rw [Node.parse, run_eq_ok_iff]
  simp only [result?_eq_toOption, hread]
  cases Node.ofForm maxLevels form with
  | error c => simp [Except.toOption]
  | ok other => simp [Except.toOption]

theorem exists_front_of_parse {text : String} {node : Node} (h : Node.parse text = .ok node) :
    ∃ before chars rest form, IsBlanks before ∧ Written form chars ∧ ¬form.IsScalar
      ∧ text.toList = before ++ (chars ++ rest) ∧ Node.ofForm maxLevels form = .ok node := by
  obtain ⟨rest, hread⟩ := run_eq_ok_iff.1 h
  obtain ⟨before, chars, form, hbefore, hwritten, hscalar, htext⟩ := read_sound hread
  exact ⟨before, chars, rest, form, hbefore, hwritten, hscalar, htext,
    (parse_eq_ok_iff_ofForm hbefore hwritten hscalar htext).1 h⟩

/-- A text is a schema exactly if one JSON value at its front is that schema; nothing after that
value is looked at. -/
theorem parse_eq_ok_iff_front {text : String} {node : Node} :
    Node.parse text = .ok node
      ↔ ∃ before chars rest form, IsBlanks before ∧ Written form chars
        ∧ text.toList = before ++ (chars ++ rest) ∧ Node.parse (.ofList chars) = .ok node := by
  constructor
  · intro h
    obtain ⟨before, chars, rest, form, hbefore, hwritten, hscalar, htext, hform⟩ :=
      exists_front_of_parse h
    refine ⟨before, chars, rest, form, hbefore, hwritten, htext, ?_⟩
    have hchars : (String.ofList chars).toList = [] ++ (chars ++ []) := by simp
    exact (parse_eq_ok_iff_ofForm isBlanks_nil hwritten hscalar hchars).2 hform
  · rintro ⟨before, chars, rest, form, hbefore, -, htext, h⟩
    obtain ⟨before', chars', rest', form', hbefore', hwritten', hscalar', hchars, hform'⟩ :=
      exists_front_of_parse h
    rw [String.toList_ofList] at hchars
    have hfront : text.toList = before ++ before' ++ (chars' ++ (rest' ++ rest)) := by
      simp [htext, hchars]
    exact (parse_eq_ok_iff_ofForm (hbefore.append hbefore') hwritten' hscalar' hfront).2 hform'

/-- If less of a text is a schema too, that schema is read off the same characters. -/
theorem eq_of_read {text : String} {before chars rest before' chars' rest' : List Char}
    {form form' : Form} {node' : Node} (hbefore : IsBlanks before) (hwritten : Written form chars)
    (hscalar : ¬form.IsScalar) (htext : text.toList = before ++ (chars ++ rest))
    (hbefore' : IsBlanks before') (hwritten' : Written form' chars') (hscalar' : ¬form'.IsScalar)
    (htext' : text.toList = before' ++ (chars' ++ rest'))
    (hform' : Node.ofForm maxLevels form' = .ok node') : rest = rest' := by
  have hread := outcome_read hbefore hwritten hscalar rest
  have hread' := outcome_read hbefore' hwritten' hscalar' rest'
  rw [← htext] at hread
  rw [← htext', hread, hform'] at hread'
  cases hform : Node.ofForm maxLevels form with
  | error c =>
    rw [hform] at hread'
    cases hread'
  | ok node =>
    rw [hform] at hread'
    exact congrArg Prod.snd (Except.ok.inj hread')

/-- Braces are a schema whatever comes after them. -/
theorem not_isText_of_braces :
    ∃ node, Node.parse "\x7b\x7d x" = .ok node ∧ ¬∃ form, IsTextOf form "\x7b\x7d x".toList := by
  have haccepted : (Node.parse "\x7b\x7d x").toOption.isSome := by decide +kernel
  obtain ⟨node, hnode⟩ := Option.isSome_iff_exists.1 haccepted
  refine ⟨node, toOption_eq_some_iff.1 hnode, ?_⟩
  rintro ⟨form, before, chars, after, hbefore, hafter, hwritten, htext⟩
  have hfollows : Follows after := by simpa using hafter.follows follows_nil
  have hjudged := judges_skipValue hbefore hwritten after hfollows
  have hskip : (whole skipValue).run "\x7b\x7d x" = .ok () := by
    refine run_whole_eq_ok_iff.2 ⟨after, hafter, ?_⟩
    rw [result?_eq_toOption, htext, hjudged]
    rfl
  have hrefused : (whole skipValue).run "\x7b\x7d x" ≠ .ok () := by decide +kernel
  exact hrefused hskip

/-- The schema of a text ends after so many characters, with a bracket: with fewer of them there is
no schema, and with so many there is this one, whatever comes then. -/
structure EndsAt (text : String) (node : Node) (e : Nat) : Prop where
  bracket : ∃ i, e = i + 1 ∧ (text.toList[i]? = some '}' ∨ text.toList[i]? = some ']')
  refused : ∀ p : String, p.toList <+: text.toList → p.length < e →
    ∃ error, Node.parse p = .error error
  accepted : ∀ p : String, p.toList <+: text.toList → e ≤ p.length →
    ∀ u : String, Node.parse (p ++ u) = .ok node

theorem EndsAt.le {text : String} {node : Node} {e e' : Nat} (h : EndsAt text node e)
    (h' : EndsAt text node e') : e ≤ e' := by
  by_contra hlt
  obtain ⟨i, rfl, hbracket⟩ := h'.bracket
  have hi : i < text.toList.length := by
    by_contra hi
    rw [List.getElem?_eq_none (Nat.not_lt.1 hi)] at hbracket
    simp at hbracket
  have hprefix : (String.ofList (text.toList.take (i + 1))).toList <+: text.toList := by
    rw [String.toList_ofList]
    exact List.take_prefix (i + 1) text.toList
  have hlength : (String.ofList (text.toList.take (i + 1))).length = i + 1 := by
    rw [← String.length_toList, String.toList_ofList, List.length_take]
    omega
  obtain ⟨error, hrefused⟩ := h.refused _ hprefix (by omega)
  have haccepted := h'.accepted _ hprefix (by omega) ""
  rw [String.append_empty, hrefused] at haccepted
  cases haccepted

theorem EndsAt.unique {text : String} {node : Node} {e e' : Nat} (h : EndsAt text node e)
    (h' : EndsAt text node e') : e = e' := Nat.le_antisymm (h.le h') (h'.le h)

/-- Truncation is detected: every schema has one end. -/
theorem existsUnique_endsAt {text : String} {node : Node} (h : Node.parse text = .ok node) :
    ∃! e, EndsAt text node e := by
  obtain ⟨before, chars, rest, form, hbefore, hwritten, hscalar, htext, hform⟩ :=
    exists_front_of_parse h
  obtain ⟨init, c, hchars, hc⟩ := hwritten.exists_append hscalar
  have hfront : text.toList = (before ++ chars) ++ rest := by rw [htext, List.append_assoc]
  have hends : EndsAt text node (before ++ chars).length := by
    refine ⟨⟨(before ++ init).length, ?_, ?_⟩, ?_, ?_⟩
    · simp only [hchars, List.length_append, List.length_singleton]
      omega
    · have hget : text.toList[(before ++ init).length]? = some c := by
        have hsplit : text.toList = (before ++ init) ++ c :: rest := by simp [hfront, hchars]
        rw [hsplit, List.getElem?_append_right (Nat.le_refl _), Nat.sub_self]
        rfl
      rcases hc with rfl | rfl
      · exact .inl hget
      · exact .inr hget
    · rintro p ⟨more, hmore⟩ hlength
      cases hparse : Node.parse p with
      | error e => exact ⟨e, rfl⟩
      | ok node' =>
        exfalso
        obtain ⟨before', chars', rest', form', hbefore', hwritten', hscalar', hp, hform'⟩ :=
          exists_front_of_parse hparse
        have htext' : text.toList = before' ++ (chars' ++ (rest' ++ more)) := by
          rw [← hmore, hp]
          simp
        have hrest := eq_of_read hbefore hwritten hscalar htext hbefore' hwritten' hscalar' htext'
          hform'
        have hlong : text.toList.length = (before ++ chars).length + (rest' ++ more).length := by
          rw [hfront, hrest, List.length_append]
        have hshort : text.toList.length = p.length + more.length := by
          rw [← hmore, List.length_append, String.length_toList]
        simp only [List.length_append] at hlong hlength
        omega
    · rintro p hprefix hlength u
      have hfrontPrefix : before ++ chars <+: text.toList := ⟨rest, hfront.symm⟩
      rw [← String.length_toList] at hlength
      obtain ⟨tail, hp⟩ := List.prefix_of_prefix_length_le hfrontPrefix hprefix hlength
      have hchange : (p ++ u).toList = before ++ (chars ++ (tail ++ u.toList)) := by
        rw [String.toList_append, ← hp]
        simp
      exact (parse_eq_ok_iff_ofForm hbefore hwritten hscalar hchange).2 hform
  exact ⟨_, hends, fun e he => he.unique hends⟩

theorem existsUnique_endsAt_brace : ∃ node, Node.parse "\x7b\"type\":\"null\"\x7d \x7b" = .ok node
    ∧ node.kind = .null ∧ ∃! e, EndsAt "\x7b\"type\":\"null\"\x7d \x7b" node e := by
  have hkind : (Node.parse "\x7b\"type\":\"null\"\x7d \x7b").toOption.map Node.kind = some .null := by
    decide +kernel
  obtain ⟨node, hnode, hnull⟩ := Option.map_eq_some_iff.1 hkind
  have hparse := toOption_eq_some_iff.1 hnode
  exact ⟨node, hparse, hnull, existsUnique_endsAt hparse⟩

end Node

end ValidatorGen
