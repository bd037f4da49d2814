import Mathlib.Data.List.Induction
import ValidatorGen.Proofs.Reading.Forms
import ValidatorGen.Proofs.Schema.RoundTrip
import ValidatorGen.Proofs.Schema.Valued

/-! Which members of an object are messages. Main statement: whatever value a text spells, its
messages are read, and they are the last text under each key. -/
namespace ValidatorGen.Messages

open Json Reader

theorem lookup_eq_none_of_lt {key : String} {entries : List (String × String)}
    (h : ∀ entry ∈ entries, key < entry.1) : entries.lookup key = none := by
  refine List.lookup_eq_none_iff.2 fun entry hentry => ?_
  have hne : key ≠ entry.1 := fun heq => String.lt_irrefl _ (heq ▸ h entry hentry)
  simpa using hne

/-- Sorted entries are found under their keys only if they are the same from the first one on. -/
theorem eq_of_lookup {entries entries' : List (String × String)}
    (hsorted : entries.Pairwise (·.1 < ·.1)) (hsorted' : entries'.Pairwise (·.1 < ·.1))
    (h : ∀ key, entries.lookup key = entries'.lookup key) : entries = entries' := by
  induction entries generalizing entries' with
  | nil =>
    cases entries' with
    | nil => rfl
    | cons entry' rest' =>
      obtain ⟨key', message'⟩ := entry'
      simpa using h key'
  | cons entry rest ih =>
    obtain ⟨key, message⟩ := entry
    cases entries' with
    | nil => simpa using h key
    | cons entry' rest' =>
      obtain ⟨key', message'⟩ := entry'
      obtain ⟨hlt, hrest⟩ := List.pairwise_cons.1 hsorted
      obtain ⟨hlt', hrest'⟩ := List.pairwise_cons.1 hsorted'
      -- The smaller of two different first keys would be found in one list only.
      have hkey : key = key' := by
        rcases Std.lt_trichotomy key key' with hless | heq | hless
        · have hall : ∀ entry ∈ (key', message') :: rest', key < entry.1 :=
            List.forall_mem_cons.2 ⟨hless, fun e he => String.lt_trans hless (hlt' e he)⟩
          simpa [lookup_eq_none_of_lt hall] using h key
        · exact heq
        · have hall : ∀ entry ∈ (key, message) :: rest, key' < entry.1 :=
            List.forall_mem_cons.2 ⟨hless, fun e he => String.lt_trans hless (hlt e he)⟩
          simpa [lookup_eq_none_of_lt hall] using h key'
      subst hkey
      have hmessage : message = message' := by simpa using h key
      have htail : rest = rest' := by
        refine ih hrest hrest' fun other => ?_
        by_cases hother : other = key
        · rw [hother, lookup_eq_none_of_lt hlt, lookup_eq_none_of_lt hlt']
        · simpa [List.lookup_cons, beq_eq_false_iff_ne.2 hother] using h other
      rw [hmessage, htail]

theorem ext_get {m m' : Messages} (h : ∀ key, m.get key = m'.get key) : m = m' :=
  eq_of_entries (eq_of_lookup m.sorted m'.sorted h)

theorem ofList_concat (entries : List (String × String)) (key message : String) :
    ofList (entries ++ [(key, message)]) = (ofList entries).insert key message := by
  simp [ofList]

section LastText

variable {D : Type} (text? : D → Option String)

def textMembers (members : List (String × D)) : List (String × String) :=
  members.filterMap fun member => (text? member.2).map (member.1, ·)

/-- The message is the last text under the key. What comes later under it is no text. -/
def LastText (members : List (String × D)) (key message : String) : Prop :=
  ∃ before d after, members = before ++ (key, d) :: after ∧ text? d = some message
    ∧ ∀ member ∈ after, member.1 = key → text? member.2 = none

variable {text?}

theorem not_lastText_nil (key message : String) : ¬LastText text? [] key message := by
  rintro ⟨before, d, after, hnil, -⟩
  simp at hnil

theorem lastText_concat (members : List (String × D)) (name : String) (d : D)
    (key message : String) : LastText text? (members ++ [(name, d)]) key message
      ↔ if name = key ∧ (text? d).isSome then text? d = some message
        else LastText text? members key message := by
  constructor
  · rintro ⟨before, found, after, hmembers, hfound, hafter⟩
    rcases List.eq_nil_or_concat after with rfl | ⟨init, last, rfl⟩
    · obtain ⟨-, hlast⟩ := List.append_inj' hmembers rfl
      obtain ⟨rfl, rfl⟩ := Prod.mk.inj (List.singleton_inj.1 hlast)
      simp [hfound]
    · have hsplit : members ++ [(name, d)] = (before ++ (key, found) :: init) ++ [last] := by
        simp [hmembers]
      obtain ⟨hinit, hlast⟩ := List.append_inj' hsplit rfl
      obtain rfl := List.singleton_inj.1 hlast
      have hnone : name = key → text? d = none := hafter (name, d) (by simp)
      rw [if_neg fun h => by simp [hnone h.1] at h]
      exact ⟨before, found, init, hinit, hfound, fun member hmem =>
        hafter member (by simp [hmem])⟩
  · intro h
    by_cases hlast : name = key ∧ (text? d).isSome
    · rw [if_pos hlast] at h
      obtain ⟨rfl, -⟩ := hlast
      exact ⟨members, d, [], rfl, h, by simp⟩
    · rw [if_neg hlast] at h
      obtain ⟨before, found, after, rfl, hfound, hafter⟩ := h
      refine ⟨before, found, after ++ [(name, d)], by simp, hfound, fun member hmem hkey => ?_⟩
      rcases List.mem_append.1 hmem with hmem | hmem
      · exact hafter member hmem hkey
      · obtain rfl := List.mem_singleton.1 hmem
        simpa [show name = key from hkey] using hlast

theorem get_ofList_textMembers_concat (members : List (String × D)) (name : String) (d : D)
    (key : String) : (ofList (textMembers text? (members ++ [(name, d)]))).get key
      = if name = key ∧ (text? d).isSome then text? d
        else (ofList (textMembers text? members)).get key := by
  cases htext : text? d with
  | none => simp [textMembers, htext]
  | some text =>
    have hconcat : textMembers text? (members ++ [(name, d)])
        = textMembers text? members ++ [(name, text)] := by simp [textMembers, htext]
    rw [hconcat, ofList_concat, get_insert]
    by_cases hkey : key = name
    · simp [hkey]
    · simp [hkey, Ne.symm hkey]

theorem get_ofList_textMembers (members : List (String × D)) (key message : String) :
    (ofList (textMembers text? members)).get key = some message
      ↔ LastText text? members key message := by
  induction members using List.reverseRecOn with
  | nil => simpa [textMembers, ofList] using not_lastText_nil key message
  | append_singleton members member ih =>
    obtain ⟨name, d⟩ := member
    rw [lastText_concat, get_ofList_textMembers_concat, ← ih]
    split <;> rfl

theorem get_ofList_textMembers_eq_none (members : List (String × D)) (key : String) :
    (ofList (textMembers text? members)).get key = none
      ↔ ∀ member ∈ members, member.1 = key → text? member.2 = none := by
  induction members using List.reverseRecOn with
  | nil => simp [textMembers, ofList]
  | append_singleton members member ih =>
    obtain ⟨name, d⟩ := member
    rw [List.forall_mem_append, List.forall_mem_singleton, ← ih, get_ofList_textMembers_concat]
    by_cases hlast : name = key ∧ (text? d).isSome
    · obtain ⟨rfl, hsome⟩ := hlast
      simp [hsome, Option.isSome_iff_ne_none.1 hsome]
    · have hnone : name = key → text? d = none := by simpa using hlast
      rw [if_neg hlast]
      exact ⟨fun h => ⟨h, hnone⟩, fun h => h.1⟩

end LastText

theorem ofJson_object (members : List (String × Json)) :
    ofJson (.object members) = ofList (textMembers entryText? members) := by
  have hfold (m : Messages) : members.foldl ofJson.addMember m
      = (textMembers entryText? members).foldl (fun m entry => m.insert entry.1 entry.2) m := by
    induction members generalizing m with
    | nil => rfl
    | cons member members ih =>
      obtain ⟨name, value⟩ := member
      rw [List.foldl_cons, ih]
      cases value <;> rfl
  exact hfold empty

theorem ofJson_of_ne {value : Json} (h : ∀ members, value ≠ .object members) :
    ofJson value = empty := by
  cases value with
  | object members => exact absurd rfl (h members)
  | null | boolean b | number n | text s | list items => rfl

/-- A text that spells a value has the messages of this value. -/
theorem parse_of_spells {text : String} {value : Json} (h : Spells text value) :
    parse text = .ok (ofJson value) := by
  obtain ⟨form, before, chars, after, hbefore, hafter, hwritten, htext, hvalue⟩ := h
  have hfollows : Follows after := by simpa using hafter.follows follows_nil
  have hread := judges_read maxLevels hbefore hwritten after hfollows
  rw [toOption_eq_some_iff.1 (toOption_ofForm hvalue), ← htext] at hread
  exact run_whole_eq_ok_iff.2 ⟨after, hafter, result?_of_outcome hread⟩

/-- Messages never fail to be read. Whatever JSON value a text is, its messages are read: none if it
is no object, and else the last text that stands under each key in the object itself. -/
theorem parse_lenient {text : String} {value : Json} (h : Json.parse text = .ok value) :
    ∃ m, parse text = .ok m ∧ ((∀ members, value ≠ .object members) → m = empty)
      ∧ ∀ filed, value = .object filed → ∃ members, Spells text (.object members)
        ∧ (∀ key message, m.get key = some message ↔ LastText entryText? members key message)
        ∧ (∀ key, m.get key = none ↔ ∀ message, (key, Json.text message) ∉ members)
        ∧ m = ofList (textMembers entryText? members)
        ∧ ∀ text' members', Spells text' (.object members') →
          textMembers entryText? members' = textMembers entryText? members →
            parse text' = .ok m := by
  obtain ⟨w, hspells, rfl⟩ := Json.parse_eq_ok_iff.1 h
  refine ⟨ofJson w, parse_of_spells hspells, fun hvalue => ofJson_of_ne ?_, fun filed hfiled => ?_⟩
  · rintro members rfl
    exact hvalue _ rfl
  · have hobject : ∃ members, w = .object members := by
      cases w with
      | object members => exact ⟨members, rfl⟩
      | null | boolean b | number n | text s | list items => cases hfiled
    obtain ⟨members, rfl⟩ := hobject
    rw [ofJson_object]
    refine ⟨members, hspells, get_ofList_textMembers members, fun key => ?_, rfl, ?_⟩
    · rw [get_ofList_textMembers_eq_none]
      constructor
      · intro hnone message hmem
        cases hnone _ hmem rfl
      · rintro hnone ⟨name, value⟩ hmem rfl
        cases value with
        | text message => exact absurd hmem (hnone message)
        | null | boolean b | number n | list items | object members => rfl
    · intro text' members' hspells' hsame
      rw [parse_of_spells hspells', ofJson_object, hsame]

/-- A later value that is no text does not take a message away, and nested ones do not count. -/
theorem parse_lenient_repeated : ∃ text value m, Json.parse text = .ok value ∧ parse text = .ok m
    ∧ text = "\x7b\"a\":\"x\",\"b\":\x7b\"c\":\"y\"\x7d,\"a\":\"z\",\"a\":[1]\x7d"
    ∧ m = ofList [("a", "x"), ("a", "z")] ∧ ∃ members, Spells text (.object members)
      ∧ ∀ key message, m.get key = some message ↔ LastText entryText? members key message := by
  let text := "\x7b\"a\":\"x\",\"b\":\x7b\"c\":\"y\"\x7d,\"a\":\"z\",\"a\":[1]\x7d"
  have hhead : (Json.parse text).toOption.map Json.head = some .object := by decide +kernel
  have hmessages : (parse text).toOption = some (ofList [("a", "x"), ("a", "z")]) := by
    decide +kernel
  obtain ⟨value, hvalue, hobject⟩ := Option.map_eq_some_iff.1 hhead
  have hparse := toOption_eq_some_iff.1 hvalue
  obtain ⟨m, hm, -, hlast⟩ := parse_lenient hparse
  have hsame : m = ofList [("a", "x"), ("a", "z")] :=
    Except.ok.inj (hm.symm.trans (toOption_eq_some_iff.1 hmessages))
  cases value with
  | object filed =>
    obtain ⟨members, hspells, hget, -⟩ := hlast filed rfl
    exact ⟨text, _, m, hparse, hm, rfl, hsame, members, hspells, hget⟩
  | null | boolean b | number n | text s | list items => cases hobject

end ValidatorGen.Messages
