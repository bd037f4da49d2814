import Mathlib.Data.List.TakeWhile
import ValidatorGen.Proofs.Json.OfForm
import ValidatorGen.Proofs.Reading.Container

/-! What is read is written. Main statements: whatever has a head is a scalar or starts with a
bracket, and what is read as a list or an object is one if its parts are read as forms. -/
namespace ValidatorGen.Reader

open Json

variable {α β σ : Type}

theorem exists_blanks (text : List Char) :
    ∃ blanks, IsBlanks blanks ∧ text = blanks ++ text.dropWhile isBlank := by
  refine ⟨text.takeWhile isBlank, ?_, List.takeWhile_append_dropWhile.symm⟩
  exact List.all_eq_true.1 List.all_takeWhile

theorem afterBlanks_sound {next : Option Char → Reader α} {text rest : List Char} {a : α}
    (h : (blanks >>= fun _ => peek >>= next).result? text = some (a, rest))
    (hend : (next none).result? [] = none) :
    ∃ blanks c tail, IsBlanks blanks ∧ text = blanks ++ c :: tail
      ∧ (next (some c)).result? (c :: tail) = some (a, rest) := by
  obtain ⟨blanks, hblanks, htext⟩ := exists_blanks text
  rw [result?_blanks_bind, result?_peek_bind] at h
  generalize text.dropWhile isBlank = after at h htext
  cases after with
  | nil =>
    rw [List.head?_nil, hend] at h
    cases h
  | cons c tail => exact ⟨blanks, c, tail, hblanks, htext, h⟩

/-- A whole text is read if nothing but blanks is left. -/
theorem run_whole_eq_ok_iff {read : Reader α} {text : String} {a : α} :
    (whole read).run text = .ok a
      ↔ ∃ after, IsBlanks after ∧ read.result? text.toList = some (a, after) := by
  rw [run_eq_ok_iff]
  constructor
  · rintro ⟨rest, h⟩
    rw [whole, result?_bind, Option.bind_eq_some_iff] at h
    obtain ⟨⟨b, after⟩, hread, h⟩ := h
    rw [result?_blanks_bind, result?_peek_bind] at h
    cases hdrop : after.dropWhile isBlank with
    | nil =>
      simp only [hdrop] at h
      cases h
      exact ⟨after, List.dropWhile_eq_nil_iff.1 hdrop, hread⟩
    | cons c tail =>
      simp only [hdrop] at h
      cases h
  · rintro ⟨after, hafter, hread⟩
    refine ⟨[], ?_⟩
    rw [whole, result?_bind, hread, Option.bind_some, result?_blanks_bind, result?_peek_bind,
      List.dropWhile_eq_nil_iff.2 hafter]
    rfl

theorem word_sound {w text rest : List Char} (h : (word w).result? text = some ((), rest)) :
    text = w ++ rest := by
  induction w generalizing text with
  | nil =>
    cases h
    rfl
  | cons c w ih =>
    rw [word, result?_peek_bind] at h
    cases text with
    | nil => cases h
    | cons d text =>
      simp only [List.head?_cons, result?_ite] at h
      split at h
      · next heq =>
        have htail : text = w ++ rest := ih h
        rw [heq, htail]
        rfl
      · cases h

theorem number_sound {value : Number} {text rest : List Char}
    (h : number.result? text = some (value, rest)) :
    ∃ (n : Numeral) (chars : List Char), n.Written chars ∧ text = chars ++ rest := by
  rw [number, result?_bind, Option.bind_eq_some_iff] at h
  obtain ⟨⟨n, middle⟩, hread, h⟩ := h
  obtain ⟨chars, hwritten, rfl⟩ := numeral_sound hread
  cases hvalue : n.value? with
  | none =>
    simp only [hvalue] at h
    cases h
  | some v =>
    simp only [hvalue] at h
    cases h
    exact ⟨n, chars, hwritten, rfl⟩

/-- A scalar is at the front of the text. -/
def IsFront (text rest : List Char) : Prop :=
  ∃ (form : Form) (chars : List Char), form.IsScalar ∧ Written form chars ∧ text = chars ++ rest

theorem isFront_word {form : Form} {w : List Char} (hwritten : Written form w)
    (hscalar : form.IsScalar) {text rest : List Char} {a b : α}
    (hread : (word w >>= fun _ => pure a).result? text = some (b, rest)) :
    b = a ∧ IsFront text rest := by
  rw [result?_bind, Option.bind_eq_some_iff] at hread
  obtain ⟨⟨_, middle⟩, hword, hread⟩ := hread
  cases hread
  exact ⟨rfl, form, w, hscalar, hwritten, word_sound hword⟩

theorem isFront_text {h : Head} {text rest : List Char}
    (hread : (Reader.text >>= fun s => pure (Head.text s)).result? text = some (h, rest)) :
    (∃ s, h = .text s) ∧ IsFront ('"' :: text) rest := by
  rw [result?_bind, Option.bind_eq_some_iff] at hread
  obtain ⟨⟨s, middle⟩, htext, hread⟩ := hread
  cases hread
  obtain ⟨pieces, chars, hproper, rfl, hdecoded, rfl⟩ := text_sound htext
  refine ⟨⟨_, rfl⟩, .text pieces, _, trivial, .text hproper, ?_⟩
  simp

theorem isFront_number {h : Head} {text rest : List Char}
    (hread : (number >>= fun n => pure (Head.number n)).result? text = some (h, rest)) :
    (∃ n, h = .number n) ∧ IsFront text rest := by
  rw [result?_bind, Option.bind_eq_some_iff] at hread
  obtain ⟨⟨value, middle⟩, hnumber, hread⟩ := hread
  cases hread
  obtain ⟨n, chars, hwritten, htext⟩ := number_sound hnumber
  exact ⟨⟨value, rfl⟩, .number n, chars, trivial, .number hwritten, htext⟩

/-- What has a head is a scalar, which has been read, or stands at a bracket. -/
theorem head_sound {text rest : List Char} {h : Head} (hread : head.result? text = some (h, rest)) :
    ∃ before middle, IsBlanks before ∧ text = before ++ middle
      ∧ ((h ≠ .list ∧ h ≠ .object ∧ IsFront middle rest)
        ∨ (h = .list ∧ rest = middle ∧ middle.head? = some '[')
        ∨ (h = .object ∧ rest = middle ∧ middle.head? = some '{')) := by
  obtain ⟨before, c, tail, hbefore, htext, hread⟩ := afterBlanks_sound hread rfl
  refine ⟨before, c :: tail, hbefore, htext, ?_⟩
  simp only [result?_ite] at hread
  split at hread
  · next hc =>
    cases hread
    exact .inr (.inl ⟨rfl, rfl, by simp [hc]⟩)
  split at hread
  · next hc =>
    cases hread
    exact .inr (.inr ⟨rfl, rfl, by simp [hc]⟩)
  refine .inl ?_
  split at hread
  · next hc =>
    rw [result?_skip_bind, List.tail_cons] at hread
    rw [hc]
    obtain ⟨⟨s, rfl⟩, hfront⟩ := isFront_text hread
    exact ⟨nofun, nofun, hfront⟩
  split at hread
  · obtain ⟨rfl, hfront⟩ := isFront_word .null trivial hread
    exact ⟨nofun, nofun, hfront⟩
  split at hread
  · obtain ⟨rfl, hfront⟩ := isFront_word (.boolean true) trivial hread
    exact ⟨nofun, nofun, hfront⟩
  split at hread
  · obtain ⟨rfl, hfront⟩ := isFront_word (.boolean false) trivial hread
    exact ⟨nofun, nofun, hfront⟩
  split at hread
  · obtain ⟨⟨n, rfl⟩, hfront⟩ := isFront_number hread
    exact ⟨nofun, nofun, hfront⟩
  · cases hread

theorem colon_sound {text rest : List Char} (h : colon.result? text = some ((), rest)) :
    ∃ blanks, IsBlanks blanks ∧ text = blanks ++ ':' :: rest := by
  obtain ⟨blanks, c, tail, hblanks, htext, h⟩ := afterBlanks_sound h rfl
  simp only [result?_ite] at h
  split at h
  · next hc =>
    cases h
    exact ⟨blanks, hblanks, by rw [htext, hc, List.tail_cons]⟩
  · cases h

/-- Whatever is read is a written form, with what should be before it. -/
def StartsAfter (Before : List Char → Prop) (read : Reader α) : Prop :=
  ∀ ⦃text rest : List Char⦄ ⦃a : α⦄, read.result? text = some (a, rest) →
    ∃ before chars form, Before before ∧ Written form chars ∧ text = before ++ (chars ++ rest)

abbrev Starts (read : Reader α) : Prop := StartsAfter IsBlanks read

namespace StartsAfter

variable {Before : List Char → Prop} {read : Reader α}

theorem bind (h : StartsAfter Before read) {next : α → Reader β}
    (hnext : ∀ a text b rest, (next a).result? text = some (b, rest) → rest = text) :
    StartsAfter Before (read >>= next) := by
  intro text rest b hread
  rw [result?_bind, Option.bind_eq_some_iff] at hread
  obtain ⟨⟨a, middle⟩, hread, h'⟩ := hread
  obtain rfl := hnext a middle b rest h'
  exact h hread

theorem map (h : StartsAfter Before read) (g : α → β) : StartsAfter Before (g <$> read) := by
  rw [← bind_pure_comp]
  refine h.bind fun a text b rest hread => ?_
  cases hread
  rfl

theorem valueOf (h : Starts read) (name : String) : StartsAfter IsColon (valueOf name read) := by
  intro text rest a hread
  rw [Reader.valueOf, result?_bind, Option.bind_eq_some_iff] at hread
  obtain ⟨⟨_, middle⟩, hcolon, hread⟩ := hread
  rw [result?_under] at hread
  obtain ⟨blanks, hblanks, rfl⟩ := colon_sound hcolon
  obtain ⟨before, chars, form, hbefore, hwritten, hmiddle⟩ := h hread
  refine ⟨_, chars, form, .mk hblanks hbefore, hwritten, ?_⟩
  simp only at hmiddle
  simp [hmiddle]

end StartsAfter

theorem Starts.ofHead {next : Head → Reader α}
    (scalar : ∀ h, h ≠ .list → h ≠ .object → ∀ text a rest,
      (next h).result? text = some (a, rest) → rest = text)
    (list : ∀ text a rest, (next .list).result? ('[' :: text) = some (a, rest) →
      ∃ items chars, ItemsWritten true items chars ∧ text = chars ++ rest)
    (object : ∀ text a rest, (next .object).result? ('{' :: text) = some (a, rest) →
      ∃ members chars, MembersWritten true members chars ∧ text = chars ++ rest) :
    Starts (head >>= next) := by
  intro text rest a hread
  rw [result?_bind, Option.bind_eq_some_iff] at hread
  obtain ⟨⟨h, middle⟩, hhead, hread⟩ := hread
  obtain ⟨before, front, hbefore, rfl, hcases⟩ := head_sound hhead
  obtain ⟨hlist, hobject, form, chars, -, hwritten, rfl⟩ | ⟨rfl, rfl, hfront⟩
    | ⟨rfl, rfl, hfront⟩ := hcases
  · obtain rfl := scalar h hlist hobject _ _ _ hread
    exact ⟨before, chars, form, hbefore, hwritten, rfl⟩
  · obtain ⟨tail, rfl⟩ := List.head?_eq_some_iff.1 hfront
    obtain ⟨items, chars, hitems, rfl⟩ := list _ _ _ hread
    exact ⟨before, _, .list items, hbefore, .list hitems, rfl⟩
  · obtain ⟨tail, rfl⟩ := List.head?_eq_some_iff.1 hfront
    obtain ⟨members, chars, hmembers, rfl⟩ := object _ _ _ hread
    exact ⟨before, _, .object members, hbefore, .object hmembers, rfl⟩

theorem moreItems_sound {first more : Bool} {text middle : List Char}
    (h : (moreItems first).result? text = some (more, middle)) :
    (more = false ∧ ∃ blanks rest, IsBlanks blanks ∧ text = blanks ++ ']' :: rest
        ∧ middle = ']' :: rest)
      ∨ (more = true ∧ ∃ separator, Separator first separator ∧ text = separator ++ middle) := by
  obtain ⟨blanks, c, tail, hblanks, htext, h⟩ := afterBlanks_sound h rfl
  simp only [result?_ite] at h
  split at h
  · next hc =>
    cases h
    exact .inl ⟨rfl, blanks, tail, hblanks, by rw [htext, hc], by rw [hc]⟩
  split at h
  · next hfirst =>
    cases h
    exact .inr ⟨rfl, blanks, hfirst ▸ .first hblanks, htext⟩
  split at h
  · next hfirst hc =>
    rw [result?_skip_bind, List.tail_cons] at h
    obtain ⟨blanks', d, more, hblanks', htail, h⟩ := afterBlanks_sound h rfl
    simp only [result?_ite] at h
    split at h
    · cases h
    · cases h
      rw [Bool.not_eq_true] at hfirst
      have hseparator : Separator first (blanks ++ ',' :: blanks') :=
        hfirst ▸ .later hblanks hblanks'
      exact .inr ⟨rfl, _, hseparator, by simp [htext, hc, htail]⟩
  · cases h

section Items

variable {item : σ → Reader σ} (hitem : ∀ state, Starts (item state))
include hitem

/-- What a round of a list reads is an item; only at the bracket after them it is done. -/
theorem itemStep_sound {i : Nat} {state : σ} {text middle : List Char} {round : Round (Nat × σ) σ}
    (h : (itemStep item (i, state)).result? text = some (round, middle)) :
    (round = .done state ∧ ∃ blanks rest, IsBlanks blanks ∧ text = blanks ++ ']' :: rest
        ∧ middle = ']' :: rest)
      ∨ ∃ next separator chars form, round = .again (i + 1, next)
        ∧ Separator (decide (i = 0)) separator ∧ Written form chars
        ∧ text = separator ++ (chars ++ middle) := by
  rw [itemStep, result?_bind, Option.bind_eq_some_iff] at h
  obtain ⟨⟨more, after⟩, hmore, h⟩ := h
  obtain ⟨rfl, hclose⟩ | ⟨rfl, separator, hseparator, rfl⟩ := moreItems_sound hmore
  · cases h
    exact .inl ⟨rfl, hclose⟩
  · simp only [if_true, result?_bind, result?_under, Option.bind_eq_some_iff] at h
    obtain ⟨⟨next, after⟩, hread, h⟩ := h
    cases h
    obtain ⟨before, chars, form, hbefore, hwritten, rfl⟩ := hitem state hread
    refine .inr ⟨next, _, chars, form, rfl, hseparator.append hbefore, hwritten, ?_⟩
    simp

theorem runs_items {i : Nat} {state result : σ} {text middle : List Char}
    (h : Runs (itemStep item) (i, state) text result middle) :
    ∃ items chars rest, ItemsWritten (decide (i = 0)) items chars ∧ text = chars ++ rest
      ∧ middle = ']' :: rest := by
  generalize hstart : (i, state) = start at h
  induction h generalizing i state with
  | done hround =>
    cases hstart
    obtain ⟨-, blanks, rest, hblanks, rfl, rfl⟩ | ⟨_, _, _, _, hagain, -⟩ :=
      itemStep_sound hitem hround
    · exact ⟨[], _, rest, .close hblanks, by simp, rfl⟩
    · cases hagain
  | again hround _ ih =>
    cases hstart
    obtain ⟨hdone, -⟩ | ⟨next, separator, chars, form, hagain, hseparator, hwritten, rfl⟩ :=
      itemStep_sound hitem hround
    · cases hdone
    · cases hagain
      obtain ⟨items, tail, rest, htail, rfl, rfl⟩ := ih rfl
      exact ⟨form :: items, _, rest, .item hseparator hwritten htail, by simp, rfl⟩

theorem list_sound {init result : σ} {text rest : List Char}
    (h : (list item init).result? ('[' :: text) = some (result, rest)) :
    ∃ items chars, ItemsWritten true items chars ∧ text = chars ++ rest := by
  rw [list, result?_skip_bind, List.tail_cons, result?_bind, Option.bind_eq_some_iff] at h
  obtain ⟨⟨read, middle⟩, hloop, h⟩ := h
  obtain ⟨items, chars, after, hwritten, rfl, rfl⟩ := runs_items hitem (runs_of_loop hloop)
  cases h
  exact ⟨items, chars, hwritten, rfl⟩

end Items

theorem name_sound {text middle : List Char} {found : Option String}
    (h : nextName.name.result? text = some (found, middle)) :
    ∃ pieces chars, found = some (.ofList chars) ∧ (∀ p ∈ pieces, p.Proper)
      ∧ Text.decode? pieces = some chars ∧ text = '"' :: (Text.bodyChars pieces ++ '"' :: middle) := by
  rw [nextName.name, result?_peek_bind, result?_ite] at h
  split at h
  · next hquote =>
    obtain ⟨tail, rfl⟩ := List.head?_eq_some_iff.1 hquote
    rw [result?_skip_bind, List.tail_cons, result?_bind, Option.bind_eq_some_iff] at h
    obtain ⟨⟨s, after⟩, htext, h⟩ := h
    cases h
    obtain ⟨pieces, chars, hproper, rfl, hdecoded, rfl⟩ := text_sound htext
    exact ⟨pieces, chars, rfl, hproper, hdecoded, rfl⟩
  · cases h

theorem nextName_sound {first : Bool} {text middle : List Char} {found : Option String}
    (h : (nextName first).result? text = some (found, middle)) :
    (found = none ∧ ∃ blanks rest, IsBlanks blanks ∧ text = blanks ++ '}' :: rest
        ∧ middle = '}' :: rest)
      ∨ ∃ separator pieces chars, found = some (.ofList chars) ∧ Separator first separator
        ∧ (∀ p ∈ pieces, p.Proper) ∧ Text.decode? pieces = some chars
        ∧ text = separator ++ '"' :: (Text.bodyChars pieces ++ '"' :: middle) := by
  obtain ⟨blanks, c, tail, hblanks, htext, h⟩ := afterBlanks_sound h rfl
  simp only [result?_ite] at h
  split at h
  · next hc =>
    cases h
    exact .inl ⟨rfl, blanks, tail, hblanks, by rw [htext, hc], by rw [hc]⟩
  split at h
  · next hfirst =>
    obtain ⟨pieces, chars, hfound, hproper, hdecoded, hname⟩ := name_sound h
    rw [hname] at htext
    exact .inr ⟨blanks, pieces, chars, hfound, hfirst ▸ .first hblanks, hproper, hdecoded, htext⟩
  split at h
  · next hfirst hc =>
    rw [result?_skip_bind, List.tail_cons] at h
    obtain ⟨blanks', d, more, hblanks', htail, h⟩ := afterBlanks_sound h rfl
    simp only [result?_ite] at h
    split at h
    · cases h
    · obtain ⟨pieces, chars, hfound, hproper, hdecoded, hname⟩ := name_sound h
      rw [Bool.not_eq_true] at hfirst
      have hseparator : Separator first (blanks ++ ',' :: blanks') :=
        hfirst ▸ .later hblanks hblanks'
      refine .inr ⟨_, pieces, chars, hfound, hseparator, hproper, hdecoded, ?_⟩
      simp [htext, hc, htail, hname]
  · cases h

section Members

variable {member : σ → String → Reader σ}
  (hmember : ∀ state name, StartsAfter IsColon (member state name))
include hmember

/-- What a round of an object reads is a member; only at the bracket after them it is done. -/
theorem memberStep_sound {first : Bool} {state : σ} {text middle : List Char}
    {round : Round (Bool × σ) σ}
    (h : (memberStep member (first, state)).result? text = some (round, middle)) :
    (round = .done state ∧ ∃ blanks rest, IsBlanks blanks ∧ text = blanks ++ '}' :: rest
        ∧ middle = '}' :: rest)
      ∨ ∃ next separator pieces colon chars form, round = .again (false, next)
        ∧ Separator first separator ∧ (∀ p ∈ pieces, p.Proper) ∧ IsColon colon
        ∧ Written form chars ∧ text = separator ++ '"' :: (Text.bodyChars pieces ++ '"' ::
          (colon ++ (chars ++ middle))) := by
  rw [memberStep, result?_bind, Option.bind_eq_some_iff] at h
  obtain ⟨⟨found, after⟩, hname, h⟩ := h
  rw [result?_under] at hname
  obtain ⟨rfl, hclose⟩ | ⟨separator, pieces, decoded, rfl, hseparator, hproper, -, rfl⟩ :=
    nextName_sound hname
  · cases h
    exact .inl ⟨rfl, hclose⟩
  · simp only [result?_bind, Option.bind_eq_some_iff] at h
    obtain ⟨⟨next, after⟩, hread, h⟩ := h
    cases h
    obtain ⟨colon, chars, form, hcolon, hwritten, rfl⟩ := hmember _ _ hread
    exact .inr ⟨next, separator, pieces, colon, chars, form, rfl, hseparator, hproper, hcolon,
      hwritten, rfl⟩

theorem runs_members {first : Bool} {state result : σ} {text middle : List Char}
    (h : Runs (memberStep member) (first, state) text result middle) :
    ∃ members chars rest, MembersWritten first members chars ∧ text = chars ++ rest
      ∧ middle = '}' :: rest := by
  generalize hstart : (first, state) = start at h
  induction h generalizing first state with
  | done hround =>
    cases hstart
    obtain ⟨-, blanks, rest, hblanks, rfl, rfl⟩ | ⟨_, _, _, _, _, _, hagain, -⟩ :=
      memberStep_sound hmember hround
    · exact ⟨[], _, rest, .close hblanks, by simp, rfl⟩
    · cases hagain
  | again hround _ ih =>
    cases hstart
    obtain ⟨hdone, -⟩ | ⟨next, separator, pieces, colon, chars, form, hagain, hseparator,
      hproper, ⟨hblanks, hblanks'⟩, hwritten, rfl⟩ := memberStep_sound hmember hround
    · cases hdone
    · cases hagain
      obtain ⟨members, tail, rest, htail, rfl, rfl⟩ := ih rfl
      refine ⟨(pieces, form) :: members, _, rest,
        .member hseparator hproper hblanks hblanks' hwritten htail, ?_, rfl⟩
      simp

theorem object_sound {init result : σ} {text rest : List Char}
    (h : (object member init).result? ('{' :: text) = some (result, rest)) :
    ∃ members chars, MembersWritten true members chars ∧ text = chars ++ rest := by
  rw [object, result?_skip_bind, List.tail_cons, result?_bind, Option.bind_eq_some_iff] at h
  obtain ⟨⟨read, middle⟩, hloop, h⟩ := h
  obtain ⟨members, chars, after, hwritten, rfl, rfl⟩ := runs_members hmember (runs_of_loop hloop)
  cases h
  exact ⟨members, chars, hwritten, rfl⟩

end Members

end ValidatorGen.Reader
