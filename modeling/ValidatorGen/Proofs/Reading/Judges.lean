import ValidatorGen.Proofs.Reading.Skip
import ValidatorGen.Proofs.Schema.OfForm

/-! Reading of written forms, those that stand for no value included. Main statements: lists and
objects come to what their parts come to, one after the other, or to the first complaint about one. -/
namespace ValidatorGen.Reader

open Json

variable {α β σ : Type}

theorem outcome_number {n : Numeral} {text rest : List Char} (h : n.Written text)
    (hrest : Follows rest) :
    number.outcome (text ++ rest) = (fun value => (value, rest)) <$> n.verdict := by
  have hread := outcome_numeral .endInValue h hrest
  rw [number, outcome_bind, hread, Verdict.ok_bind, Numeral.verdict]
  cases n.value? <;> rfl

theorem outcome_head_number {n : Numeral} {text : List Char} (h : n.Written text)
    (rest : List Char) : head.outcome (text ++ rest)
      = (fun p => (.number p.1, p.2)) <$> number.outcome (text ++ rest) := by
  obtain ⟨c, tail, rfl, hfirst⟩ := h.exists_cons
  have hc : IsNumeralChar c := h.isNumeralChar c (by simp)
  have hne (d : Char) (hd : ¬IsNumeralChar d) : c ≠ d := fun heq => hd (heq ▸ hc)
  rw [List.cons_append, head, outcome_noBlanks hc.isBlank]
  simp [hfirst, hne '[' (by decide), hne '{' (by decide), hne '"' (by decide),
    hne 'n' (by decide), hne 't' (by decide), hne 'f' (by decide)]

theorem outcome_head_scalar {form : Form} {chars rest : List Char} (hwritten : Written form chars)
    (hrest : Follows rest) (hscalar : form.IsScalar) :
    head.outcome (chars ++ rest) = (fun h => (h, rest)) <$> form.head := by
  cases hwritten with
  | null =>
    have hhead : head.outcome ("null".toList ++ rest)
        = (fun p => (.null, p.2)) <$> (word "null".toList).outcome ("null".toList ++ rest) := rfl
    rw [hhead, outcome_word]
    rfl
  | boolean b =>
    have hhead : head.outcome ((if b then "true" else "false").toList ++ rest)
        = (fun p => (.boolean b, p.2)) <$> (word (if b then "true" else "false").toList).outcome
          ((if b then "true" else "false").toList ++ rest) := by
      cases b <;> rfl
    rw [hhead, outcome_word]
    rfl
  | @number n _ hnumber =>
    rw [outcome_head_number hnumber rest, outcome_number hnumber hrest, Form.head]
    cases n.verdict <;> rfl
  | @text pieces hproper =>
    rw [List.cons_append, List.append_assoc, List.singleton_append, outcome_head_quote,
      outcome_text hproper rest, Form.head]
    cases Text.decode pieces <;> rfl
  | list _ | object _ => exact hscalar.elim

/-- A written form is read to its end or complained about as the function says, whatever is before
it as it should be. -/
def JudgesAfter (Before : List Char → Prop) (read : Reader α) (f : Form → Verdict α) : Prop :=
  ∀ ⦃before chars : List Char⦄ ⦃form : Form⦄, Before before → Written form chars →
    ∀ rest, Follows rest →
    read.outcome (before ++ (chars ++ rest)) = (fun a => (a, rest)) <$> f form

abbrev Judges (read : Reader α) (f : Form → Verdict α) : Prop := JudgesAfter IsBlanks read f

theorem judges_skipValue : Judges skipValue fun _ => .ok () := by
  intro before chars form hbefore hwritten rest hrest
  have hdone : Comes skipStep (.after []) rest (.ok ((), rest)) := .done rfl
  exact (skips form hbefore hwritten hrest hdone).loop

namespace JudgesAfter

variable {Before : List Char → Prop} {read : Reader α} {f : Form → Verdict α}

theorem bind (h : JudgesAfter Before read f) {next : α → Reader β} {g : α → Verdict β}
    (hnext : ∀ a text, (next a).outcome text = (fun b => (b, text)) <$> g a) :
    JudgesAfter Before (read >>= next) fun form => f form >>= g := by
  intro before chars form hbefore hwritten rest hrest
  rw [outcome_bind, h hbefore hwritten rest hrest]
  beta_reduce
  cases f form with
  | error c => rfl
  | ok a => exact hnext a rest

theorem map (h : JudgesAfter Before read f) (g : α → β) :
    JudgesAfter Before (g <$> read) fun form => g <$> f form := by
  intro before chars form hbefore hwritten rest hrest
  rw [outcome_map, h hbefore hwritten rest hrest]
  beta_reduce
  cases f form <;> rfl

theorem valueOf (h : Judges read f) (name : String) :
    JudgesAfter IsColon (valueOf name read) fun form => .within (.key name) (f form) := by
  rintro _ chars form @⟨blanks, blanks', hblanks, hblanks'⟩ hwritten rest hrest
  have hcolon := outcome_colon hblanks (blanks' ++ (chars ++ rest))
  have hread := h hblanks' hwritten rest hrest
  rw [List.append_assoc, List.cons_append, Reader.valueOf, outcome_bind, hcolon, Verdict.ok_bind,
    outcome_under, hread, Verdict.within_map]

end JudgesAfter

theorem Judges.ofHead {next : Head → Reader α} {f : Form → Verdict α} (g : Head → Verdict α)
    (scalar : ∀ form : Form, form.IsScalar → f form = form.head >>= g)
    (heads : ∀ h : Head, h ≠ .list → h ≠ .object → ∀ rest,
      (next h).outcome rest = (fun a => (a, rest)) <$> g h)
    (list : ∀ items chars, ItemsWritten true items chars → ∀ rest,
      (next .list).outcome ('[' :: (chars ++ rest)) = (fun a => (a, rest)) <$> f (.list items))
    (object : ∀ members chars, MembersWritten true members chars → ∀ rest,
      (next .object).outcome ('{' :: (chars ++ rest))
        = (fun a => (a, rest)) <$> f (.object members)) : Judges (head >>= next) f := by
  intro before chars form hbefore hwritten rest hrest
  obtain ⟨c, tail, hchars, hblank, -⟩ := hwritten.exists_cons
  have hhead : head.outcome (before ++ (chars ++ rest)) = head.outcome (chars ++ rest) := by
    rw [hchars, List.cons_append]
    exact outcome_head_blanks hbefore hblank _
  rw [outcome_bind, hhead]
  by_cases hscalar : form.IsScalar
  · rw [outcome_head_scalar hwritten hrest hscalar, scalar form hscalar]
    cases hform : form.head with
    | error c => rfl
    | ok h =>
      obtain ⟨hlist, hobject⟩ := Form.head_of_isScalar hscalar hform
      exact heads h hlist hobject rest
  · cases hwritten with
    | null | boolean b | number _ | text _ => exact absurd trivial hscalar
    | list hitems => exact list _ _ hitems rest
    | object hmembers => exact object _ _ hmembers rest

section Items

variable {item : σ → Reader σ} {step : σ → Form → Verdict σ}
  (hitem : ∀ state, Judges (item state) (step state))
include hitem

theorem outcome_itemStep {first : Bool} {separator chars : List Char} {form : Form}
    (hseparator : Separator first separator) (hwritten : Written form chars) {i : Nat}
    (hi : first = decide (i = 0)) (state : σ) {rest : List Char} (hrest : Follows rest) :
    (itemStep item (i, state)).outcome (separator ++ (chars ++ rest))
      = (fun next => (.again (i + 1, next), rest))
        <$> Verdict.within (.index i) (step state form) := by
  have hread := hitem state isBlanks_nil hwritten rest hrest
  obtain ⟨c, tail, rfl, hblank, hclose⟩ := hwritten.exists_cons
  have hmore := outcome_moreItems_item hseparator hblank hclose (tail ++ rest)
  rw [List.nil_append] at hread
  rw [List.cons_append] at hread ⊢
  rw [itemStep, outcome_bind, ← hi, hmore, Verdict.ok_bind, if_pos rfl, outcome_bind,
    outcome_under, hread]
  cases step state form <;> rfl

/-- Items come to what they come to in turn, up to the bracket after them. -/
theorem comes_items {items : List Form} {first : Bool} {chars : List Char}
    (h : ItemsWritten first items chars) {i : Nat} (hi : first = decide (i = 0)) (state : σ)
    (rest : List Char) : Comes (itemStep item) (i, state) (chars ++ rest)
      ((fun result => (result, ']' :: rest)) <$> foldItems step i state items) := by
  induction items generalizing first chars i state with
  | nil =>
    obtain @⟨-, blanks, hblanks⟩ := h
    have hmore := outcome_moreItems_close hblanks (decide (i = 0)) rest
    have hround : (itemStep item (i, state)).outcome (blanks ++ ']' :: rest)
        = .ok (.done state, ']' :: rest) := by
      rw [itemStep, outcome_bind, hmore]
      rfl
    simpa [foldItems] using Comes.done hround
  | cons form items ih =>
    cases h with
    | @item _ separator chars tail _ _ hseparator hwritten htail =>
      have hround := outcome_itemStep hitem hseparator hwritten hi state (htail.follows rest)
      rw [List.append_assoc, List.append_assoc, foldItems]
      cases hstep : Verdict.within (.index i) (step state form) with
      | error c =>
        rw [hstep] at hround
        exact .fault hround
      | ok next =>
        rw [hstep] at hround
        obtain ⟨c, more, rfl, -, -⟩ := hwritten.exists_cons
        exact .again hround (by simp; omega) (ih htail (by simp) next)

theorem outcome_list {items : List Form} {chars : List Char} (h : ItemsWritten true items chars)
    (init : σ) (rest : List Char) : (list item init).outcome ('[' :: (chars ++ rest))
      = (fun result => (result, rest)) <$> foldItems step 0 init items := by
  have hloop := (comes_items hitem h (i := 0) rfl init rest).loop
  have hclose := outcome_closeList isBlanks_nil rest
  rw [List.nil_append] at hclose
  rw [list, outcome_skip_bind, List.tail_cons, outcome_bind, hloop]
  cases foldItems step 0 init items with
  | error c => rfl
  | ok result => simp [hclose]

end Items

section Members

variable {member : σ → String → Reader σ} {step : σ → String → Form → Verdict σ}
  (hmember : ∀ state name, JudgesAfter IsColon (member state name) (step state name))
include hmember

theorem outcome_memberStep {first : Bool} {separator colon chars : List Char}
    {name : List Text.Piece} {form : Form} (hseparator : Separator first separator)
    (hproper : ∀ p ∈ name, p.Proper) (hcolon : IsColon colon) (hwritten : Written form chars)
    (state : σ) {rest : List Char} (hrest : Follows rest) :
    (memberStep member (first, state)).outcome
        (separator ++ '"' :: (Text.bodyChars name ++ '"' :: (colon ++ (chars ++ rest))))
      = (fun next => (.again (false, next), rest))
        <$> (Verdict.within .unnamed (Text.decode name) >>= fun decoded =>
          step state (.ofList decoded) form) := by
  have hname := outcome_nextName_name hseparator hproper (colon ++ (chars ++ rest))
  rw [memberStep, outcome_bind, outcome_under, hname]
  cases Text.decode name with
  | error c => rfl
  | ok decoded =>
    have hread := hmember state (.ofList decoded) hcolon hwritten rest hrest
    simp only [Verdict.map_ok, Verdict.within_ok, Verdict.ok_bind, outcome_bind, hread]
    cases step state (.ofList decoded) form <;> rfl

/-- Members come to what they come to in turn, up to the bracket after them. -/
theorem comes_members {members : List (List Text.Piece × Form)} {first : Bool}
    {chars : List Char} (h : MembersWritten first members chars) (state : σ) (rest : List Char) :
    Comes (memberStep member) (first, state) (chars ++ rest)
      ((fun result => (result, '}' :: rest)) <$> foldMembers step state members) := by
  induction members generalizing first chars state with
  | nil =>
    obtain @⟨-, blanks, hblanks⟩ := h
    have hname := outcome_nextName_close hblanks first rest
    have hround : (memberStep member (first, state)).outcome (blanks ++ '}' :: rest)
        = .ok (.done state, '}' :: rest) := by
      rw [memberStep, outcome_bind, outcome_under, hname]
      rfl
    simpa [foldMembers] using Comes.done hround
  | cons entry members ih =>
    obtain ⟨name, form⟩ := entry
    cases h with
    | @member _ separator blanks blanks' chars tail _ _ _ hseparator hproper hblanks hblanks'
        hwritten htail =>
      have hround := outcome_memberStep hmember hseparator hproper (.mk hblanks hblanks') hwritten
        state (htail.follows rest)
      have htext : separator ++ '"' :: (Text.bodyChars name ++ '"' :: (blanks ++ ':' ::
            (blanks' ++ (chars ++ tail)))) ++ rest = separator ++ '"' :: (Text.bodyChars name
              ++ '"' :: (blanks ++ ':' :: blanks' ++ (chars ++ (tail ++ rest)))) := by simp
      have hfold : foldMembers step state ((name, form) :: members)
          = (Verdict.within .unnamed (Text.decode name) >>= fun decoded =>
              step state (.ofList decoded) form) >>= fun next => foldMembers step next members := by
        rw [foldMembers, bind_assoc]
      rw [htext, hfold]
      cases hstep : Verdict.within .unnamed (Text.decode name) >>= fun decoded =>
          step state (.ofList decoded) form with
      | error c =>
        rw [hstep] at hround
        exact .fault hround
      | ok next =>
        rw [hstep] at hround
        exact .again hround (by simp; omega) (ih htail next)

theorem outcome_object {members : List (List Text.Piece × Form)} {chars : List Char}
    (h : MembersWritten true members chars) (init : σ) (rest : List Char) :
    (object member init).outcome ('{' :: (chars ++ rest))
      = (fun result => (result, rest)) <$> foldMembers step init members := by
  have hloop := (comes_members hmember h init rest).loop
  rw [object, outcome_skip_bind, List.tail_cons, outcome_bind, hloop]
  cases foldMembers step init members <;> rfl

end Members

end ValidatorGen.Reader
