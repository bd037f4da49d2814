import ValidatorGen.Reading.Container

/-! What readers come to, faults included, but not where in the text a fault lies: so readings of
different texts can be compared. -/
namespace ValidatorGen

theorem toOption_eq_some_iff {ε α : Type} {result : Except ε α} {a : α} :
    result.toOption = some a ↔ result = .ok a := by
  cases result <;> simp [Except.toOption]

@[simp] theorem toOption_bind {ε α β : Type} (result : Except ε α) (next : α → Except ε β) :
    (result >>= next).toOption = result.toOption.bind fun a => (next a).toOption := by
  cases result <;> rfl

@[simp] theorem toOption_map {ε α β : Type} (f : α → β) (result : Except ε α) :
    (f <$> result).toOption = result.toOption.map f := by
  cases result <;> rfl

@[simp] theorem toOption_mapError {ε ε' α : Type} (f : ε → ε') (result : Except ε α) :
    (result.mapError f).toOption = result.toOption := by
  cases result <;> rfl

theorem mapError_eq_ok_iff {ε ε' α : Type} {f : ε → ε'} {result : Except ε α} {a : α} :
    result.mapError f = .ok a ↔ result = .ok a := by
  constructor
  · intro h
    cases result with
    | error e => cases h
    | ok b =>
      cases h
      rfl
  · rintro rfl
    rfl

theorem mapError_eq_error_iff {ε ε' α : Type} {f : ε → ε'} {result : Except ε α} {e' : ε'} :
    result.mapError f = .error e' ↔ ∃ e, result = .error e ∧ f e = e' := by
  constructor
  · intro h
    cases result with
    | ok a => cases h
    | error e =>
      cases h
      exact ⟨e, rfl, rfl⟩
  · rintro ⟨e, rfl, rfl⟩
    rfl

/-- What is wrong, and in which part of the value. -/
structure Complaint where
  cause : Cause
  path : List Segment
deriving DecidableEq, Repr

def Fault.complaint (f : Fault) : Complaint := ⟨f.cause, f.path⟩

def ParseError.complaint (e : ParseError) : Complaint := ⟨e.cause, e.path⟩

abbrev Verdict := Except Complaint

namespace Verdict

variable {α β : Type}

def refuse (cause : Cause) : Verdict α := .error ⟨cause, []⟩

/-- The verdict on a part, seen from the whole. -/
def within (s : Segment) (v : Verdict α) : Verdict α :=
  v.mapError fun c => ⟨c.cause, s :: c.path⟩

def along (segments : List Segment) (v : Verdict α) : Verdict α :=
  v.mapError fun c => ⟨c.cause, segments ++ c.path⟩

def ofMismatch (result : Except Mismatch α) : Verdict α :=
  result.mapError fun m => ⟨.mismatch m, []⟩

@[simp] theorem within_ok (s : Segment) (a : α) : within s (.ok a) = .ok a := rfl

@[simp] theorem within_pure (s : Segment) (a : α) : within s (pure a : Verdict α) = .ok a := rfl

@[simp] theorem within_error (s : Segment) (c : Complaint) :
    within s (.error c : Verdict α) = .error ⟨c.cause, s :: c.path⟩ := rfl

theorem within_map (s : Segment) (f : α → β) (v : Verdict α) :
    within s (f <$> v) = f <$> within s v := by
  cases v <;> rfl

@[simp] theorem along_ok (segments : List Segment) (a : α) : along segments (.ok a) = .ok a := rfl

@[simp] theorem along_error (segments : List Segment) (c : Complaint) :
    along segments (.error c : Verdict α) = .error ⟨c.cause, segments ++ c.path⟩ := rfl

@[simp] theorem toOption_within (s : Segment) (v : Verdict α) :
    (within s v).toOption = v.toOption := by
  cases v <;> rfl

@[simp] theorem ofMismatch_ok (a : α) : ofMismatch (.ok a) = .ok a := rfl

@[simp] theorem ofMismatch_error (m : Mismatch) :
    ofMismatch (.error m : Except Mismatch α) = refuse (.mismatch m) := rfl

@[simp] theorem ok_bind (a : α) (next : α → Verdict β) : (.ok a : Verdict α) >>= next = next a := rfl

@[simp] theorem error_bind (c : Complaint) (next : α → Verdict β) :
    (.error c : Verdict α) >>= next = .error c := rfl

@[simp] theorem map_ok (f : α → β) (a : α) : f <$> (.ok a : Verdict α) = .ok (f a) := rfl

@[simp] theorem map_error (f : α → β) (c : Complaint) :
    f <$> (.error c : Verdict α) = .error c := rfl

@[simp] theorem refuse_bind (cause : Cause) (next : α → Verdict β) :
    refuse cause >>= next = refuse cause := rfl

@[simp] theorem map_refuse (f : α → β) (cause : Cause) : f <$> refuse cause = refuse cause := rfl

end Verdict

namespace Reader

variable {α β σ : Type}

/-- What is read and what is left, or the complaint. -/
def outcome (read : Reader α) (text : List Char) : Verdict (α × List Char) :=
  (read text).mapError Fault.complaint

theorem outcome_eq_ok_iff {read : Reader α} {text : List Char} {p : α × List Char} :
    read.outcome text = .ok p ↔ read text = .ok p := mapError_eq_ok_iff

theorem outcome_eq_error_iff {read : Reader α} {text : List Char} {c : Complaint} :
    read.outcome text = .error c ↔ ∃ f, read text = .error f ∧ f.complaint = c :=
  mapError_eq_error_iff

@[simp] theorem outcome_pure (a : α) (text : List Char) :
    outcome (pure a) text = .ok (a, text) := rfl

@[simp] theorem outcome_bind (read : Reader α) (next : α → Reader β) (text : List Char) :
    (read >>= next).outcome text = read.outcome text >>= fun p => (next p.1).outcome p.2 := by
  simp only [outcome, bind, StateT.bind, Except.bind]
  cases read text <;> rfl

@[simp] theorem outcome_map (f : α → β) (read : Reader α) (text : List Char) :
    (f <$> read).outcome text = (fun p => (f p.1, p.2)) <$> read.outcome text := by
  rw [← bind_pure_comp, outcome_bind]
  cases read.outcome text <;> rfl

@[simp] theorem outcome_fail (cause : Cause) (text : List Char) :
    outcome (fail cause : Reader α) text = .refuse cause := rfl

@[simp] theorem outcome_failNext (cause : Cause) (text : List Char) :
    outcome (failNext cause : Reader α) text = .refuse cause := rfl

@[simp] theorem outcome_peek (text : List Char) : peek.outcome text = .ok (text.head?, text) := rfl

@[simp] theorem outcome_skip (text : List Char) : skip.outcome text = .ok ((), text.tail) := rfl

@[simp] theorem outcome_span (p : Char → Bool) (text : List Char) :
    (span p).outcome text = .ok (text.takeWhile p, text.dropWhile p) := rfl

@[simp] theorem outcome_discard (read : Reader α) (text : List Char) :
    outcome (discard read) text = (fun p => ((), p.2)) <$> read.outcome text :=
  outcome_map (fun _ => ()) read text

@[simp] theorem outcome_blanks (text : List Char) :
    blanks.outcome text = .ok ((), text.dropWhile isBlank) := rfl

@[simp ↓] theorem outcome_peek_bind (next : Option Char → Reader α) (text : List Char) :
    (peek >>= next).outcome text = (next text.head?).outcome text := outcome_bind peek next text

@[simp ↓] theorem outcome_skip_bind (next : Unit → Reader α) (text : List Char) :
    (skip >>= next).outcome text = (next ()).outcome text.tail := outcome_bind skip next text

@[simp ↓] theorem outcome_blanks_bind (next : Unit → Reader α) (text : List Char) :
    (blanks >>= next).outcome text = (next ()).outcome (text.dropWhile isBlank) :=
  outcome_bind blanks next text

@[simp] theorem outcome_under (s : Segment) (read : Reader α) (text : List Char) :
    (under s read).outcome text = .within s (read.outcome text) := by
  simp only [outcome, under]
  cases read text <;> rfl

@[simp] theorem outcome_orMismatch (result : Except Mismatch α) (text : List Char) :
    (orMismatch result).outcome text = (fun a => (a, text)) <$> Verdict.ofMismatch result := by
  cases result <;> rfl

theorem outcome_ite (p : Prop) [Decidable p] (read read' : Reader α) (text : List Char) :
    (if p then read else read').outcome text
      = if p then read.outcome text else read'.outcome text := by
  split <;> rfl

theorem run_of_outcome_ok {read : Reader α} {text : String} {a : α} {rest : List Char}
    (h : read.outcome text.toList = .ok (a, rest)) : read.run text = .ok a := by
  rw [run, outcome_eq_ok_iff.1 h]

theorem run_of_outcome_error {read : Reader α} {text : String} {c : Complaint}
    (h : read.outcome text.toList = .error c) :
    ∃ e, read.run text = .error e ∧ e.complaint = c := by
  obtain ⟨f, hf, rfl⟩ := outcome_eq_error_iff.1 h
  exact ⟨_, by rw [run, hf], rfl⟩

/-- A class of characters is read up to the first one outside. -/
theorem span_append {p : Char → Bool} {s rest : List Char} (hs : ∀ c ∈ s, p c)
    (hrest : ∀ c ∈ rest.head?, p c = false) :
    (s ++ rest).takeWhile p = s ∧ (s ++ rest).dropWhile p = rest := by
  rw [List.takeWhile_append_of_pos hs, List.dropWhile_append_of_pos hs]
  cases rest with
  | nil => simp
  | cons c rest =>
    have hc := hrest c (by simp)
    simp [hc]

/-- What a loop comes to from a state on, with any budget that covers the text. -/
def Comes (step : σ → Reader (Round σ α)) (state : σ) (text : List Char)
    (verdict : Verdict (α × List Char)) : Prop :=
  ∀ budget : List Char, text.length ≤ budget.length →
    (rounds step budget state).outcome text = verdict

namespace Comes

variable {step : σ → Reader (Round σ α)} {state next : σ} {text rest : List Char}
  {verdict : Verdict (α × List Char)}

theorem done {a : α} (h : (step state).outcome text = .ok (.done a, rest)) :
    Comes step state text (.ok (a, rest)) := fun budget _ =>
  outcome_eq_ok_iff.2 (rounds_done (outcome_eq_ok_iff.1 h) budget)

theorem fault {c : Complaint} (h : (step state).outcome text = .error c) :
    Comes step state text (.error c) := fun budget _ => by
  obtain ⟨f, hf, hc⟩ := outcome_eq_error_iff.1 h
  exact outcome_eq_error_iff.2 ⟨f, rounds_error hf budget, hc⟩

theorem again (h : (step state).outcome text = .ok (.again next, rest))
    (hlt : rest.length < text.length) (hrest : Comes step next rest verdict) :
    Comes step state text verdict := fun budget hbudget => by
  cases budget with
  | nil => exact absurd (Nat.lt_of_lt_of_le hlt hbudget) (Nat.not_lt_zero _)
  | cons c budget =>
    rw [outcome, rounds_again (outcome_eq_ok_iff.1 h)]
    exact hrest budget (Nat.le_of_lt_succ (Nat.lt_of_lt_of_le hlt hbudget))

theorem loop (h : Comes step state text verdict) : (loop step state).outcome text = verdict :=
  h text (Nat.le_refl _)

end Comes

end Reader
end ValidatorGen
