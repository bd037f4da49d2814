import ValidatorGen.Proofs.Reading.Outcome

/-! What readers return, all faults being alike. A reader is a function into optional results, and
what a loop returns comes from the rounds that it made. -/
namespace ValidatorGen.Reader

variable {α β σ : Type}

/-- What is read and what is left, if there is no fault. -/
def result? (read : Reader α) (text : List Char) : Option (α × List Char) := (read text).toOption

theorem result?_eq_some_iff {read : Reader α} {text rest : List Char} {a : α} :
    read.result? text = some (a, rest) ↔ read text = .ok (a, rest) := toOption_eq_some_iff

theorem result?_eq_toOption (read : Reader α) (text : List Char) :
    read.result? text = (read.outcome text).toOption := by
  unfold result? outcome
  cases read text <;> rfl

/-- What is returned is known as soon as it is known that something is. -/
theorem outcome_of_result? {read : Reader α} {text : List Char} {p : α × List Char}
    (h : read.result? text = some p) : read.outcome text = .ok p :=
  outcome_eq_ok_iff.2 (toOption_eq_some_iff.1 h)

theorem result?_of_outcome {read : Reader α} {text : List Char} {p : α × List Char}
    (h : read.outcome text = .ok p) : read.result? text = some p := by
  rw [result?_eq_toOption, h]
  rfl

@[simp] theorem result?_pure (a : α) (text : List Char) :
    result? (pure a) text = some (a, text) := result?_of_outcome (outcome_pure a text)

@[simp] theorem result?_bind (read : Reader α) (next : α → Reader β) (text : List Char) :
    (read >>= next).result? text = (read.result? text).bind fun p => (next p.1).result? p.2 := by
  simp only [result?_eq_toOption, outcome_bind, toOption_bind]

@[simp] theorem result?_map (f : α → β) (read : Reader α) (text : List Char) :
    (f <$> read).result? text = (read.result? text).map fun p => (f p.1, p.2) := by
  simp only [result?_eq_toOption, outcome_map, toOption_map]

@[simp] theorem result?_peek (text : List Char) : peek.result? text = some (text.head?, text) :=
  result?_of_outcome (outcome_peek text)

@[simp] theorem result?_skip (text : List Char) : skip.result? text = some ((), text.tail) :=
  result?_of_outcome (outcome_skip text)

@[simp] theorem result?_span (p : Char → Bool) (text : List Char) :
    (span p).result? text = some (text.takeWhile p, text.dropWhile p) := rfl

@[simp] theorem result?_discard (read : Reader α) (text : List Char) :
    result? (discard read) text = (read.result? text).map fun p => ((), p.2) :=
  result?_map (fun _ => ()) read text

@[simp ↓] theorem result?_peek_bind (next : Option Char → Reader α) (text : List Char) :
    (peek >>= next).result? text = (next text.head?).result? text := result?_bind peek next text

@[simp ↓] theorem result?_skip_bind (next : Unit → Reader α) (text : List Char) :
    (skip >>= next).result? text = (next ()).result? text.tail := result?_bind skip next text

@[simp ↓] theorem result?_blanks_bind (next : Unit → Reader α) (text : List Char) :
    (blanks >>= next).result? text = (next ()).result? (text.dropWhile isBlank) :=
  result?_bind blanks next text

@[simp] theorem result?_under (s : Segment) (read : Reader α) (text : List Char) :
    (under s read).result? text = read.result? text := by
  simp only [result?_eq_toOption, outcome_under, Verdict.toOption_within]

theorem result?_ite (p : Prop) [Decidable p] (read read' : Reader α) (text : List Char) :
    (if p then read else read').result? text
      = if p then read.result? text else read'.result? text := by
  split <;> rfl

theorem run_eq_ok_iff {read : Reader α} {text : String} {a : α} :
    read.run text = .ok a ↔ ∃ rest, read.result? text.toList = some (a, rest) := by
  constructor
  · intro h
    cases hread : read text.toList with
    | error f => simp [run, hread] at h
    | ok p =>
      rw [run, hread] at h
      exact ⟨p.2, by rw [← Except.ok.inj h, result?, hread]; rfl⟩
  · rintro ⟨rest, h⟩
    exact run_of_outcome_ok (outcome_of_result? h)

/-- The rounds that a loop makes until it is done. -/
inductive Runs (step : σ → Reader (Round σ α)) : σ → List Char → α → List Char → Prop
  | done {state : σ} {text rest : List Char} {a : α} :
    (step state).result? text = some (.done a, rest) → Runs step state text a rest
  | again {state next : σ} {text middle rest : List Char} {a : α} :
    (step state).result? text = some (.again next, middle) → Runs step next middle a rest →
    Runs step state text a rest

theorem runs_of_rounds {step : σ → Reader (Round σ α)} (budget : List Char)
    {text rest : List Char} {state : σ} {a : α}
    (h : (rounds step budget state).result? text = some (a, rest)) :
    Runs step state text a rest := by
  induction budget generalizing state text with
  | nil =>
    unfold rounds at h
    simp only [result?_bind, Option.bind_eq_some_iff] at h
    obtain ⟨⟨round, middle⟩, hround, h⟩ := h
    cases round with
    | done b =>
      cases h
      exact .done hround
    | again next => cases h
  | cons c budget ih =>
    unfold rounds at h
    simp only [result?_bind, Option.bind_eq_some_iff] at h
    obtain ⟨⟨round, middle⟩, hround, h⟩ := h
    cases round with
    | done b =>
      cases h
      exact .done hround
    | again next => exact .again hround (ih h)

/-- A loop that returns has made rounds until it was done. -/
theorem runs_of_loop {step : σ → Reader (Round σ α)} {text rest : List Char} {state : σ} {a : α}
    (h : (loop step state).result? text = some (a, rest)) : Runs step state text a rest :=
  runs_of_rounds text h

end ValidatorGen.Reader
