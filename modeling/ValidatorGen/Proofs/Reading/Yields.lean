import ValidatorGen.Proofs.Reading.Result

/-! Properties of everything that a reader can return. What each round of a loop keeps holds of the
result of the loop. -/
namespace ValidatorGen.Reader

variable {α β σ : Type}

/-- Whatever the reader returns has the property. -/
def Yields (P : α → Prop) (read : Reader α) : Prop :=
  ∀ text a rest, read.result? text = some (a, rest) → P a

namespace Yields

variable {P : α → Prop} {Q : β → Prop}

theorem pure {a : α} (h : P a) : Yields P (pure a) := fun _ _ _ hr => by
  cases hr
  exact h

theorem bind {read : Reader α} {next : α → Reader β} (h : Yields P read)
    (hnext : ∀ a, P a → Yields Q (next a)) : Yields Q (read >>= next) := fun text b rest hr => by
  rw [result?_bind, Option.bind_eq_some_iff] at hr
  obtain ⟨⟨a, middle⟩, ha, hb⟩ := hr
  exact hnext a (h text a middle ha) middle b rest hb

theorem map {f : α → β} {read : Reader α} (h : Yields (fun a => Q (f a)) read) :
    Yields Q (f <$> read) := fun text b rest hr => by
  rw [result?_map, Option.map_eq_some_iff] at hr
  obtain ⟨⟨a, middle⟩, ha, hb⟩ := hr
  cases hb
  exact h text a _ ha

theorem true (read : Reader α) : Yields (fun _ => True) read := fun _ _ _ _ => trivial

theorem failAhead (ahead : Nat) (cause : Cause) : Yields P (failAhead ahead cause) :=
  fun _ _ _ hr => by cases hr

theorem under {s : Segment} {read : Reader α} (h : Yields P read) : Yields P (under s read) :=
  fun text a rest hr => h text a rest (result?_under s read text ▸ hr)

theorem orMismatch {result : Except Mismatch α} (h : ∀ a, result = .ok a → P a) :
    Yields P (orMismatch result) := by
  cases result with
  | ok a => exact .pure (h a rfl)
  | error m => exact .failAhead 0 _

/-- An invariant of the rounds holds of the state in which the loop ends. -/
theorem loop {I : σ → Prop} {step : σ → Reader (Round σ α)}
    (h : ∀ state, I state → Yields (fun | .again next => I next | .done a => P a) (step state))
    {init : σ} (hinit : I init) : Yields P (loop step init) := by
  intro text a rest hr
  replace hr := runs_of_loop hr
  induction hr with
  | done hround => exact h _ hinit _ _ _ hround
  | again hround hrest ih => exact ih (h _ hinit _ _ _ hround)

variable {I : σ → Prop}

theorem valueOf {name : String} {read : Reader α} (h : Yields P read) :
    Yields P (valueOf name read) := bind (true _) fun _ _ => under h

theorem object {member : σ → String → Reader σ}
    (h : ∀ state name, I state → Yields I (member state name)) {init : σ} (hinit : I init) :
    Yields I (object member init) := by
  refine bind (true _) fun _ _ => bind (P := I) (loop (I := fun s => I s.2) ?_ hinit)
    fun result hresult => bind (true _) fun _ _ => .pure hresult
  intro (first, state) hstate
  refine bind (true _) fun name _ => ?_
  cases name with
  | none => exact .pure hstate
  | some name => exact bind (h state name hstate) fun next hnext => .pure hnext

end Yields
end ValidatorGen.Reader
