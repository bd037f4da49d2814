import ValidatorGen.Reading.Reader

/-! Loops of readers. Each round reads something or ends the loop, so a text bounds the rounds that
can be made on it. -/
namespace ValidatorGen

/-- What a round of a loop ends with. -/
inductive Round (σ α : Type) where
  | again (state : σ)
  | done (result : α)

namespace Reader

variable {σ α : Type}

/-- Runs at most one round more than the first argument has characters. -/
def rounds (step : σ → Reader (Round σ α)) : List Char → σ → Reader α
  | budget, state => do
    match ← step state with
    | .done result => pure result
    | .again next =>
      match budget with
      | [] => fail .valueWanted
      | _ :: budget => rounds step budget next

/-- Repeats a step until it is done. A step that goes on has read something, so there are no more
rounds than characters, and one. -/
def loop (step : σ → Reader (Round σ α)) (init : σ) : Reader α := fun text =>
  rounds step text init text

theorem rounds_done {step : σ → Reader (Round σ α)} {state : σ} {text rest : List Char} {a : α}
    (h : step state text = .ok (.done a, rest)) (budget : List Char) :
    rounds step budget state text = .ok (a, rest) := by
  rw [rounds]
  simp only [bind, StateT.bind, Except.bind, h]
  rfl

theorem rounds_error {step : σ → Reader (Round σ α)} {state : σ} {text : List Char} {f : Fault}
    (h : step state text = .error f) (budget : List Char) :
    rounds step budget state text = .error f := by
  rw [rounds]
  simp only [bind, StateT.bind, Except.bind, h]

theorem rounds_again {step : σ → Reader (Round σ α)} {state next : σ} {text rest : List Char}
    (h : step state text = .ok (.again next, rest)) (c : Char) (budget : List Char) :
    rounds step (c :: budget) state text = rounds step budget next rest := by
  rw [rounds]
  simp only [bind, StateT.bind, Except.bind, h]

end Reader
end ValidatorGen
