import ValidatorGen.Proofs.Expression.Induction

/-! The expressions that compilation gives: which names their calls have, and which argument goes
with a name. Main statement: the validator of a node whose bounds are finite is such an
expression. -/
namespace ValidatorGen

mutual

/-- Whether the call of a name takes an argument. -/
def Arg.Fits (name : String) : Arg → Prop
  | .text _ => False
  | .count _ => name = "min" ∨ name = "max"
  | .number x => name ∈ boundNames ∧ x.isFinite
  | .flag _ => False
  | .options entries => FitOptions name entries
  | .shape entries => name = "object" ∧ EmittedEntries entries
  | .expression e => (name = "array" ∨ name = "pipe") ∧ e.Emitted
  | .code s => name = "transform" ∧ s = parseJsonCode ∨ name = "regex" ∧ ∃ p, s = regExpCode p

def EmittedEntries : List (String × Arg) → Prop
  | [] => True
  | (_, .expression e) :: rest => e.Emitted ∧ EmittedEntries rest
  | _ :: _ => False

def ArgsFit (name : String) : List Arg → Prop
  | [] => name ∈ bareNames
  | [arg] => arg.Fits name
  | _ :: _ :: _ => False

def Call.Emitted : Call → Prop
  | ⟨name, args, _⟩ => ArgsFit name args

def EmittedCalls : List Call → Prop
  | [] => True
  | call :: rest => call.Emitted ∧ EmittedCalls rest

def Expression.Emitted : Expression → Prop
  | ⟨base, chain⟩ => base.Emitted ∧ EmittedCalls chain

end

theorem emittedCalls_iff {calls : List Call} :
    EmittedCalls calls ↔ ∀ call ∈ calls, call.Emitted := by
  induction calls with
  | nil => simp [EmittedCalls]
  | cons call rest ih => simp [EmittedCalls, ih]

theorem emittedEntries_map {entries : List (String × Expression)}
    (h : ∀ entry ∈ entries, entry.2.Emitted) :
    EmittedEntries (entries.map fun entry => (entry.1, .expression entry.2)) := by
  induction entries with
  | nil => trivial
  | cons entry rest ih =>
    obtain ⟨hentry, hrest⟩ := List.forall_mem_cons.1 h
    exact ⟨hentry, ih hrest⟩

theorem Call.Made.emitted {call : Call}
    (h : call.Made (fun x => x.isFinite) Expression.Emitted) : call.Emitted := by
  cases h with
  | bare hname => exact hname
  | count hname => exact hname
  | number hname hx => exact ⟨hname, hx⟩
  | options hfit => exact hfit
  | parseJson => exact .inl ⟨rfl, rfl⟩
  | regExp pattern => exact .inr ⟨rfl, pattern, rfl⟩
  | nested hname he => exact ⟨hname, he⟩
  | shape hentries => exact ⟨rfl, emittedEntries_map hentries⟩

theorem spreads_emitted : Spreads (fun x => x.isFinite) Expression.Emitted := by
  rintro ⟨base, chain⟩ ⟨hbase, hchain⟩
  exact ⟨hbase.emitted, emittedCalls_iff.2 fun call hcall => (hchain call hcall).emitted⟩

/-- What a schema with finite bounds is compiled to. -/
theorem Node.emitted_validator (node : Node) (h : node.Finite) : node.validator.Emitted :=
  spreads_emitted _ (made_validator spreads_emitted node h)

end ValidatorGen
