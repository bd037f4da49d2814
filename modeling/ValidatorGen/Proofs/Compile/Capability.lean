import ValidatorGen.Proofs.Compile.Context
import ValidatorGen.Proofs.Compile.Equivalence
import ValidatorGen.Proofs.Compile.Log

/-! Strings and the compiler that they are given for the schema of their content. Main statement:
that compiler is asked once if the content is JSON and has a schema, and never otherwise, and all
that depends on it is the argument of the call for the content. -/
namespace ValidatorGen

section Recording

variable {ε : Type}

/-- A compiler that also notes which schemas it is asked for. -/
def recorded (nested : Node → Traced ε Expression) (node : Node) : Traced (ε ⊕ Node) Expression :=
  ⟨(nested node).value, .inr node :: (nested node).log.map .inl⟩

/-- The schemas that a compiler was asked for. -/
def asked (log : List (ε ⊕ Node)) : List Node := log.filterMap Sum.getRight?

def unasked (log : List (ε ⊕ Node)) : List ε := log.filterMap Sum.getLeft?

@[simp] theorem asked_append (log log' : List (ε ⊕ Node)) :
    asked (log ++ log') = asked log ++ asked log' := List.filterMap_append

@[simp] theorem asked_map_inl (log : List ε) : asked (log.map .inl) = [] := by
  simp [asked, List.filterMap_map, Function.comp_def]

@[simp] theorem asked_recorded (nested : Node → Traced ε Expression) (node : Node) :
    asked (recorded nested node).log = [node] := by
  have hinner := asked_map_inl (nested node).log
  exact congrArg (node :: ·) hinner

@[simp] theorem unasked_append (log log' : List (ε ⊕ Node)) :
    unasked (log ++ log') = unasked log ++ unasked log' := List.filterMap_append

@[simp] theorem unasked_map_inl (log : List ε) : unasked (log.map .inl) = log := by
  simp [unasked, List.filterMap_map, Function.comp_def]

@[simp] theorem unasked_recorded (nested : Node → Traced ε Expression) (node : Node) :
    unasked (recorded nested node).log = (nested node).log := unasked_map_inl (nested node).log

end Recording

theorem Node.compile_string {ε : Type} (note : Notice → ε) (k : StringKeywords)
    (content : Option Node) :
    (Node.string k content).compile note = k.compileWith note (Node.compile note) content := by
  cases content <;> rfl

namespace StringKeywords

/-- A compiler that is given for the content is asked for it if it is JSON, and for nothing else;
what it logs itself is logged as without the recording. -/
theorem log_compileWith_recorded {ε : Type} (note : Notice → ε)
    (nested : Node → Traced ε Expression) (k : StringKeywords) (content : Option Node) :
    asked (k.compileWith (.inl ∘ note) (recorded nested) content).log
        = (if k.hasJsonContent then content.toList else [])
      ∧ unasked (k.compileWith (.inl ∘ note) (recorded nested) content).log
        = (k.compileWith note nested content).log := by
  rw [compileWith, compileWith, log_compile, log_compile, ← List.map_map]
  generalize k.notices.map note = notices
  cases k.hasJsonContent <;> cases content <;> simp

theorem name_ne_pipe (k : StringKeywords) {call : Call}
    (hcall : call ∈ filled [k.formatSlot.call?, k.transformCall?]
      ++ filled [k.patternCall?, k.minLengthCall?, k.maxLengthCall?]) : call.name ≠ "pipe" := by
  have hnamed : List.Forall₂ Named (slotNames.eraseIdx 2) [k.formatSlot.call?, k.transformCall?,
      k.patternCall?, k.minLengthCall?, k.maxLengthCall?] := by
    have hslots := k.named_slots none
    simp only [slotNames, slots, List.forall₂_cons, List.eraseIdx] at hslots ⊢
    exact ⟨hslots.1, hslots.2.1, hslots.2.2.2⟩
  have hmem := name_mem_of_mem_filled hnamed (by simpa using hcall)
  intro hname
  rw [hname] at hmem
  exact absurd hmem (by decide)

/-- A string uses the compiler that it is given only for JSON content: it asks it once for the
schema of the content, if there is one, and for nothing otherwise. The expressions for all compilers
are the same, except for the argument of the call for the content, where the expression of the
compiler stands; so its code stands in code that is the same for all compilers. -/
theorem compileWith_parametric (k : StringKeywords) (content : Option Node) :
    (∀ {ε : Type} (note : Notice → ε) (nested : Node → Traced ε Expression),
      asked (k.compileWith (.inl ∘ note) (recorded nested) content).log
          = (if k.hasJsonContent then content.toList else [])
        ∧ unasked (k.compileWith (.inl ∘ note) (recorded nested) content).log
          = (k.compileWith note nested content).log)
      ∧ (∀ schema, k.hasJsonContent = true → content = some schema →
        ∃ (before after : List Call) (message : Option String) (pre post : String),
          (∀ call ∈ before ++ after, call.name ≠ "pipe")
            ∧ ∀ {ε : Type} (note : Notice → ε) (nested : Node → Traced ε Expression),
              (k.compileWith note nested content).value = ⟨.plain "string",
                  before ++ .unary "pipe" (.expression (nested schema).value) message :: after⟩
                ∧ (k.compileWith note nested content).value.render
                  = pre ++ (nested schema).value.render ++ post)
      ∧ ((k.hasJsonContent = true → content = none) → ∃ e : Expression,
        ∀ {ε : Type} (note : Notice → ε) (nested : Node → Traced ε Expression),
          (k.compileWith note nested content).value = e) := by
  refine ⟨fun note nested => k.log_compileWith_recorded note nested content, ?_, ?_⟩
  · rintro schema hjson rfl
    obtain ⟨pre, post, hcode⟩ := content_encloses hjson
    refine ⟨_, _, k.messages.forKeyword .contentSchema, .ofList pre, .ofList post,
      fun call => k.name_ne_pipe, fun note nested => ?_⟩
    have hvalue : (k.compileWith note nested (some schema)).value
        = ⟨.plain "string", filled (k.slots (some (nested schema).value))⟩ :=
      k.value_compile note _
    constructor
    · rw [hvalue, filled_slots_of_json hjson]
    · beta_reduce at hcode
      rw [hvalue, Expression.render, hcode]
      simp [Expression.render, String.append_assoc]
  · intro hunused
    refine ⟨⟨.plain "string", filled (k.slots none)⟩, fun note nested => ?_⟩
    rw [compileWith, value_compile]
    cases hjson : k.hasJsonContent with
    | false => rw [slots_of_not_json hjson _ none]
    | true =>
      rw [hunused hjson]
      rfl

/-- Of two strings with a schema for their content, one holds JSON and the other does not. -/
theorem compileWith_parametric_json : ∃ k k' : StringKeywords,
    k.hasJsonContent = true ∧ k'.hasJsonContent = false
      ∧ (∀ nested : Node → Traced Notice Expression,
        asked (k.compileWith .inl (recorded nested) (some .null)).log = [.null])
      ∧ (∃ (before after : List Call) (message : Option String) (pre post : String),
        (∀ call ∈ before ++ after, call.name ≠ "pipe")
          ∧ ∀ {ε : Type} (note : Notice → ε) (nested : Node → Traced ε Expression),
            (k.compileWith note nested (some .null)).value = ⟨.plain "string",
                before ++ .unary "pipe" (.expression (nested .null).value) message :: after⟩
              ∧ (k.compileWith note nested (some .null)).value.render
                = pre ++ (nested .null).value.render ++ post)
      ∧ ∃ e : Expression, ∀ {ε : Type} (note : Notice → ε) (nested : Node → Traced ε Expression),
        (k'.compileWith note nested (some .null)).value = e := by
  let k : StringKeywords := { contentMediaType := some "application/json" }
  let k' : StringKeywords := { contentMediaType := some "text/html" }
  have hjson : k.hasJsonContent = true := by decide +kernel
  have hother : k'.hasJsonContent = false := by decide +kernel
  obtain ⟨hasked, hpiped, -⟩ := compileWith_parametric k (some .null)
  refine ⟨k, k', hjson, hother, fun nested => ?_, hpiped .null hjson rfl, ?_⟩
  · have hlog := (hasked id nested).1
    rw [hjson] at hlog
    exact hlog
  · exact (compileWith_parametric k' _).2.2 fun h => by rw [hother] at h; cases h

end StringKeywords

end ValidatorGen
