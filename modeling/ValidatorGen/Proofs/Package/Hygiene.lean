import ValidatorGen.Proofs.Compile.Parts
import ValidatorGen.Proofs.Generate

/-! Names that generated code uses and names that it declares. Main statement: a name that can be
bound does no harm, unless it is that of the library or of what the checks of the schema use. -/
namespace ValidatorGen

/-- What the code of a call uses besides the library: patterns become regular expressions, and JSON
is parsed. -/
def Call.globals (call : Call) : List String :=
  if call.name = "regex" then ["RegExp"]
  else if call.name = "transform" then ["JSON"]
  else []

/-- What the calls of an expression use, without what is in their arguments. -/
def Expression.globals (e : Expression) : List String :=
  e.base.globals ++ e.chain.flatMap Call.globals

/-- The names that an expression takes from around it. All expressions in it start at the library. -/
def Expression.freeNames (e : Expression) : List String :=
  e.parts.flatMap fun part => "z" :: part.globals

/-- What a name at the top of a module stands for. -/
inductive Binding where
  | library
  | code
deriving DecidableEq, Repr

/-- The names that a packaging declares. Bare code expects the library to be there, and CommonJS
binds no name to the code. -/
def Options.scope (o : Options) : List (String × Binding) :=
  match o.packaging, o.name with
  | .plain, none => []
  | .plain, some name => [(name, .code)]
  | .esm, none => [("z", .library)]
  | .esm, some name => [("z", .library), (name, .code)]
  | .cjs, _ => [("z", .library)]

/-- No name is declared twice, and none that the expression uses stands for the code itself. -/
structure Hygienic (o : Options) (e : Expression) : Prop where
  nodup : (o.scope.map Prod.fst).Nodup
  fresh : ∀ name ∈ e.freeNames, (name, .code) ∉ o.scope

namespace Node

def hasPattern : Node → Bool
  | .string k _ => k.pattern.isSome
  | _ => false

def hasJsonContent : Node → Bool
  | .string k _ => k.hasJsonContent
  | _ => false

/-- What the checks of a schema use besides the library, without its parts. -/
def globals (node : Node) : List String :=
  (if node.hasJsonContent then ["JSON"] else []) ++ if node.hasPattern then ["RegExp"] else []

end Node

theorem globals_map {α : Type} {f : α → Call} (h : ∀ a, (f a).globals = []) (value : Option α) :
    (value.map f).toList.flatMap Call.globals = [] := by
  cases value with
  | none => rfl
  | some a => simp [h]

theorem FormatSlot.globals_call? (slot : FormatSlot) :
    slot.call?.toList.flatMap Call.globals = [] := by
  cases slot with
  | none => rfl
  | base64 message => rfl
  | format f message => cases f <;> rfl

theorem StringKeywords.globals_slots (k : StringKeywords) (content : Option Expression) :
    (filled (k.slots content)).flatMap Call.globals
      = (if k.hasJsonContent then ["JSON"] else [])
        ++ if k.pattern.isSome then ["RegExp"] else [] := by
  have htransform : k.transformCall?.toList.flatMap Call.globals
      = if k.hasJsonContent then ["JSON"] else [] := by
    unfold transformCall?
    split <;> rfl
  have hpipe : (k.pipeCall? content).toList.flatMap Call.globals = [] := by
    unfold pipeCall?
    split
    · exact globals_map (fun _ => rfl) content
    · rfl
  have hpattern : k.patternCall?.toList.flatMap Call.globals
      = if k.pattern.isSome then ["RegExp"] else [] := by
    unfold patternCall?
    cases k.pattern <;> rfl
  have hmin : k.minLengthCall?.toList.flatMap Call.globals = [] := globals_map (fun _ => rfl) _
  have hmax : k.maxLengthCall?.toList.flatMap Call.globals = [] := globals_map (fun _ => rfl) _
  simp [slots, k.formatSlot.globals_call?, htransform, hpipe, hpattern, hmin, hmax]

theorem Bounds.globals_slots (b : Bounds) : (filled b.slots).flatMap Call.globals = [] := by
  simp [slots, slots.slot, globals_map, Call.globals, Call.unary]

theorem ListSize.globals_slots (s : ListSize) : (filled s.slots).flatMap Call.globals = [] := by
  simp [slots, slots.slot, globals_map, Call.globals, Call.unary]

@[simp] theorem Expression.globals_push_plain (e : Expression) (name : String) :
    (e.push (.plain name)).globals = e.globals ++ (Call.plain name).globals := by
  simp [globals, push]

theorem Node.globals_validator (node : Node) : node.validator.globals = node.globals := by
  cases node with
  | string k content =>
    rw [validator_string, Expression.globals, k.globals_slots]
    rfl
  | integer b =>
    rw [validator_integer, Expression.globals, List.flatMap_cons, b.globals_slots]
    rfl
  | number b =>
    rw [validator_number, Expression.globals, b.globals_slots]
    rfl
  | array s items =>
    rw [validator_array, Expression.globals, s.globals_slots]
    rfl
  | object properties required =>
    rw [validator_object]
    rfl
  | boolean | null | any => rfl

theorem LivePart.globals_validator (p : LivePart) : p.validator.globals = p.node.globals := by
  unfold validator
  split
  · rw [Expression.globals_push_plain, p.node.globals_validator]
    exact List.append_nil _
  · exact p.node.globals_validator

theorem Node.freeNames_validator (node : Node) :
    node.validator.freeNames = node.liveParts.flatMap fun p => "z" :: p.node.globals := by
  rw [Expression.freeNames, parts_validator, List.flatMap_map]
  simp [LivePart.globals_validator]

theorem Node.mem_globals {node : Node} {name : String} : name ∈ node.globals
    ↔ (name = "RegExp" ∧ node.hasPattern) ∨ (name = "JSON" ∧ node.hasJsonContent) := by
  cases hp : node.hasPattern <;> cases hj : node.hasJsonContent <;> simp [globals, hp, hj, or_comm]

theorem Node.mem_freeNames_validator {node : Node} {name : String} :
    name ∈ node.validator.freeNames ↔ name = "z"
      ∨ (name = "RegExp" ∧ ∃ p ∈ node.liveParts, p.node.hasPattern)
      ∨ (name = "JSON" ∧ ∃ p ∈ node.liveParts, p.node.hasJsonContent) := by
  rw [freeNames_validator]
  simp only [List.mem_flatMap, List.mem_cons, mem_globals]
  constructor
  · rintro ⟨p, hp, rfl | ⟨rfl, hpattern⟩ | ⟨rfl, hjson⟩⟩
    · exact .inl rfl
    · exact .inr (.inl ⟨rfl, p, hp, hpattern⟩)
    · exact .inr (.inr ⟨rfl, p, hp, hjson⟩)
  · rintro (rfl | ⟨rfl, p, hp, hpattern⟩ | ⟨rfl, p, hp, hjson⟩)
    · exact ⟨⟨node, false⟩, List.mem_cons_self, .inl rfl⟩
    · exact ⟨p, hp, .inr (.inl ⟨rfl, hpattern⟩)⟩
    · exact ⟨p, hp, .inr (.inr ⟨rfl, hjson⟩)⟩

section Scope

variable {p : Packaging} {name other : String}

theorem Options.code_mem_scope :
    (other, Binding.code) ∈ scope ⟨p, some name⟩ ↔ p ≠ .cjs ∧ other = name := by
  cases p <;> simp [scope]

theorem Options.nodup_scope :
    ((scope ⟨p, some name⟩).map Prod.fst).Nodup ↔ (p = .esm → name ≠ "z") := by
  cases p <;> simp [scope, eq_comm]

/-- Every validator uses the library, so a name that none of it uses is not declared twice either. -/
theorem Node.hygienic_validator_iff {node : Node} :
    Hygienic ⟨p, some name⟩ node.validator ↔ p = .cjs ∨ name ∉ node.validator.freeNames := by
  have hlibrary : "z" ∈ node.validator.freeNames := mem_freeNames_validator.2 (.inl rfl)
  constructor
  · intro h
    by_cases hp : p = .cjs
    · exact .inl hp
    · exact .inr fun hname => h.fresh name hname (Options.code_mem_scope.2 ⟨hp, rfl⟩)
  · intro h
    refine ⟨Options.nodup_scope.2 ?_, fun other hother hmem => ?_⟩
    · rintro rfl rfl
      -- The library would be declared twice, but then the name is also one that is used.
      exact h.resolve_left (by decide) hlibrary
    · obtain ⟨hp, rfl⟩ := Options.code_mem_scope.1 hmem
      exact h.resolve_left hp hother

end Scope

/-- Generated code with a name is hygienic, unless it binds the name of the library or of something
that a check somewhere in the schema uses. -/
theorem generate_hygienic_iff {text name code : String} {p : Packaging}
    (h : (generate text ⟨p, some name⟩).value = .ok code) :
    ∃ node e, (compileText text).value = .ok (node, e)
      ∧ Options.package e.render p (some name) = code
      ∧ (Hygienic ⟨p, some name⟩ e ↔ p = .cjs ∨ name ≠ "z"
        ∧ (name = "RegExp" → ∀ part ∈ node.liveParts, ¬part.node.hasPattern)
        ∧ (name = "JSON" → ∀ part ∈ node.liveParts, ¬part.node.hasJsonContent)) := by
  obtain ⟨node, e, hcompile, hwrap⟩ := value_generate_eq_ok_iff.1 h
  obtain ⟨-, hcode⟩ := Options.wrap_eq_ok_iff.1 hwrap
  obtain ⟨-, rfl⟩ := value_compileText_eq_ok_iff.1 hcompile
  refine ⟨node, _, hcompile, hcode, Node.hygienic_validator_iff.trans (or_congr_right ?_)⟩
  rw [Node.mem_freeNames_validator]
  simp only [not_or, not_and, not_exists]

/-- A pattern within JSON content uses a name that must not be bound then, while another may be. -/
theorem generate_hygienic_iff_pattern : ∃ text code code',
    (generate text ⟨.plain, some "RegExp"⟩).value = .ok code
    ∧ (generate text ⟨.esm, some "user"⟩).value = .ok code'
    ∧ ∃ node e, (compileText text).value = .ok (node, e)
      ∧ ¬Hygienic ⟨.plain, some "RegExp"⟩ e ∧ Hygienic ⟨.esm, some "user"⟩ e := by
  let text := "\x7b\"type\": \"string\", \"contentMediaType\": \"application/json\", "
    ++ "\"contentSchema\": \x7b\"type\": \"string\", \"pattern\": \"a\"\x7d\x7d"
  let code := "const RegExp = z.string().transform(" ++ parseJsonCode
    ++ ").pipe(z.string().regex(new RegExp(\"a\")))"
  have hcode : (generate text ⟨.plain, some "RegExp"⟩).value = .ok code :=
    toOption_eq_some_iff.1 (by decide +kernel)
  have hpattern : ((compileText text).value.map fun result =>
      result.1.liveParts.any (·.node.hasPattern)) = .ok true :=
    toOption_eq_some_iff.1 (by decide +kernel)
  obtain ⟨node, e, hcompile, -, hiff⟩ := generate_hygienic_iff hcode
  have hcode' : (generate text ⟨.esm, some "user"⟩).value
      = .ok (Options.package e.render .esm (some "user")) :=
    value_generate_eq_ok_iff.2 ⟨node, e, hcompile, rfl⟩
  obtain ⟨node', e', hcompile', -, hiff'⟩ := generate_hygienic_iff hcode'
  cases hcompile.symm.trans hcompile'
  rw [hcompile] at hpattern
  obtain ⟨part, hpart, hlive⟩ := List.any_eq_true.1 (Except.ok.inj hpattern)
  refine ⟨text, code, _, hcode, hcode', node, e, hcompile, fun h => ?_, ?_⟩
  · exact ((hiff.1 h).resolve_left (by decide)).2.1 rfl part hpart hlive
  · exact hiff'.2 (.inr ⟨by decide, by simp, by simp⟩)

/-- The name of the library can be bound, and is then declared twice. -/
theorem not_hygienic_of_library : ∃ code node e,
    code = "import \x7b z \x7d from \"zod\"\n\nexport const z = z.any()"
    ∧ (generate "\x7b\x7d" ⟨.esm, some "z"⟩).value = .ok code
    ∧ (compileText "\x7b\x7d").value = .ok (node, e)
    ∧ "z" ∈ e.freeNames ∧ ¬((Options.scope ⟨.esm, some "z"⟩).map Prod.fst).Nodup
    ∧ ¬Hygienic ⟨.esm, some "z"⟩ e := by
  let code := "import \x7b z \x7d from \"zod\"\n\nexport const z = z.any()"
  have hcode : (generate "\x7b\x7d" ⟨.esm, some "z"⟩).value = .ok code :=
    toOption_eq_some_iff.1 (by decide +kernel)
  obtain ⟨node, e, hcompile, -⟩ := value_generate_eq_ok_iff.1 hcode
  obtain ⟨-, rfl⟩ := value_compileText_eq_ok_iff.1 hcompile
  have htwice : ¬((Options.scope ⟨.esm, some "z"⟩).map Prod.fst).Nodup := by decide
  exact ⟨code, node, _, rfl, hcode, hcompile, Node.mem_freeNames_validator.2 (.inl rfl), htwice,
    fun h => htwice h.nodup⟩

end ValidatorGen
