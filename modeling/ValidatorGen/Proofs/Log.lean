import ValidatorGen.Proofs.Compile.Places
import ValidatorGen.Proofs.Generate

/-! The log of a generation. Main statement: nothing is logged for a text that is no schema. For a
schema the notices of the strings that count come first, in the order of the code, then what was
compiled, and then what was generated if that succeeds. -/
namespace ValidatorGen

theorem Event.level_eq_trace_iff {event : Event} :
    event.level = .trace ↔ ∃ notice, event = .ignored notice := by
  cases event <;> simp [level]

def Node.strings (node : Node) : List Place := node.places.filter (·.node.kind = .string)

namespace Node

theorem mem_strings_iff {node : Node} {p : Place} : p ∈ node.strings
    ↔ p.node.kind = .string ∧ (∀ f ∈ p.context, f.live) ∧ p.context.fill p.node = node := by
  rw [strings, List.mem_filter, mem_places_iff, decide_eq_true_eq, and_comm]

theorem notices_of_kind_ne {node : Node} (h : node.kind ≠ .string) : node.notices = [] := by
  cases node <;> simp [kind, notices] at h ⊢

theorem notices_strings (node : Node) :
    node.strings.flatMap (·.node.notices) = node.places.flatMap (·.node.notices) := by
  rw [strings]
  induction node.places with
  | nil => rfl
  | cons p rest ih =>
    by_cases hkind : p.node.kind = .string
    · simp [hkind, ih]
    · simp [hkind, ih, notices_of_kind_ne hkind]

theorem log_compile_strings (node : Node) : (node.compile Event.ignored).log
    = node.strings.flatMap fun p => p.node.notices.map .ignored := by
  rw [log_compile, ← notices_places, ← notices_strings, List.map_flatMap]

end Node

theorem log_compileText (text : String) : (compileText text).log
    = match Node.parse text with
      | .error _ => []
      | .ok node => node.strings.flatMap (fun p => p.node.notices.map .ignored)
        ++ [.compiled node.kind node.validator.chain.length] := by
  unfold compileText
  cases Node.parse text with
  | error e => rfl
  | ok node => simp [Node.log_compile_strings, Node.value_compile]

theorem log_generate (text : String) (o : Options) : (generate text o).log
    = (compileText text).log ++ match (generate text o).value with
      | .error _ => []
      | .ok code => [.generated o.packaging code.utf8ByteSize] := by
  simp only [generate, Traced.log_bind, Traced.value_bind]
  cases (compileText text).value with
  | error e => rfl
  | ok result => cases hwrap : o.wrap result.2.render <;> simp [hwrap]

/-- The places of all strings that count, in the order in which they start in the code. -/
structure InCodeOrder (node : Node) (strings : List Place) : Prop where
  mem_iff : ∀ p, p ∈ strings
    ↔ p.node.kind = .string ∧ (∀ f ∈ p.context, f.live) ∧ p.context.fill p.node = node
  shown : ∀ p ∈ strings, p.context.front ++ p.node.validator.chars <+: node.validator.chars
  ordered : strings.Pairwise fun p q => p.start < q.start

theorem Node.strings_inCodeOrder (node : Node) : InCodeOrder node node.strings where
  mem_iff _ := mem_strings_iff
  shown _ hp := front_prefix_of_mem_places (List.mem_of_mem_filter hp)
  ordered := node.places_ordered.filter _

/-- The log of a generation goes through the compiled tree. The strings that count come first, in
the order of the code, each with its format and encoding before its media type. Then there is one
event for the root and, exactly if code is generated, one for the code. -/
theorem log_generate_in_order (text : String) (o : Options) :
    (∀ e, Node.parse text = .error e → (generate text o).log = [])
      ∧ (∀ node, Node.parse text = .ok node → InCodeOrder node node.strings
        ∧ (generate text o).value = o.wrap node.validator.render
        ∧ (generate text o).log = node.strings.flatMap (fun p => p.node.notices.map .ignored)
          ++ [.compiled node.kind node.validator.chain.length]
          ++ match (generate text o).value with
            | .error _ => []
            | .ok code => [.generated o.packaging code.utf8ByteSize])
      ∧ (∀ k content, (Node.string k content).notices = k.formatNotice?.toList
        ++ (if k.Overlooked then none else k.encodingNotice?).toList ++ k.mediaTypeNotice?.toList)
      ∧ ∀ event : Event, event.level = .trace ↔ ∃ notice, event = .ignored notice := by
  have hlog := log_generate text o
  rw [log_compileText] at hlog
  refine ⟨fun e he => ?_, fun node hnode => ?_, fun k _ => k.notices_eq,
    fun _ => Event.level_eq_trace_iff⟩
  · rw [he, value_generate_of_parse_error he] at hlog
    exact hlog
  · rw [hnode] at hlog
    exact ⟨node.strings_inCodeOrder, value_generate_of_parse hnode o, hlog⟩

/-- A text that holds a list of texts as JSON. -/
def nestedText : String :=
  "\x7b\"type\":\"string\",\"format\":\"key\",\"contentMediaType\":\"a/json\",\"contentSchema\":"
    ++ "\x7b\"type\":\"array\",\"items\":\x7b\"type\":\"string\",\"contentEncoding\":\"zip\","
    ++ "\"contentSchema\":\x7b\"type\":\"string\",\"format\":\"line\"\x7d\x7d\x7d\x7d"

/-- The content of the texts in the list is not JSON, and is left alone. The name is looked at after
everything else. -/
theorem log_generate_in_order_nested : (generate "[" ⟨.esm, some "class"⟩).log = []
    ∧ (generate nestedText ⟨.esm, some "class"⟩).value = .error (.invalidName "class")
    ∧ ∃ node, Node.parse nestedText = .ok node ∧ InCodeOrder node node.strings
      ∧ node.strings.flatMap (fun p => p.node.notices)
        = [.unknownFormat "key", .unknownEncoding "zip"] := by
  have hfault : (generate "[" ⟨.esm, some "class"⟩).log = [] := by
    have hnone : (Node.parse "[").toOption.isSome = false := by decide +kernel
    cases hparse : Node.parse "[" with
    | error e => exact (log_generate_in_order "[" ⟨.esm, some "class"⟩).1 e hparse
    | ok node =>
      rw [hparse] at hnone
      cases hnone
  have hevents : (generate nestedText ⟨.esm, some "class"⟩).log
      = [.unknownFormat "key", .unknownEncoding "zip"].map .ignored ++ [.compiled .string 2] := by
    decide +kernel
  obtain ⟨hempty, hall, -⟩ := log_generate_in_order nestedText ⟨.esm, some "class"⟩
  cases hparse : Node.parse nestedText with
  | error e =>
    rw [hempty e hparse] at hevents
    cases hevents
  | ok node =>
    obtain ⟨horder, hvalue, hlog⟩ := hall node hparse
    have hname : (generate nestedText ⟨.esm, some "class"⟩).value
        = .error (.invalidName "class") := by
      rw [hvalue]
      exact Options.wrap_eq_error_iff.2 ⟨"class", rfl, rfl, by decide +kernel⟩
    rw [hevents, hname, List.append_nil] at hlog
    have hnotices := (List.append_inj' hlog rfl).1
    rw [← List.map_flatMap] at hnotices
    have hinjective : Function.Injective Event.ignored := fun _ _ h => Event.ignored.inj h
    exact ⟨hfault, hname, node, rfl, horder, (hinjective.list_map hnotices).symm⟩

end ValidatorGen
