import ValidatorGen.Proofs.Compile.Equivalence
import ValidatorGen.Proofs.Expression.Induction
import ValidatorGen.Proofs.Reading.Around
import ValidatorGen.Proofs.Schema.Weight

/-! How deep the calls of compilation and rendering are inside each other. Main statement: for every
text there is a bound for both that does not depend on the text. -/
namespace ValidatorGen

variable {ε : Type}

/-- A function that may give up does not do so from this depth on. -/
def ReadyAt {α : Type} (limited : Nat → Option α) (depth : Nat) (result : α) : Prop :=
  ∀ more, depth ≤ more → limited more = some result

theorem ReadyAt.mono {α : Type} {limited : Nat → Option α} {depth more : Nat} {result : α}
    (h : ReadyAt limited depth result) (hle : depth ≤ more) : ReadyAt limited more result :=
  fun most hmost => h most (le_trans hle hmost)

theorem readyAt_succ {α : Type} {limited : Nat → Option α} {depth : Nat} {result : α}
    (h : ∀ inner, depth ≤ inner → limited (inner + 1) = some result) :
    ReadyAt limited (depth + 1) result := by
  intro more hmore
  obtain ⟨inner, rfl⟩ := Nat.exists_eq_add_one_of_ne_zero (Nat.ne_zero_of_lt hmore)
  exact h inner (Nat.le_of_succ_le_succ hmore)

theorem mapM_eq_some {α β : Type} {f : α → Option β} {g : α → β} {items : List α}
    (h : ∀ a ∈ items, f a = some (g a)) : items.mapM f = some (items.map g) := by
  induction items with
  | nil => rfl
  | cons a items ih =>
    obtain ⟨ha, hitems⟩ := List.forall_mem_cons.1 h
    simp [ha, ih hitems]

def entriesWith (nested : Node → Option (Traced ε Expression)) (required : List String) :
    List (String × Node) → Option (Traced ε (List (String × Arg)))
  | [] => some (pure [])
  | (name, node) :: rest => do
    let compiled ← nested node
    let others ← entriesWith nested required rest
    some do
      let e ← compiled
      let entries ← others
      return (name, .expression (propertyValidator required name e)) :: entries

/-- Compilation that gives up when its calls for nodes are too deep inside each other. -/
def Node.compileWithin (note : Notice → ε) : Node → Nat → Option (Traced ε Expression)
  | _, 0 => none
  | .string keywords (some content), depth + 1 =>
    if keywords.hasJsonContent then
      (fun compiled => keywords.compile note (some compiled)) <$> content.compileWithin note depth
    else some (keywords.compile note none)
  | .array size (some items), depth + 1 =>
    (fun compiled => do return ⟨.unary "array" (.expression (← compiled)) none, size.calls⟩)
      <$> items.compileWithin note depth
  | .object properties required, depth + 1 =>
    (fun entries => do return .ofBase (.unary "object" (.shape (← entries)) none))
      <$> entriesWith (fun node => node.compileWithin note depth) required properties
  | node, _ + 1 => some (node.compile note)

theorem StringKeywords.compile_of_not_json {k : StringKeywords} (h : ¬k.hasJsonContent)
    (note : Notice → ε) (content : Option (Traced ε Expression)) :
    k.compile note content = k.compile note none := by
  have hpipe (content : Option (Traced ε Expression)) : k.pipeRule content = pure none := by
    simp [pipeRule, h]
  simp only [compile, rules, hpipe]

namespace Node

variable (note : Notice → ε)

mutual

/-- Compilation needs no more depth than the weight of a schema. -/
theorem readyAt_compileWithin : (node : Node) →
    ReadyAt (node.compileWithin note) node.weight (node.compile note)
  | .string k none => by
    rw [weight, Nat.add_comm]
    exact readyAt_succ fun inner _ => rfl
  | .string k (some content) => by
    have hcontent := readyAt_compileWithin content
    rw [weight, Nat.add_comm]
    refine readyAt_succ fun inner hinner => ?_
    rw [compileWithin, compile, compileNested]
    split
    · rw [hcontent inner hinner, Option.map_eq_map, Option.map_some]
    · next hjson => rw [k.compile_of_not_json hjson note (some (content.compile note))]
  | .array size none => by
    rw [weight, Nat.add_comm]
    exact readyAt_succ fun inner _ => rfl
  | .array size (some items) => by
    have hitems := readyAt_compileWithin items
    rw [weight, Nat.add_comm]
    refine readyAt_succ fun inner hinner => ?_
    rw [compileWithin, compile, compileNested, hitems inner hinner, Option.map_eq_map,
      Option.map_some, Option.getD_some]
  | .object properties required => by
    have hentries := entriesWith_eq required properties
    rw [weight, Nat.add_comm]
    refine readyAt_succ fun inner hinner => ?_
    rw [compileWithin, compile, hentries inner hinner, Option.map_eq_map, Option.map_some]
  | .integer _ | .number _ | .boolean | .null | .any => by
    rw [weight]
    exact readyAt_succ fun inner _ => rfl

theorem entriesWith_eq (required : List String) : (properties : List (String × Node)) →
    ∀ depth, weightProperties properties ≤ depth →
    entriesWith (fun node => node.compileWithin note depth) required properties
      = some (compileProperties note required properties)
  | [] => fun _ _ => rfl
  | (name, node) :: rest => by
    intro depth hdepth
    rw [weightProperties] at hdepth
    have hnode := readyAt_compileWithin node depth (by omega)
    have hrest := entriesWith_eq required rest depth (by omega)
    rw [entriesWith, compileProperties, hnode, hrest]
    rfl

end

end Node

mutual

/-- Rendering that gives up when its calls are too deep inside each other. -/
def Arg.charsWithin : Arg → Nat → Option (List Char)
  | _, 0 => none
  | .options entries, depth + 1 =>
    objectLiteral <$> entries.mapM fun entry =>
      (entry.1.toList ++ ':' :: ' ' :: ·) <$> entry.2.charsWithin depth
  | .shape entries, depth + 1 =>
    objectLiteral <$> entries.mapM fun entry =>
      (Text.quoteChars entry.1.toList ++ ':' :: ' ' :: ·) <$> entry.2.charsWithin depth
  | .expression e, depth + 1 => e.charsWithin depth
  | arg, _ + 1 => some arg.chars

def Call.charsWithin : Call → Nat → Option (List Char)
  | _, 0 => none
  | ⟨name, args, message⟩, depth + 1 =>
    (fun texts => name.toList ++ '(' :: commaJoin
      (texts ++ message.toList.map fun m => Text.quoteChars m.toList) ++ [')'])
      <$> args.mapM fun arg => arg.charsWithin depth

def Expression.charsWithin : Expression → Nat → Option (List Char)
  | _, 0 => none
  | ⟨base, chain⟩, depth + 1 => do
    let first ← base.charsWithin depth
    let others ← chain.mapM fun call => call.charsWithin depth
    some (libraryName ++ '.' :: first ++ others.flatMap ('.' :: ·))

end

/-- The code of an argument, a call or an expression is ready. -/
def Arg.ReadyAt (arg : Arg) (depth : Nat) : Prop :=
  ValidatorGen.ReadyAt arg.charsWithin depth arg.chars

def Call.ReadyAt (call : Call) (depth : Nat) : Prop :=
  ValidatorGen.ReadyAt call.charsWithin depth call.chars

def Expression.ReadyAt (e : Expression) (depth : Nat) : Prop :=
  ValidatorGen.ReadyAt e.charsWithin depth e.chars

section Render

variable {depth : Nat}

theorem mapM_entries {entries : List (String × Arg)} (front : String → List Char)
    (h : ∀ entry ∈ entries, entry.2.ReadyAt depth) {inner : Nat} (hinner : depth ≤ inner) :
    (entries.mapM fun entry => (front entry.1 ++ ':' :: ' ' :: ·) <$> entry.2.charsWithin inner)
      = some (entries.map fun entry => front entry.1 ++ ':' :: ' ' :: entry.2.chars) :=
  mapM_eq_some fun entry hentry => by
    rw [h entry hentry inner hinner]
    rfl

theorem Arg.readyAt_options {entries : List (String × Arg)}
    (h : ∀ entry ∈ entries, entry.2.ReadyAt depth) : (Arg.options entries).ReadyAt (depth + 1) := by
  refine readyAt_succ fun inner hinner => ?_
  rw [charsWithin, chars, mapM_entries String.toList h hinner, optionTexts_eq_map]
  rfl

theorem Arg.readyAt_shape {entries : List (String × Arg)}
    (h : ∀ entry ∈ entries, entry.2.ReadyAt depth) : (Arg.shape entries).ReadyAt (depth + 1) := by
  refine readyAt_succ fun inner hinner => ?_
  rw [charsWithin, chars, mapM_entries (Text.quoteChars ·.toList) h hinner, shapeTexts_eq_map]
  rfl

theorem Arg.readyAt_expression {e : Expression} (h : e.ReadyAt depth) :
    (Arg.expression e).ReadyAt (depth + 1) :=
  readyAt_succ fun inner hinner => by rw [charsWithin, chars, h inner hinner]

theorem Call.readyAt {call : Call} (h : ∀ arg ∈ call.args, arg.ReadyAt depth) :
    call.ReadyAt (depth + 1) := by
  obtain ⟨name, args, message⟩ := call
  refine readyAt_succ fun inner hinner => ?_
  rw [charsWithin, chars, mapM_eq_some fun arg harg => h arg harg inner hinner, argTexts_eq_map]
  rfl

def Expression.CallsReadyAt (e : Expression) (depth : Nat) : Prop :=
  e.base.ReadyAt depth ∧ ∀ call ∈ e.chain, call.ReadyAt depth

theorem Expression.CallsReadyAt.readyAt {e : Expression} (h : e.CallsReadyAt depth) :
    e.ReadyAt (depth + 1) := by
  obtain ⟨base, chain⟩ := e
  refine readyAt_succ fun inner hinner => ?_
  rw [charsWithin, chars, h.1 inner hinner,
    mapM_eq_some fun call hcall => h.2 call hcall inner hinner, chainChars_eq_flatMap]
  rfl

theorem Call.readyAt_plain (name : String) : (plain name).ReadyAt 1 :=
  Call.readyAt (by simp [plain])

theorem Call.readyAt_unary {name : String} {arg : Arg} {message : Option String}
    (h : arg.ReadyAt depth) : (unary name arg message).ReadyAt (depth + 1) :=
  Call.readyAt (by simpa [unary] using h)

theorem Expression.CallsReadyAt.propertyValidator {e : Expression} (h : e.CallsReadyAt depth)
    (hdepth : 1 ≤ depth) (required : List String) (name : String) :
    (propertyValidator required name e).CallsReadyAt depth := by
  unfold ValidatorGen.propertyValidator
  split
  · exact h
  · have hoptional := (Call.readyAt_plain "optional").mono hdepth
    exact ⟨h.1, by simpa [push, or_imp, forall_and] using ⟨h.2, hoptional⟩⟩

end Render

theorem Arg.readyAt_text (s : String) : (Arg.text s).ReadyAt 1 := readyAt_succ fun _ _ => rfl

theorem Arg.readyAt_count (n : UInt64) : (Arg.count n).ReadyAt 1 := readyAt_succ fun _ _ => rfl

theorem Arg.readyAt_number (x : Binary64) : (Arg.number x).ReadyAt 1 := readyAt_succ fun _ _ => rfl

theorem Arg.readyAt_flag (b : Bool) : (Arg.flag b).ReadyAt 1 := readyAt_succ fun _ _ => rfl

theorem Arg.readyAt_code (s : String) : (Arg.code s).ReadyAt 1 := readyAt_succ fun _ _ => rfl

theorem Arg.readyAt_optionsWith {name : String} {arg : Arg} (h : arg.ReadyAt 1)
    (message : Option String) : (Arg.optionsWith [(name, arg)] message).ReadyAt 2 := by
  refine readyAt_options ?_
  cases message with
  | none => simpa using h
  | some m => simpa using ⟨h, readyAt_text m⟩

theorem Call.Made.readyAt {N : Binary64 → Prop} {call : Call} {depth : Nat}
    (h : call.Made N fun e => e.ReadyAt depth) (hname : call.name ≠ "object")
    (hdepth : 1 ≤ depth) : call.ReadyAt (depth + 2) := by
  cases h with
  | bare _ message => exact Call.readyAt (by simp)
  | count _ n message => exact Call.readyAt_unary ((Arg.readyAt_count n).mono (by omega))
  | @number _ _ x _ message => exact Call.readyAt_unary ((Arg.readyAt_number x).mono (by omega))
  | @options _ entries hfit =>
    have hoptions : (Arg.options entries).ReadyAt 2 := by
      obtain ⟨message, ⟨-, heq⟩ | ⟨version, -, heq⟩⟩ := hfit
      · rw [heq]
        exact Arg.readyAt_optionsWith (Arg.readyAt_flag true) message
      · rw [heq]
        exact Arg.readyAt_optionsWith (Arg.readyAt_text version) message
    exact Call.readyAt_unary (hoptions.mono (by omega))
  | parseJson message => exact Call.readyAt_unary ((Arg.readyAt_code _).mono (by omega))
  | regExp pattern message => exact Call.readyAt_unary ((Arg.readyAt_code _).mono (by omega))
  | nested _ he message => exact Call.readyAt_unary (Arg.readyAt_expression he)
  | shape => exact absurd rfl hname

theorem readyAt_filled {names : List (List String)} {slots : List (Option Call)} {depth : Nat}
    (hnamed : List.Forall₂ Named names slots) (hnames : "object" ∉ names.flatten)
    (h : ∀ call ∈ filled slots, call.Made (fun _ => True) fun e => e.ReadyAt depth)
    (hdepth : 1 ≤ depth) :
    ∀ call ∈ filled slots, call.ReadyAt (depth + 2) := by
  intro call hcall
  have hname : call.name ≠ "object" := fun heq =>
    hnames (heq ▸ name_mem_of_mem_filled hnamed hcall)
  exact (h call hcall).readyAt hname hdepth

theorem Bounds.readyAt_slots (b : Bounds) : ∀ call ∈ filled b.slots, call.ReadyAt 3 :=
  readyAt_filled b.named_slots (by decide)
    (Bounds.made_slots fun _ _ _ _ => trivial) le_rfl

theorem ListSize.readyAt_slots (s : ListSize) : ∀ call ∈ filled s.slots, call.ReadyAt 3 :=
  readyAt_filled s.named_slots (by decide) s.made_slots le_rfl

namespace Node

mutual

/-- The code of a validator needs no more than three levels for each one of the schema. -/
theorem callsReadyAt_validator : (node : Node) →
    node.validator.CallsReadyAt (3 * node.weight + 1)
  | .string k content => by
    have hslots := readyAt_filled (k.named_slots _) (by decide)
      (k.made_slots (readyAt_content content)) (by omega)
    rw [validator_string, weight]
    exact ⟨(Call.readyAt_plain _).mono (by omega),
      fun call hcall => (hslots call hcall).mono (by omega)⟩
  | .integer b => by
    rw [validator_integer, weight]
    exact ⟨(Call.readyAt_plain _).mono (by omega), List.forall_mem_cons.2
      ⟨(Call.readyAt_plain _).mono (by omega),
        fun call hcall => (b.readyAt_slots call hcall).mono (by omega)⟩⟩
  | .number b => by
    rw [validator_number, weight]
    exact ⟨(Call.readyAt_plain _).mono (by omega),
      fun call hcall => (b.readyAt_slots call hcall).mono (by omega)⟩
  | .boolean | .null | .any => ⟨(Call.readyAt_plain _).mono (by omega), nofun⟩
  | .array size items => by
    have harray : (Call.unary "array" (.expression (items.getD .any).validator) none).ReadyAt _ :=
      Call.readyAt_unary (Arg.readyAt_expression (readyAt_items items))
    rw [validator_array, weight]
    exact ⟨harray.mono (by omega),
      fun call hcall => (size.readyAt_slots call hcall).mono (by omega)⟩
  | .object properties required => by
    have hobject : (Call.unary "object" (.shape (shape required properties)) none).ReadyAt _ :=
      Call.readyAt_unary (Arg.readyAt_shape (readyAt_shape required properties))
    rw [validator_object, weight]
    exact ⟨hobject.mono (by omega), nofun⟩

theorem readyAt_content : (content : Option Node) →
    ∀ e ∈ content.map validator, e.ReadyAt (3 * weightNested content + 2)
  | none => nofun
  | some node => by
    rintro _ ⟨⟩
    exact (callsReadyAt_validator node).readyAt

theorem readyAt_items : (items : Option Node) →
    (items.getD .any).validator.ReadyAt (3 * weightNested items + 2)
  | none => Expression.CallsReadyAt.readyAt ⟨Call.readyAt_plain _, nofun⟩
  | some node => (callsReadyAt_validator node).readyAt

theorem readyAt_shape (required : List String) : (properties : List (String × Node)) →
    ∀ entry ∈ shape required properties, entry.2.ReadyAt (3 * weightProperties properties)
  | [] => nofun
  | (name, node) :: rest => by
    have hnode := (callsReadyAt_validator node).propertyValidator (by omega) required name
    have hrest := readyAt_shape required rest
    rw [shape, List.map_cons, weightProperties]
    refine List.forall_mem_cons.2 ⟨(Arg.readyAt_expression hnode.readyAt).mono (by omega), ?_⟩
    exact fun entry hentry => (hrest entry hentry).mono (by omega)

end

end Node

open Json

/-- What is done with a text goes no deeper than a fixed bound: a schema that is read has no more
levels than the reader, which bounds compilation and rendering, and a text whose schema would have
more levels is too deep, whatever it is made of. -/
theorem Node.bounded_of_parse (text : String) :
    (∀ node, parse text = .ok node → node.weight ≤ maxLevels
      ∧ (∀ {ε : Type} (note : Notice → ε),
        node.compileWithin note maxLevels = some (node.compile note))
      ∧ node.validator.charsWithin (3 * maxLevels + 2) = some node.validator.chars)
    ∧ ∀ blanks chars rest form levels node, IsBlanks blanks → Written form chars → ¬form.IsScalar →
      text.toList = blanks ++ (chars ++ rest) → ofForm levels form = .ok node →
      maxLevels < node.weight → ∃ e, parse text = .error e ∧ e.cause = .tooDeep := by
  refine ⟨fun node h => ?_, fun _ _ _ _ _ _ hblanks hwritten hscalar htext hform hweight =>
    tooDeep_of_lt_weight hblanks hwritten hscalar htext hform hweight⟩
  have hweight := weight_le_of_parse h
  -- Three levels for each one of the schema (expression, call, argument), and two for the items
  -- of an innermost array that does not say what they are.
  have hrender := (callsReadyAt_validator node).readyAt
  exact ⟨hweight, fun note => readyAt_compileWithin note node maxLevels hweight,
    hrender _ (by omega)⟩

namespace Site

def allLevels (sites : List Site) : Nat := (sites.map levels).sum

theorem weight_fill (sites : List Site) (node : Node) :
    (Context.fill (sites.map frame) node).weight = node.weight + allLevels sites := by
  induction sites with
  | nil => rfl
  | cons s sites ih =>
    have hstep (node : Node) : (s.frame.fill node).weight = node.weight + s.levels := by
      cases s <;> simp [frame, Frame.fill, levels, Node.weight, weightNested, weightProperties] <;>
        omega
    have hfill : Context.fill ((s :: sites).map frame) node
        = s.frame.fill (Context.fill (sites.map frame) node) := rfl
    rw [hfill, hstep, ih, allLevels, allLevels, List.map_cons, List.sum_cons]
    omega

theorem ofForm_braces (sites : List Site) :
    Node.ofForm (allLevels sites + 1) (wrapAll sites (.object []))
      = .ok (Context.fill (sites.map frame) .any) := by
  induction sites with
  | nil => rfl
  | cons s sites ih =>
    have hnull : s.TakesNull → wrapAll sites (.object []) ≠ .null := by
      cases sites with
      | nil => exact fun _ => nofun
      | cons other sites => cases other <;> exact fun _ => nofun
    have hlevels : allLevels (s :: sites) + 1 = allLevels sites + 1 + s.levels := by
      rw [allLevels, allLevels, List.map_cons, List.sum_cons]
      omega
    have hwrap : wrapAll (s :: sites) (.object []) = s.wrap (wrapAll sites (.object [])) := rfl
    rw [hlevels, hwrap, s.ofForm_wrap _ hnull, ih]
    rfl

theorem isTextOf_braces (sites : List Site) :
    IsTextOf (wrapAll sites (.object [])) (aroundAll sites "\x7b\x7d").toList := by
  have hclose : Written (.object []) "\x7b\x7d".toList := .object (.close isBlanks_nil)
  exact isTextOf_aroundAll sites hclose.isTextOf

theorem not_isScalar_wrapAll (sites : List Site) : ¬(wrapAll sites (.object [])).IsScalar := by
  cases sites with
  | nil => exact id
  | cons s sites => cases s <;> exact id

/-- No level is wasted: schemas around each other, in any order, are read as long as there is a
level for each one. -/
theorem parse_braces (sites : List Site) : if allLevels sites + 1 ≤ maxLevels then
      Node.parse (aroundAll sites "\x7b\x7d") = .ok (Context.fill (sites.map frame) .any)
    else ∃ e, Node.parse (aroundAll sites "\x7b\x7d") = .error e ∧ e.cause = .tooDeep := by
  obtain ⟨blanks, chars, after, hblanks, -, hwritten, htext⟩ := isTextOf_braces sites
  have hscalar := not_isScalar_wrapAll sites
  have hform := ofForm_braces sites
  split
  · next hle =>
    refine (Node.parse_eq_ok_iff_ofForm hblanks hwritten hscalar htext).2 ?_
    have hcut := Node.cutOff_ofForm hle (wrapAll sites (.object []))
    rw [hform] at hcut
    rcases hcut with hsame | ⟨path, hdeep⟩
    · exact hsame.symm
    · cases hdeep
  · next hlt =>
    have hweight : (Context.fill (sites.map frame) .any).weight = 1 + allLevels sites :=
      weight_fill sites .any
    exact Node.tooDeep_of_lt_weight hblanks hwritten hscalar htext hform (by omega)

end Site

/-- Objects inside each other use up all levels; one list around them is too much. -/
theorem Node.bounded_of_parse_properties :
    (∃ node, parse (Site.aroundAll (.replicate 63 (.property "a")) "\x7b\x7d") = .ok node
      ∧ node.weight = 127 ∧ node.compileWithin id 127 = some (node.compile id)
      ∧ node.validator.charsWithin 383 = some node.validator.chars)
    ∧ ∃ e, parse (Site.aroundAll (.items :: .replicate 63 (.property "a")) "\x7b\x7d") = .error e
      ∧ e.cause = .tooDeep := by
  have hall : Site.allLevels (.replicate 63 (.property "a")) = 126 := by decide
  have hmore : Site.allLevels (.items :: .replicate 63 (.property "a")) = 127 := by decide
  constructor
  · have hparse := Site.parse_braces (.replicate 63 (.property "a"))
    rw [hall, if_pos (by decide)] at hparse
    obtain ⟨-, hcompile, hrender⟩ := (bounded_of_parse _).1 _ hparse
    refine ⟨_, hparse, ?_, hcompile id, hrender⟩
    rw [Site.weight_fill, hall]
    rfl
  · obtain ⟨blanks, chars, after, hblanks, -, hwritten, htext⟩ :=
      Site.isTextOf_braces (.items :: .replicate 63 (.property "a"))
    refine (bounded_of_parse _).2 _ _ _ _ _ _ hblanks hwritten (Site.not_isScalar_wrapAll _) htext
      (Site.ofForm_braces _) ?_
    rw [Site.weight_fill, hmore]
    decide

end ValidatorGen
