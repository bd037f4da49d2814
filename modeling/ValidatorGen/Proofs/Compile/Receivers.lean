import ValidatorGen.Proofs.Compile.Equivalence
import ValidatorGen.Proofs.Compile.Parts
import ValidatorGen.Proofs.Reading.Result
import ValidatorGen.Reading.Node

/-! What calls are made on. Main statement: checks for formats come before the string is converted,
but patterns and lengths come after it, so that the code of a string with JSON content calls a check
that its receiver does not have exactly if one of these is there. -/
namespace ValidatorGen

def formatChecks : List String :=
  ["datetime", "email", "ip", "url", "uuid", "time", "date", "duration", "base64"]

def contentChecks : List String := ["regex", "min", "max"]

def stringChecks : List String := formatChecks ++ contentChecks

/-- Calls that make something else out of a string. -/
def conversions : List String := ["transform", "pipe"]

/-- None of the checks comes anywhere after a conversion. -/
def ChecksFirst (checks names : List String) : Prop :=
  names.Pairwise fun first later => first ∈ conversions → later ∉ checks

instance (checks names : List String) : Decidable (ChecksFirst checks names) :=
  inferInstanceAs (Decidable (List.Pairwise _ _))

theorem checksFirst_of_no_conversion {checks names : List String}
    (h : ∀ name ∈ names, name ∉ conversions) : ChecksFirst checks names :=
  List.pairwise_of_forall_mem_list fun first hfirst _ _ hconversion =>
    absurd hconversion (h first hfirst)

theorem checksFirst_of_no_check {checks names : List String} (h : ∀ name ∈ names, name ∉ checks) :
    ChecksFirst checks names :=
  List.pairwise_of_forall_mem_list fun _ _ later hlater _ => h later hlater

theorem checksFirst_append {checks names names' : List String} :
    ChecksFirst checks (names ++ names') ↔ ChecksFirst checks names ∧ ChecksFirst checks names'
      ∧ ∀ first ∈ names, ∀ later ∈ names', first ∈ conversions → later ∉ checks :=
  List.pairwise_append

/-- The names of the calls that convert a string, if it has JSON content, perhaps with a schema. -/
def conversionNames (json nested : Bool) : List String :=
  if json then "transform" :: (if nested then ["pipe"] else []) else []

theorem conversionNames_eq_nil {json nested : Bool} :
    conversionNames json nested = [] ↔ json = false := by
  cases json <;> cases nested <;> decide

theorem mem_conversions_of_mem {json nested : Bool} {name : String}
    (h : name ∈ conversionNames json nested) : name ∈ conversions := by
  have all : ∀ json nested, ∀ name ∈ conversionNames json nested, name ∈ conversions := by decide
  exact all json nested name h

namespace StringKeywords

def hasContentCheck (k : StringKeywords) : Bool :=
  k.pattern.isSome || k.minLength.isSome || k.maxLength.isSome

def formatNames (k : StringKeywords) : List String := k.formatSlot.call?.toList.map Call.name

def contentNames (k : StringKeywords) : List String :=
  (filled [k.patternCall?, k.minLengthCall?, k.maxLengthCall?]).map Call.name

theorem mem_formatNames {k : StringKeywords} {name : String} (h : name ∈ k.formatNames) :
    name ∈ formatChecks := by
  obtain ⟨call, hcall, rfl⟩ := List.mem_map.1 h
  exact k.formatSlot.named_call? call (Option.mem_toList.1 hcall)

theorem mem_contentNames {k : StringKeywords} {name : String} (h : name ∈ k.contentNames) :
    name ∈ contentChecks := by
  obtain ⟨call, hcall, rfl⟩ := List.mem_map.1 h
  have hpattern : Named ["regex"] k.patternCall? := named_map (by simp [Call.unary]) _
  have hmin : Named ["min"] k.minLengthCall? := named_map (by simp [Call.unary]) _
  have hmax : Named ["max"] k.maxLengthCall? := named_map (by simp [Call.unary]) _
  exact name_mem_of_mem_filled (.cons hpattern (.cons hmin (.cons hmax .nil))) hcall

theorem contentNames_eq_nil {k : StringKeywords} :
    k.contentNames = [] ↔ k.hasContentCheck = false := by
  cases hpattern : k.pattern <;> cases hmin : k.minLength <;> cases hmax : k.maxLength <;>
    simp [contentNames, hasContentCheck, patternCall?, minLengthCall?, maxLengthCall?, hpattern,
      hmin, hmax]

theorem names_slots (k : StringKeywords) (content : Option Expression) :
    (filled (k.slots content)).map Call.name
      = k.formatNames ++ (conversionNames k.hasJsonContent content.isSome ++ k.contentNames) := by
  cases hjson : k.hasJsonContent <;> cases content <;>
    simp [slots, formatNames, contentNames, conversionNames, transformCall?, pipeCall?, hjson,
      Call.unary]

end StringKeywords

/-- Whether a check is called that only a string has, on what a string was converted to. -/
def Node.checksLate : Node → Bool
  | .string k _ => k.hasJsonContent && k.hasContentCheck
  | _ => false

section Names

variable {formats contents tail : List String} {json nested : Bool}
  (hformats : ∀ name ∈ formats, name ∈ formatChecks)
  (hcontents : ∀ name ∈ contents, name ∈ contentChecks)
  (htail : ∀ name ∈ tail, name = "optional")

theorem not_mem_conversions {name : String} (h : name ∈ stringChecks) : name ∉ conversions := by
  have all : ∀ name ∈ stringChecks, name ∉ conversions := by decide
  exact all name h

theorem mem_stringChecks_of_format {name : String} (h : name ∈ formatChecks) :
    name ∈ stringChecks := List.mem_append_left _ h

theorem mem_stringChecks_of_content {name : String} (h : name ∈ contentChecks) :
    name ∈ stringChecks := List.mem_append_right _ h

include hformats hcontents htail

theorem checksFirst_formatChecks :
    ChecksFirst formatChecks (formats ++ (conversionNames json nested ++ (contents ++ tail))) := by
  have hlater : ∀ name ∈ conversionNames json nested ++ (contents ++ tail),
      name ∉ formatChecks := by
    have hconversion : ∀ name ∈ conversions, name ∉ formatChecks := by decide
    have hcontent : ∀ name ∈ contentChecks, name ∉ formatChecks := by decide
    have hoptional : "optional" ∉ formatChecks := by decide
    simp only [List.mem_append]
    rintro name (h | h | h)
    · exact hconversion name (mem_conversions_of_mem h)
    · exact hcontent name (hcontents name h)
    · exact htail name h ▸ hoptional
  have hfirst : ∀ name ∈ formats, name ∉ conversions := fun name h =>
    not_mem_conversions (mem_stringChecks_of_format (hformats name h))
  exact checksFirst_append.2 ⟨checksFirst_of_no_conversion hfirst, checksFirst_of_no_check hlater,
    fun first h _ _ hconversion => absurd hconversion (hfirst first h)⟩

theorem checksFirst_stringChecks_iff :
    ChecksFirst stringChecks (formats ++ (conversionNames json nested ++ (contents ++ tail)))
      ↔ json = false ∨ contents = [] := by
  have hfirst : ∀ name ∈ formats, name ∉ conversions := fun name h =>
    not_mem_conversions (mem_stringChecks_of_format (hformats name h))
  have hoptional : "optional" ∉ conversions ∧ "optional" ∉ stringChecks := by decide
  have hafter : ∀ name ∈ contents ++ tail, name ∉ conversions := by
    simp only [List.mem_append]
    rintro name (h | h)
    · exact not_mem_conversions (mem_stringChecks_of_content (hcontents name h))
    · exact htail name h ▸ hoptional.1
  constructor
  · intro h
    by_contra hboth
    obtain ⟨hjson, hne⟩ := not_or.1 hboth
    obtain ⟨check, hcheck⟩ := List.exists_mem_of_ne_nil _ hne
    have hconverted : conversionNames json nested ≠ [] := mt conversionNames_eq_nil.1 hjson
    obtain ⟨conversion, hconversion⟩ := List.exists_mem_of_ne_nil _ hconverted
    obtain ⟨-, -, hlater⟩ := checksFirst_append.1 (checksFirst_append.1 h).2.1
    exact hlater conversion hconversion check (List.mem_append_left _ hcheck)
      (mem_conversions_of_mem hconversion) (mem_stringChecks_of_content (hcontents check hcheck))
  · rintro (hjson | rfl)
    · subst hjson
      refine checksFirst_of_no_conversion fun name hname => ?_
      rcases List.mem_append.1 hname with h | h
      · exact hfirst name h
      · exact hafter name h
    · have hconversion : ∀ name ∈ conversions, name ∉ stringChecks := by decide
      have hlater : ∀ name ∈ conversionNames json nested ++ ([] ++ tail), name ∉ stringChecks := by
        simp only [List.mem_append, List.not_mem_nil, false_or]
        rintro name (h | h)
        · exact hconversion name (mem_conversions_of_mem h)
        · exact htail name h ▸ hoptional.2
      exact checksFirst_append.2 ⟨checksFirst_of_no_conversion hfirst,
        checksFirst_of_no_check hlater,
        fun first h _ _ hconversion => absurd hconversion (hfirst first h)⟩

end Names

/-- A validator library: what its base calls give, and what its methods do, as far as they exist. -/
structure Library (V : Type) where
  base : String → V
  method : V → String → Option V
  effects : V
  pipeline : V

namespace Library

variable {V : Type} (lib : Library V)

/-- The checks of a string give strings, a conversion gives something without these checks, and the
other calls that compilation gives exist. -/
structure Documented : Prop where
  string : ∀ name ∈ stringChecks, lib.method (lib.base "string") name = some (lib.base "string")
  transform : lib.method (lib.base "string") "transform" = some lib.effects
  pipe : lib.method lib.effects "pipe" = some lib.pipeline
  effects : ∀ name ∈ stringChecks, lib.method lib.effects name = none
  pipeline : ∀ name ∈ stringChecks, lib.method lib.pipeline name = none
  number : ∀ name ∈ "int" :: boundNames,
    lib.method (lib.base "number") name = some (lib.base "number")
  array : ∀ name ∈ ["min", "max"], lib.method (lib.base "array") name = some (lib.base "array")
  optional : ∀ v, (lib.method v "optional").isSome

/-- Calls of methods one after the other, unless one does not exist. -/
def run (v : V) (names : List String) : Option V := names.foldlM lib.method v

/-- All calls of an expression exist on what they are called on. -/
def Loads (e : Expression) : Prop := (lib.run (lib.base e.base.name) e.chainNames).isSome

variable {lib}

theorem run_append (v : V) (names names' : List String) :
    lib.run v (names ++ names') = (lib.run v names).bind (lib.run · names') := List.foldlM_append

theorem run_of_stays {v : V} {names : List String}
    (h : ∀ name ∈ names, lib.method v name = some v) : lib.run v names = some v := by
  induction names with
  | nil => rfl
  | cons name names ih =>
    obtain ⟨hname, hnames⟩ := List.forall_mem_cons.1 h
    have hstep : lib.run v (name :: names) = (lib.method v name).bind (lib.run · names) := rfl
    rw [hstep, hname, Option.bind_some, ih hnames]

variable (h : lib.Documented)
include h

theorem Documented.isSome_run_optional (v : V) (mayBeMissing : Bool) :
    (lib.run v (if mayBeMissing then ["optional"] else [])).isSome := by
  cases mayBeMissing with
  | false => rfl
  | true =>
    obtain ⟨w, hw⟩ := Option.isSome_iff_exists.1 (h.optional v)
    have hstep : lib.run v ["optional"] = (lib.method v "optional").bind (lib.run · []) := rfl
    rw [if_pos rfl, hstep, hw]
    rfl

theorem Documented.exists_converted (nested : Bool) :
    ∃ v, lib.run (lib.base "string") (conversionNames true nested) = some v
      ∧ ∀ name ∈ stringChecks, lib.method v name = none := by
  have htransform (names : List String) : lib.run (lib.base "string") ("transform" :: names)
      = (lib.method (lib.base "string") "transform").bind (lib.run · names) := rfl
  cases nested with
  | false =>
    refine ⟨lib.effects, ?_, h.effects⟩
    rw [conversionNames, if_pos rfl, htransform, h.transform]
    rfl
  | true =>
    have hpipe : lib.run lib.effects ["pipe"]
        = (lib.method lib.effects "pipe").bind (lib.run · []) := rfl
    refine ⟨lib.pipeline, ?_, h.pipeline⟩
    rw [conversionNames, if_pos rfl, htransform, h.transform, Option.bind_some, if_pos rfl, hpipe,
      h.pipe]
    rfl

theorem Documented.isSome_run_string_iff {formats contents : List String} {json nested : Bool}
    (hformats : ∀ name ∈ formats, name ∈ formatChecks)
    (hcontents : ∀ name ∈ contents, name ∈ contentChecks) (mayBeMissing : Bool) :
    (lib.run (lib.base "string") (formats ++ (conversionNames json nested
        ++ (contents ++ if mayBeMissing then ["optional"] else [])))).isSome
      ↔ json = false ∨ contents = [] := by
  have hstays := run_of_stays fun name hname =>
    h.string name (mem_stringChecks_of_format (hformats name hname))
  rw [run_append, hstays, Option.bind_some, run_append]
  cases json with
  | false =>
    have hstring := run_of_stays fun name hname =>
      h.string name (mem_stringChecks_of_content (hcontents name hname))
    have hnone : conversionNames false nested = [] := rfl
    have hrun : lib.run (lib.base "string") [] = some (lib.base "string") := rfl
    rw [hnone, hrun, Option.bind_some, run_append, hstring, Option.bind_some]
    simp [h.isSome_run_optional]
  | true =>
    obtain ⟨v, hv, hlacks⟩ := h.exists_converted nested
    rw [hv, Option.bind_some]
    cases contents with
    | nil => simp [h.isSome_run_optional]
    | cons name rest =>
      have hname := hlacks name (mem_stringChecks_of_content (hcontents name (by simp)))
      have hstep (names : List String) : lib.run v (name :: names)
          = (lib.method v name).bind (lib.run · names) := rfl
      rw [List.cons_append, hstep, hname]
      simp

end Library

/-- An expression calls format checks first, and all checks of a string unless the part that it
comes from is a string that is converted before a check; only then a call does not exist. -/
structure LivePart.Receives {V : Type} (lib : Library V) (p : LivePart) (e : Expression) :
    Prop where
  formats : ChecksFirst formatChecks e.chainNames
  checks : ChecksFirst stringChecks e.chainNames ↔ ¬p.node.checksLate
  loads : lib.Loads e ↔ ¬p.node.checksLate

namespace LivePart

theorem chainNames_validator (p : LivePart) : p.validator.chainNames
    = p.node.validator.chainNames ++ if p.mayBeMissing then ["optional"] else [] := by
  obtain ⟨node, mayBeMissing⟩ := p
  cases mayBeMissing with
  | false => simp
  | true => simp [Call.plain]

theorem base_validator (p : LivePart) : p.validator.base = p.node.validator.base := by
  obtain ⟨node, mayBeMissing⟩ := p
  cases mayBeMissing <;> rfl

theorem receives_of_stays {V : Type} {lib : Library V} (h : lib.Documented) {p : LivePart}
    (hlate : p.node.checksLate = false)
    (hstays : ∀ name ∈ p.node.validator.chainNames,
      lib.method (lib.base p.node.validator.base.name) name
        = some (lib.base p.node.validator.base.name))
    (hnames : ∀ name ∈ p.node.validator.chainNames, name ∉ conversions) :
    p.Receives lib p.validator := by
  have hall : ∀ name ∈ p.validator.chainNames, name ∉ conversions := by
    have hoptional : "optional" ∉ conversions := by decide
    rw [chainNames_validator]
    intro name hname
    rcases List.mem_append.1 hname with hchain | htail
    · exact hnames name hchain
    · split at htail
      · exact List.mem_singleton.1 htail ▸ hoptional
      · cases htail
  have hloads : lib.Loads p.validator := by
    rw [Library.Loads, base_validator, chainNames_validator, Library.run_append,
      Library.run_of_stays hstays, Option.bind_some]
    exact h.isSome_run_optional _ _
  have hfirst (checks : List String) : ChecksFirst checks p.validator.chainNames :=
    checksFirst_of_no_conversion hall
  exact ⟨hfirst _, by simp [hfirst, hlate], by simp [hloads, hlate]⟩

theorem receives_string {V : Type} {lib : Library V} (h : lib.Documented) (k : StringKeywords)
    (content : Option Node) (mayBeMissing : Bool) :
    Receives lib ⟨.string k content, mayBeMissing⟩
      (validator ⟨.string k content, mayBeMissing⟩) := by
  have hformats : ∀ name ∈ k.formatNames, name ∈ formatChecks := fun _ => k.mem_formatNames
  have hcontents : ∀ name ∈ k.contentNames, name ∈ contentChecks := fun _ => k.mem_contentNames
  have htail : ∀ name ∈ if mayBeMissing then ["optional"] else [], name = "optional" := by
    cases mayBeMissing <;> simp
  have hnames : (validator ⟨.string k content, mayBeMissing⟩).chainNames = k.formatNames
      ++ (conversionNames k.hasJsonContent (content.map Node.validator).isSome
        ++ (k.contentNames ++ if mayBeMissing then ["optional"] else [])) := by
    rw [chainNames_validator, Node.validator_string, Expression.chainNames, k.names_slots]
    simp
  have hbase : (validator ⟨.string k content, mayBeMissing⟩).base = .plain "string" := by
    rw [base_validator, Node.validator_string]
  have hlate : ¬(Node.string k content).checksLate
      ↔ k.hasJsonContent = false ∨ k.contentNames = [] := by
    rw [k.contentNames_eq_nil, Node.checksLate, Bool.and_eq_true]
    cases k.hasJsonContent <;> cases k.hasContentCheck <;> simp
  refine ⟨?_, ?_, ?_⟩
  · rw [hnames]
    exact checksFirst_formatChecks hformats hcontents htail
  · rw [hnames, hlate]
    exact checksFirst_stringChecks_iff hformats hcontents htail
  · rw [Library.Loads, hnames, hbase, hlate]
    exact h.isSome_run_string_iff hformats hcontents mayBeMissing

theorem receives {V : Type} {lib : Library V} (h : lib.Documented) (p : LivePart) :
    p.Receives lib p.validator := by
  have hbounds : ∀ name ∈ "int" :: boundNames, name ∉ conversions := by decide
  have hsizes : ∀ name ∈ ["min", "max"], name ∉ conversions := by decide
  have hslots (b : Bounds) :
      ∀ name ∈ (filled b.slots).map Call.name, name ∈ "int" :: boundNames := by
    intro name hname
    obtain ⟨call, hcall, rfl⟩ := List.mem_map.1 hname
    have all : ∀ name ∈ Bounds.slotNames.flatten, name ∈ "int" :: boundNames := by decide
    exact all _ (name_mem_of_mem_filled b.named_slots hcall)
  obtain ⟨node, mayBeMissing⟩ := p
  -- Only strings are converted; what is called on anything else stays with its receiver.
  cases node with
  | string k content => exact receives_string h k content mayBeMissing
  | integer b =>
    have hchain : ∀ name ∈ (Node.integer b).validator.chainNames, name ∈ "int" :: boundNames := by
      rw [Node.validator_integer]
      exact List.forall_mem_cons.2 ⟨List.mem_cons_self, hslots b⟩
    refine receives_of_stays h rfl (fun name hname => ?_)
      fun name hname => hbounds name (hchain name hname)
    rw [Node.validator_integer]
    exact h.number name (hchain name hname)
  | number b =>
    have hchain : ∀ name ∈ (Node.number b).validator.chainNames, name ∈ "int" :: boundNames := by
      rw [Node.validator_number]
      exact hslots b
    refine receives_of_stays h rfl (fun name hname => ?_)
      fun name hname => hbounds name (hchain name hname)
    rw [Node.validator_number]
    exact h.number name (hchain name hname)
  | array size items =>
    have hchain : ∀ name ∈ (Node.array size items).validator.chainNames, name ∈ ["min", "max"] := by
      rw [Node.validator_array]
      intro name hname
      obtain ⟨call, hcall, rfl⟩ := List.mem_map.1 hname
      exact name_mem_of_mem_filled size.named_slots hcall
    refine receives_of_stays h rfl (fun name hname => ?_)
      fun name hname => hsizes name (hchain name hname)
    rw [Node.validator_array]
    exact h.array name (hchain name hname)
  | object properties required =>
    have hnone : (Node.object properties required).validator.chainNames = [] := by
      rw [Node.validator_object]
      rfl
    exact receives_of_stays h rfl (by simp [hnone]) (by simp [hnone])
  | boolean | null | any => exact receives_of_stays h rfl nofun nofun

end LivePart

/-- Throughout a validator, checks of formats are called on strings, and so are all checks unless a
string with JSON content has a pattern or a length as well. The code loads exactly if no part of the
schema is such a string. -/
theorem Node.receivers {V : Type} {lib : Library V} (h : lib.Documented) (node : Node) :
    List.Forall₂ (LivePart.Receives lib) node.liveParts node.validator.parts
      ∧ ((∀ e ∈ node.validator.parts, lib.Loads e) ↔ ∀ p ∈ node.liveParts, ¬p.node.checksLate) := by
  refine ⟨node.forall₂_parts (LivePart.receives h), ?_⟩
  rw [node.parts_validator, List.forall_mem_map]
  exact forall₂_congr fun p _ => (p.receives h).loads

/-- What the calls of the library give, as far as these matter here. -/
inductive Receiver where
  | string
  | number
  | array
  | other
  | effects
  | pipeline
  | optional
deriving DecidableEq

namespace Receiver

def ofBase (name : String) : Receiver :=
  if name = "string" then .string
  else if name = "number" then .number
  else if name = "array" then .array
  else .other

def checks : Receiver → List String
  | .string => stringChecks
  | .number => "int" :: boundNames
  | .array => ["min", "max"]
  | .other | .effects | .pipeline | .optional => []

def method (r : Receiver) (name : String) : Option Receiver :=
  if name = "optional" then some .optional
  else if name = "transform" then some .effects
  else if name = "pipe" then some .pipeline
  else if name ∈ r.checks then some r
  else none

def library : Library Receiver := ⟨ofBase, method, .effects, .pipeline⟩

theorem documented_library : library.Documented :=
  ⟨by decide, by decide, by decide, by decide, by decide, by decide, by decide,
    fun v => by cases v <;> rfl⟩

end Receiver

/-- JSON content alone loads, but not with a length. -/
theorem Node.receivers_json :
    (∀ e ∈ (array {} (some (.string { contentMediaType := "application/json" } none))).validator.parts,
      Receiver.library.Loads e)
    ∧ ¬∀ e ∈ (array {} (some (.string
        { contentMediaType := "application/json", minLength := some 1 } none))).validator.parts,
      Receiver.library.Loads e := by
  constructor
  · have hparts : (array {} (some (.string { contentMediaType := "application/json" } none))).liveParts
        = [⟨.array {} (some (.string { contentMediaType := "application/json" } none)), false⟩,
          ⟨.string { contentMediaType := "application/json" } none, false⟩] := rfl
    refine (receivers Receiver.documented_library _).2.2 ?_
    simp [hparts, checksLate, StringKeywords.hasContentCheck]
  · intro hall
    have hnone := (receivers Receiver.documented_library _).2.1 hall
      ⟨.string { contentMediaType := "application/json", minLength := some 1 } none, false⟩
      (List.mem_cons_of_mem _ List.mem_cons_self)
    exact hnone (by decide +kernel)

/-- A length is called on what a string with JSON content is converted to. -/
theorem Node.not_checksFirst_json : ∃ node e,
    parse "\x7b\"type\":\"string\",\"contentMediaType\":\"application/json\",\"minLength\":1\x7d"
        = .ok node
      ∧ e ∈ node.validator.parts ∧ e.chainNames = ["transform", "min"]
      ∧ ¬ChecksFirst stringChecks e.chainNames := by
  let text := "\x7b\"type\":\"string\",\"contentMediaType\":\"application/json\",\"minLength\":1\x7d"
  have hnames : (parse text).toOption.map (fun node => node.validator.chainNames)
      = some ["transform", "min"] := by decide +kernel
  obtain ⟨node, hnode, hchain⟩ := Option.map_eq_some_iff.1 hnames
  refine ⟨node, node.validator, toOption_eq_some_iff.1 hnode, ?_, hchain, ?_⟩
  · rw [Expression.parts_eq]
    exact List.mem_cons_self
  · rw [hchain]
    decide

end ValidatorGen
