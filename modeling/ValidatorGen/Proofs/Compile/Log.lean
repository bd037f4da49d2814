import ValidatorGen.Proofs.Compile.Parts

/-! What compilation logs. Main statement: the log consists of the notices of the strings that
count, in the order of the code, and a string has one notice for each value of a keyword that does
not show in its validator, except for an unknown encoding beside a format that has a check. -/
namespace ValidatorGen

def Notice.keyword : Notice → Keyword
  | .unknownFormat _ => .format
  | .encodingOverridden _ | .unknownEncoding _ => .contentEncoding
  | .otherMediaType _ => .contentMediaType

def noticesAbout (k : Keyword) (notices : List Notice) : List Notice :=
  notices.filter (·.keyword = k)

@[simp] theorem noticesAbout_append (k : Keyword) (notices notices' : List Notice) :
    noticesAbout k (notices ++ notices') = noticesAbout k notices ++ noticesAbout k notices' :=
  List.filter_append ..

theorem noticesAbout_toList {k : Keyword} {notice? : Option Notice}
    (h : ∀ notice ∈ notice?, notice.keyword = k) (k' : Keyword) :
    noticesAbout k' notice?.toList = if k = k' then notice?.toList else [] := by
  cases notice? with
  | none => simp [noticesAbout]
  | some notice => by_cases hk : k = k' <;> simp [noticesAbout, h notice rfl, hk]

namespace StringKeywords

/-- A known format with a check of its own. -/
def checkedFormat? (k : StringKeywords) : Option StringFormat :=
  k.knownFormat.filter (· ≠ .binary)

def formatNotice? (k : StringKeywords) : Option Notice :=
  if k.knownFormat = none then k.format.map .unknownFormat else none

/-- The notice of an encoding that does not show: it is not known, or the format has a check. -/
def encodingNotice? (k : StringKeywords) : Option Notice :=
  if k.knownEncoding = none then k.contentEncoding.map .unknownEncoding
  else k.checkedFormat?.map .encodingOverridden

def mediaTypeNotice? (k : StringKeywords) : Option Notice :=
  if k.hasJsonContent then none else k.contentMediaType.map .otherMediaType

/-- Nobody looks at an unknown encoding beside a format that has a check. -/
def Overlooked (k : StringKeywords) : Prop :=
  k.contentEncoding ≠ none ∧ k.knownEncoding = none ∧ k.checkedFormat? ≠ none

instance (k : StringKeywords) : Decidable k.Overlooked := inferInstanceAs (Decidable (_ ∧ _ ∧ _))

/-- What is logged for a string, apart from its content. -/
def notices (k : StringKeywords) : List Notice := (k.compile id none).log

theorem knownEncoding_eq_none_of_absent {k : StringKeywords} (h : k.contentEncoding = none) :
    k.knownEncoding = none := by rw [knownEncoding, h, Option.bind_none]

theorem eq_base64_of_knownEncoding {k : StringKeywords} (h : k.knownEncoding ≠ none) :
    k.knownEncoding = some .base64 := by
  cases henc : k.knownEncoding with
  | none => exact absurd henc h
  | some e => cases e; rfl

/-- There is no notice exactly if there is no encoding, or it shows as the check for base64 text. -/
theorem encodingNotice?_eq_none_iff (k : StringKeywords) : k.encodingNotice? = none
    ↔ k.contentEncoding = none ∨ k.knownEncoding = some .base64
      ∧ k.formatSlot.call? = some ⟨"base64", [], k.base64Message⟩ := by
  unfold encodingNotice?
  split
  · next hnone => simp [hnone]
  · next hknown =>
    have henc := eq_base64_of_knownEncoding hknown
    have hpresent : k.contentEncoding ≠ none := fun h => hknown (knownEncoding_eq_none_of_absent h)
    cases hf : k.knownFormat with
    | none => simp [checkedFormat?, formatSlot, FormatSlot.call?, hf, henc]
    | some f =>
      cases f <;> simp [checkedFormat?, formatSlot, FormatSlot.call?, StringFormat.call?,
        StringFormat.call?.ip, Call.unary, hf, henc, hpresent]

section Rules

variable {ε : Type} (note : Notice → ε) (k : StringKeywords)

theorem log_base64Rule : (k.base64Rule note).log
    = (if k.knownEncoding = none then k.contentEncoding.map .unknownEncoding else none).toList.map
      note := by
  unfold base64Rule
  by_cases hnone : k.knownEncoding = none
  · cases k.contentEncoding <;> simp [hnone] <;> split <;> rfl
  · have henc := eq_base64_of_knownEncoding hnone
    simp [henc]

theorem log_formatRule : (k.formatRule note).log = (k.formatNotice?.toList
    ++ (if k.Overlooked then none else k.encodingNotice?).toList).map note := by
  have hbase64 := k.log_base64Rule note
  unfold formatRule formatNotice? encodingNotice? Overlooked
  cases hf : k.knownFormat with
  | none =>
    cases hformat : k.format <;> simp [hbase64, hf, checkedFormat?]
  | some f =>
    by_cases hbinary : f = .binary
    · have hchecked : k.checkedFormat? = none := by simp [checkedFormat?, hf, hbinary]
      simp [hbase64, hchecked, hbinary, StringFormat.call?]
    · have hchecked : k.checkedFormat? = some f := by simp [checkedFormat?, hf, hbinary]
      have hcall : f.call? (k.messages.forKeyword .format) ≠ none := by
        cases f <;> simp_all [StringFormat.call?]
      obtain ⟨call, hcall⟩ := Option.ne_none_iff_exists'.1 hcall
      -- The check of the format is given back at once; only a known encoding is noticed before.
      by_cases hnone : k.knownEncoding = none
      · simp [hcall, hchecked, hnone]
      · have henc := eq_base64_of_knownEncoding hnone
        simp [hcall, hchecked, henc]

theorem log_transformRule : (k.transformRule note).log = k.mediaTypeNotice?.toList.map note := by
  unfold transformRule mediaTypeNotice?
  split
  · rfl
  · cases k.contentMediaType <;> rfl

theorem log_pipeRule (content : Option (Traced ε Expression)) : (k.pipeRule content).log
    = if k.hasJsonContent then (content.map Traced.log).getD [] else [] := by
  unfold pipeRule
  cases k.hasJsonContent <;> cases content <;> simp

theorem log_collect (rules : List (Traced ε (Option Call))) :
    (collect rules).log = rules.flatMap Traced.log := by
  induction rules with
  | nil => rfl
  | cons rule rest ih => simp [collect, ih]

theorem log_compile_eq (content : Option (Traced ε Expression)) : (k.compile note content).log
    = (k.formatNotice?.toList ++ (if k.Overlooked then none else k.encodingNotice?).toList
      ++ k.mediaTypeNotice?.toList).map note
      ++ if k.hasJsonContent then (content.map Traced.log).getD [] else [] := by
  simp [compile, log_collect, rules, log_formatRule, log_transformRule, log_pipeRule]

end Rules

theorem notices_eq (k : StringKeywords) : k.notices = k.formatNotice?.toList
    ++ (if k.Overlooked then none else k.encodingNotice?).toList ++ k.mediaTypeNotice?.toList := by
  rw [notices, log_compile_eq, List.map_id, Option.map_none, Option.getD_none, ite_self,
    List.append_nil]

theorem log_compile {ε : Type} (note : Notice → ε) (k : StringKeywords)
    (content : Option (Traced ε Expression)) : (k.compile note content).log
      = k.notices.map note
        ++ if k.hasJsonContent then (content.map Traced.log).getD [] else [] := by
  rw [log_compile_eq, notices_eq]

theorem noticesAbout_notices (k : StringKeywords) :
    noticesAbout .format k.notices = k.formatNotice?.toList
      ∧ noticesAbout .contentEncoding k.notices
        = (if k.Overlooked then none else k.encodingNotice?).toList
      ∧ noticesAbout .contentMediaType k.notices = k.mediaTypeNotice?.toList := by
  have hformat : ∀ notice ∈ k.formatNotice?, notice.keyword = .format := by
    unfold formatNotice?
    cases k.format <;> split <;> simp [Notice.keyword]
  have hencoding : ∀ notice ∈ if k.Overlooked then none else k.encodingNotice?,
      notice.keyword = .contentEncoding := by
    unfold encodingNotice?
    cases k.contentEncoding <;> cases k.checkedFormat? <;> grind [Notice.keyword]
  have hmediaType : ∀ notice ∈ k.mediaTypeNotice?, notice.keyword = .contentMediaType := by
    unfold mediaTypeNotice?
    cases k.contentMediaType <;> split <;> simp [Notice.keyword]
  rw [notices_eq]
  simp [noticesAbout_toList hformat, noticesAbout_toList hencoding, noticesAbout_toList hmediaType]

end StringKeywords

namespace Node

def notices : Node → List Notice
  | .string k _ => k.notices
  | .integer _ | .number _ | .boolean | .null | .array .. | .object .. | .any => []

variable {ε : Type} (note : Notice → ε)

mutual

theorem log_compile : (node : Node) →
    (node.compile note).log = (node.liveParts.flatMap fun p => p.node.notices).map note
  | .string k content => by
    have hcontent := log_compileNested content
    rw [compile, StringKeywords.log_compile, hcontent]
    cases hjson : k.hasJsonContent <;> simp [liveParts, innerParts, hjson, notices]
  | .integer _ | .number _ | .boolean | .null | .any => rfl
  | .array size items => by
    cases items with
    | none => rfl
    | some item =>
      have hitem := log_compile item
      simpa [compile, compileNested, liveParts, innerParts, itemParts, notices] using hitem
  | .object properties required => by
    have hproperties := log_compileProperties required properties
    simp [compile, hproperties, liveParts, innerParts, notices]

theorem log_compileNested : (content : Option Node) →
    ((compileNested note content).map Traced.log).getD []
      = ((contentParts content).flatMap fun p => p.node.notices).map note
  | none => rfl
  | some node => log_compile node

theorem log_compileProperties (required : List String) : (properties : List (String × Node)) →
    (compileProperties note required properties).log
      = ((propertyParts required properties).flatMap fun p => p.node.notices).map note
  | [] => rfl
  | (name, node) :: rest => by
    have hnode := log_compile node
    have hrest := log_compileProperties required rest
    simp [compileProperties, hnode, hrest, propertyParts, liveParts]

end

/-- The log consists of the notices of the strings that count, in the order of the code. A string
has one notice for a format that is not known, one for a media type other than JSON and one for an
encoding that does not show as the check for base64 text, unless the encoding is overlooked, and no
other notices. -/
theorem log_notices (node : Node) :
    (node.compile note).log = (node.liveParts.flatMap fun p => p.node.notices).map note
      ∧ ∀ (k : StringKeywords) (content : Option Node),
        noticesAbout .format (Node.string k content).notices = k.formatNotice?.toList
          ∧ noticesAbout .contentMediaType (Node.string k content).notices
            = k.mediaTypeNotice?.toList
          ∧ noticesAbout .contentEncoding (Node.string k content).notices
            = (if k.Overlooked then none else k.encodingNotice?).toList
          ∧ (k.encodingNotice? = none ↔ k.contentEncoding = none ∨ k.knownEncoding = some .base64
            ∧ k.formatSlot.call? = some ⟨"base64", [], k.base64Message⟩) := by
  refine ⟨log_compile note node, fun k _ => ?_⟩
  obtain ⟨hformat, hencoding, hmediaType⟩ := k.noticesAbout_notices
  exact ⟨hformat, hmediaType, hencoding, k.encodingNotice?_eq_none_iff⟩

/-- An unknown encoding beside a format that is known does not show, and nothing tells about it. -/
theorem not_noticed_of_email : ¬∀ k : StringKeywords, k.contentEncoding ≠ none →
    (∀ call ∈ (Node.string k none).validator.chain, call.name ≠ "base64") →
    (noticesAbout .contentEncoding ((Node.string k none).compile id).log).length = 1 := by
  intro h
  have hone := h { format := some "email", contentEncoding := some "gzip" } (by decide)
    (by decide +kernel)
  exact absurd hone (by decide +kernel)

end Node

end ValidatorGen
