import ValidatorGen.Compile.Notice
import ValidatorGen.Compile.Traced
import ValidatorGen.Expression.Basic
import ValidatorGen.Schema.Node
import ValidatorGen.Text.Quoted

/-! Validators of strings. Each keyword has a rule that gives at most one call, and the order of the
rules is the order of the calls: format or encoding, JSON content, the schema of that content,
pattern, lengths. The schema of the content is compiled by whoever asks for the string. -/
namespace ValidatorGen

/-- The check of a format. Binary content has none: it is checked as an encoding. -/
def StringFormat.call? (message : Option String) : StringFormat → Option Call
  | .dateTime => some (.unary "datetime" (.optionsWith [("offset", .flag true)] message) none)
  | .ipv4 => some (ip "v4")
  | .ipv6 => some (ip "v6")
  | .email => some ⟨"email", [], message⟩
  | .ip => some ⟨"ip", [], message⟩
  | .uri => some ⟨"url", [], message⟩
  | .uuid => some ⟨"uuid", [], message⟩
  | .time => some ⟨"time", [], message⟩
  | .date => some ⟨"date", [], message⟩
  | .duration => some ⟨"duration", [], message⟩
  | .binary => none
where
  ip (version : String) : Call :=
    .unary "ip" (.optionsWith [("version", .text version)] message) none

/-- A callback that parses the string as JSON, and reports an issue if that fails. -/
def parseJsonCode : String :=
  "(str, ctx) => \x7b try \x7b return JSON.parse(str); \x7d catch (err) \x7b ctx.addIssue(\x7b "
    ++ "code: \"custom\", message: \"Invalid JSON\" \x7d); \x7d\x7d"

namespace StringKeywords

variable {ε : Type}

/-- The check for base64 text, which both the encoding and the binary format ask for. The message
of the encoding is preferred. -/
def base64Rule (note : Notice → ε) (k : StringKeywords) : Traced ε (Option Call) := do
  let binary := k.knownFormat == some .binary
  let base64 := k.knownEncoding == some .base64
  if !base64 then
    if let some encoding := k.contentEncoding then
      Traced.emit (note (.unknownEncoding encoding))
  if binary || base64 then
    let ofEncoding := if base64 then k.messages.forKeyword .contentEncoding else none
    let ofFormat := if binary then k.messages.forKeyword .format else none
    return some ⟨"base64", [], ofEncoding.or ofFormat⟩
  else return none

/-- A known format has its own check, which goes before an encoding. -/
def formatRule (note : Notice → ε) (k : StringKeywords) : Traced ε (Option Call) := do
  match k.knownFormat with
  | none =>
    if let some format := k.format then
      Traced.emit (note (.unknownFormat format))
    k.base64Rule note
  | some format =>
    match format.call? (k.messages.forKeyword .format) with
    | none => k.base64Rule note
    | some call =>
      if k.knownEncoding.isSome then
        Traced.emit (note (.encodingOverridden format))
      return some call

def transformRule (note : Notice → ε) (k : StringKeywords) : Traced ε (Option Call) := do
  if k.hasJsonContent then
    return some
      (.unary "transform" (.code parseJsonCode) (k.messages.forKeyword .contentMediaType))
  else
    if let some mediaType := k.contentMediaType then
      Traced.emit (note (.otherMediaType mediaType))
    return none

/-- The content is compiled only if it is JSON. -/
def pipeRule (k : StringKeywords) (content : Option (Traced ε Expression)) :
    Traced ε (Option Call) := do
  if k.hasJsonContent then
    match content with
    | none => return none
    | some compiled =>
      return some
        (.unary "pipe" (.expression (← compiled)) (k.messages.forKeyword .contentSchema))
  else return none

def patternCall? (k : StringKeywords) : Option Call :=
  k.pattern.map fun pattern =>
    .unary "regex" (.code ("new RegExp(" ++ Text.quote pattern ++ ")"))
      (k.messages.forKeyword .pattern)

def minLengthCall? (k : StringKeywords) : Option Call :=
  k.minLength.map fun n => .unary "min" (.count n) (k.messages.forKeyword .minLength)

def maxLengthCall? (k : StringKeywords) : Option Call :=
  k.maxLength.map fun n => .unary "max" (.count n) (k.messages.forKeyword .maxLength)

def rules (note : Notice → ε) (k : StringKeywords) (content : Option (Traced ε Expression)) :
    List (Traced ε (Option Call)) :=
  [k.formatRule note, k.transformRule note, k.pipeRule content, pure k.patternCall?,
    pure k.minLengthCall?, pure k.maxLengthCall?]

def collect : List (Traced ε (Option Call)) → Traced ε (List Call)
  | [] => pure []
  | rule :: rest => do
    let call ← rule
    let calls ← collect rest
    return call.toList ++ calls

def compile (note : Notice → ε) (k : StringKeywords) (content : Option (Traced ε Expression)) :
    Traced ε Expression := do
  return ⟨.plain "string", ← collect (k.rules note content)⟩

/-- The validator of a string, given a compiler for the schema of its content. -/
def compileWith (note : Notice → ε) (nested : Node → Traced ε Expression) (k : StringKeywords)
    (content : Option Node) : Traced ε Expression :=
  k.compile note (content.map nested)

end StringKeywords
end ValidatorGen
