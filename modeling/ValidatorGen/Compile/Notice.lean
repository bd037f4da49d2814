import ValidatorGen.Schema.Format

/-! Values of keywords that compilation leaves out. -/
namespace ValidatorGen

inductive Notice where
  | unknownFormat (format : String)
  | encodingOverridden (format : StringFormat)
  | unknownEncoding (encoding : String)
  | otherMediaType (mediaType : String)
deriving DecidableEq, Repr

namespace Notice

def message : Notice → String
  | .unknownFormat _ => "ignoring unrecognized string format"
  | .encodingOverridden _ => "format takes precedence over contentEncoding"
  | .unknownEncoding _ => "ignoring unrecognized content encoding"
  | .otherMediaType _ => "ignoring non-JSON content media type"

def fields : Notice → List (String × String)
  | .unknownFormat format => [("format", format)]
  | .encodingOverridden format => [("format", format.keyword)]
  | .unknownEncoding encoding => [("encoding", encoding)]
  | .otherMediaType mediaType => [("media_type", mediaType)]

end Notice
end ValidatorGen
