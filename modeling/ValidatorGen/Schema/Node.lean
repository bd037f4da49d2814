import ValidatorGen.Numeric.Binary64
import ValidatorGen.Schema.Format
import ValidatorGen.Schema.Kind
import ValidatorGen.Schema.MediaType
import ValidatorGen.Schema.Messages

/-! Schema nodes, each with the keywords that mean something for its kind. -/
namespace ValidatorGen

structure StringKeywords where
  format : Option String := none
  pattern : Option String := none
  minLength : Option UInt64 := none
  maxLength : Option UInt64 := none
  contentEncoding : Option String := none
  contentMediaType : Option String := none
  messages : Messages := .empty
deriving DecidableEq, Repr

namespace StringKeywords

def knownFormat (k : StringKeywords) : Option StringFormat :=
  k.format.bind StringFormat.ofKeyword?

def knownEncoding (k : StringKeywords) : Option ContentEncoding :=
  k.contentEncoding.bind ContentEncoding.ofKeyword?

def hasJsonContent (k : StringKeywords) : Bool :=
  (k.contentMediaType.map MediaType.isJson).getD false

end StringKeywords

structure Bounds where
  minimum : Option Binary64 := none
  maximum : Option Binary64 := none
  exclusiveMinimum : Option Binary64 := none
  exclusiveMaximum : Option Binary64 := none
  multipleOf : Option Binary64 := none
  messages : Messages := .empty
deriving DecidableEq, Repr

structure ListSize where
  minItems : Option UInt64 := none
  maxItems : Option UInt64 := none
  messages : Messages := .empty
deriving DecidableEq, Repr

/-- Properties keep the order of the text and have distinct names; `required` is kept as given. -/
inductive Node where
  | string (keywords : StringKeywords) (content : Option Node)
  | integer (bounds : Bounds)
  | number (bounds : Bounds)
  | boolean
  | null
  | array (size : ListSize) (items : Option Node)
  | object (properties : List (String × Node)) (required : List String)
  | any

instance : Inhabited Node := ⟨.any⟩

def Node.kind : Node → Kind
  | .string .. => .string
  | .integer .. => .integer
  | .number .. => .number
  | .boolean => .boolean
  | .null => .null
  | .array .. => .array
  | .object .. => .object
  | .any => .any

/-- Optional bounds agree if both are absent or both have the same value. -/
def sameBound : Option Binary64 → Option Binary64 → Bool
  | none, none => true
  | some x, some y => x.sameValue y
  | _, _ => false

def Bounds.same (a b : Bounds) : Bool :=
  sameBound a.minimum b.minimum && sameBound a.maximum b.maximum
    && sameBound a.exclusiveMinimum b.exclusiveMinimum
    && sameBound a.exclusiveMaximum b.exclusiveMaximum
    && sameBound a.multipleOf b.multipleOf && a.messages == b.messages

mutual

/-- Equality of schemas: properties in any order, required names as a list, numbers by value. -/
def Node.same : Node → Node → Bool
  | .string a content, .string b content' => a == b && sameNested content content'
  | .integer a, .integer b => a.same b
  | .number a, .number b => a.same b
  | .boolean, .boolean => true
  | .null, .null => true
  | .array a items, .array b items' => a == b && sameNested items items'
  | .object properties required, .object properties' required' =>
    properties.length == properties'.length && sameProperties properties properties'
      && required == required'
  | .any, .any => true
  | _, _ => false

def sameNested : Option Node → Option Node → Bool
  | none, none => true
  | some a, some b => a.same b
  | _, _ => false

def sameProperties : List (String × Node) → List (String × Node) → Bool
  | [], _ => true
  | (name, node) :: rest, others =>
    (match others.lookup name with
      | some other => node.same other
      | none => false) && sameProperties rest others

end

end ValidatorGen
