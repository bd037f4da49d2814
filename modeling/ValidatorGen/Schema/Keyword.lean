/-! The schema keywords that are understood, and the shape of the value each of them takes. -/
namespace ValidatorGen

inductive Shape where
  | text
  | count
  | number
  | node
  | properties
  | names
  | messages
deriving DecidableEq, Repr

def Shape.expected : Shape → String
  | .text => "a string"
  | .count => "u64"
  | .number => "f64"
  | .node => "struct RawSchema"
  | .properties => "a map"
  | .names => "a sequence"
  | .messages => "any JSON value"

/-- In the order in which a node written as a list has them. -/
inductive Keyword where
  | type
  | format
  | pattern
  | minLength
  | maxLength
  | contentEncoding
  | contentMediaType
  | contentSchema
  | minimum
  | maximum
  | exclusiveMinimum
  | exclusiveMaximum
  | multipleOf
  | items
  | minItems
  | maxItems
  | properties
  | required
  | errorMessage
deriving DecidableEq, Repr

namespace Keyword

def name : Keyword → String
  | .type => "type"
  | .format => "format"
  | .pattern => "pattern"
  | .minLength => "minLength"
  | .maxLength => "maxLength"
  | .contentEncoding => "contentEncoding"
  | .contentMediaType => "contentMediaType"
  | .contentSchema => "contentSchema"
  | .minimum => "minimum"
  | .maximum => "maximum"
  | .exclusiveMinimum => "exclusiveMinimum"
  | .exclusiveMaximum => "exclusiveMaximum"
  | .multipleOf => "multipleOf"
  | .items => "items"
  | .minItems => "minItems"
  | .maxItems => "maxItems"
  | .properties => "properties"
  | .required => "required"
  | .errorMessage => "errorMessage"

def shape : Keyword → Shape
  | .type | .format | .pattern | .contentEncoding | .contentMediaType => .text
  | .minLength | .maxLength | .minItems | .maxItems => .count
  | .minimum | .maximum | .exclusiveMinimum | .exclusiveMaximum | .multipleOf => .number
  | .contentSchema | .items => .node
  | .properties => .properties
  | .required => .names
  | .errorMessage => .messages

def all : List Keyword :=
  [.type, .format, .pattern, .minLength, .maxLength, .contentEncoding, .contentMediaType,
    .contentSchema, .minimum, .maximum, .exclusiveMinimum, .exclusiveMaximum, .multipleOf, .items,
    .minItems, .maxItems, .properties, .required, .errorMessage]

def ofName? (text : String) : Option Keyword := all.find? (·.name == text)

/-- Whether a node written as a list may end before this keyword. -/
def mayEndBefore (k : Keyword) : Bool :=
  k = .properties || k = .required || k = .errorMessage

theorem mem_all (k : Keyword) : k ∈ all := by cases k <;> decide

theorem ofName?_name (k : Keyword) : ofName? k.name = some k := by cases k <;> decide +kernel

theorem eq_name_of_ofName? {text : String} {k : Keyword} (h : ofName? text = some k) :
    text = k.name := by
  have := List.find?_some (show all.find? (·.name == text) = some k from h)
  simpa using (beq_iff_eq.1 this).symm

theorem ofName?_eq_some_iff {text : String} {k : Keyword} :
    ofName? text = some k ↔ text = k.name :=
  ⟨eq_name_of_ofName?, fun h => h ▸ ofName?_name k⟩

@[simp] theorem name_inj {k other : Keyword} : k.name = other.name ↔ k = other := by
  refine ⟨fun h => ?_, fun h => h ▸ rfl⟩
  have hother := ofName?_name other
  rw [← h, ofName?_name] at hother
  exact Option.some.inj hother

end Keyword
end ValidatorGen
