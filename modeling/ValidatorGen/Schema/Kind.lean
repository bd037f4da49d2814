/-! The kinds of schema nodes. -/
namespace ValidatorGen

inductive Kind where
  | string
  | integer
  | number
  | boolean
  | null
  | array
  | object
  | any
deriving DecidableEq, Repr

namespace Kind

def name : Kind → String
  | .string => "string"
  | .integer => "integer"
  | .number => "number"
  | .boolean => "boolean"
  | .null => "null"
  | .array => "array"
  | .object => "object"
  | .any => "any"

def all : List Kind := [.string, .integer, .number, .boolean, .null, .array, .object, .any]

/-- The kind that a `type` keyword asks for; without a known type a node admits anything. -/
def ofType (type : Option String) : Kind :=
  (type.bind fun name => all.find? (·.name == name)).getD .any

theorem ofType_none : ofType none = .any := rfl

theorem ofType_name (k : Kind) : ofType (some k.name) = k := by cases k <;> decide +kernel

end Kind
end ValidatorGen
