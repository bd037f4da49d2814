import ValidatorGen.Compile.String

/-! Validators of schema nodes of all kinds. -/
namespace ValidatorGen

variable {ε : Type}

/-- Checks of a number, inclusive bounds before exclusive ones. -/
def Bounds.calls (b : Bounds) : List Call :=
  [call "gte" .minimum b.minimum, call "gt" .exclusiveMinimum b.exclusiveMinimum,
    call "lte" .maximum b.maximum, call "lt" .exclusiveMaximum b.exclusiveMaximum,
    call "multipleOf" .multipleOf b.multipleOf].flatten
where
  call (method : String) (k : Keyword) (value : Option Binary64) : List Call :=
    (value.map fun x => Call.unary method (.number x) (b.messages.forKeyword k)).toList

def ListSize.calls (s : ListSize) : List Call :=
  call "min" .minItems s.minItems ++ call "max" .maxItems s.maxItems
where
  call (method : String) (k : Keyword) (value : Option UInt64) : List Call :=
    (value.map fun n => Call.unary method (.count n) (s.messages.forKeyword k)).toList

/-- The validator of a property; one that is not required may be missing. -/
def propertyValidator (required : List String) (name : String) (e : Expression) : Expression :=
  if required.contains name then e else e.push (.plain "optional")

mutual

def Node.compile (note : Notice → ε) : Node → Traced ε Expression
  | .string keywords content => keywords.compile note (compileNested note content)
  | .integer bounds => pure ⟨.plain "number", .plain "int" :: bounds.calls⟩
  | .number bounds => pure ⟨.plain "number", bounds.calls⟩
  | .boolean => pure (.ofBase (.plain "boolean"))
  | .null => pure (.ofBase (.plain "null"))
  | .array size items => do
    let inner ← (compileNested note items).getD (pure .any)
    return ⟨.unary "array" (.expression inner) none, size.calls⟩
  | .object properties required => do
    let entries ← compileProperties note required properties
    return .ofBase (.unary "object" (.shape entries) none)
  | .any => pure .any

def compileNested (note : Notice → ε) : Option Node → Option (Traced ε Expression)
  | none => none
  | some node => some (node.compile note)

def compileProperties (note : Notice → ε) (required : List String) :
    List (String × Node) → Traced ε (List (String × Arg))
  | [] => pure []
  | (name, node) :: rest => do
    let e ← node.compile note
    let entries ← compileProperties note required rest
    return (name, .expression (propertyValidator required name e)) :: entries

end

def Node.validator (node : Node) : Expression := (node.compile id).value

end ValidatorGen
