import ValidatorGen.Schema.Keyword
import ValidatorGen.Schema.Node

/-! What a schema node says under each keyword, before its kind decides which keywords count. -/
namespace ValidatorGen

/-- Values of a keyword of some shape. For the first four shapes `null` means absence. -/
abbrev Shape.Value : Shape → Type
  | .text => Option String
  | .count => Option UInt64
  | .number => Option Binary64
  | .node => Option Node
  | .properties => List (String × Node)
  | .names => List String
  | .messages => Messages

def Shape.absent : (s : Shape) → s.Value
  | .text => none
  | .count => none
  | .number => none
  | .node => none
  | .properties => []
  | .names => []
  | .messages => .empty

/-- The keywords written so far, with their values. -/
def Record := (k : Keyword) → Option k.shape.Value

namespace Record

def empty : Record := fun _ => none

def has (r : Record) (k : Keyword) : Bool := (r k).isSome

def set (r : Record) (k : Keyword) (value : k.shape.Value) : Record := fun other =>
  if h : k = other then some (h ▸ value) else r other

def value (r : Record) (k : Keyword) : k.shape.Value := (r k).getD k.shape.absent

@[simp] theorem set_self (r : Record) (k : Keyword) (v : k.shape.Value) :
    r.set k v k = some v := by simp [set]

theorem set_of_ne (r : Record) {k other : Keyword} (v : k.shape.Value) (h : k ≠ other) :
    r.set k v other = r other := by simp [set, h]

theorem forall_mem_set {P : (k : Keyword) → k.shape.Value → Prop} {r : Record} {k : Keyword}
    {value : k.shape.Value} (h : ∀ k, ∀ v ∈ r k, P k v) (hvalue : P k value) :
    ∀ other, ∀ v ∈ r.set k value other, P other v := by
  intro other v hv
  by_cases heq : k = other
  · subst heq
    rw [set_self] at hv
    exact Option.some.inj hv ▸ hvalue
  · rw [set_of_ne r value heq] at hv
    exact h other v hv

theorem value_of_forall {P : (k : Keyword) → k.shape.Value → Prop} {r : Record}
    (h : ∀ k, ∀ v ∈ r k, P k v) (habsent : ∀ k : Keyword, P k k.shape.absent) (k : Keyword) :
    P k (r.value k) := by
  unfold value
  cases hk : r k with
  | some v => exact h k v hk
  | none => exact habsent k

end Record

/-- The node that a record describes. Its type picks the kind, and the kind its keywords. -/
def Node.ofRecord (r : Record) : Node :=
  match Kind.ofType (r.value .type) with
  | .string =>
    .string
      { format := r.value .format
        pattern := r.value .pattern
        minLength := r.value .minLength
        maxLength := r.value .maxLength
        contentEncoding := r.value .contentEncoding
        contentMediaType := r.value .contentMediaType
        messages := r.value .errorMessage }
      (r.value .contentSchema)
  | .integer => .integer (bounds r)
  | .number => .number (bounds r)
  | .boolean => .boolean
  | .null => .null
  | .array =>
    .array
      { minItems := r.value .minItems
        maxItems := r.value .maxItems
        messages := r.value .errorMessage }
      (r.value .items)
  | .object => .object (r.value .properties) (r.value .required)
  | .any => .any
where
  bounds (r : Record) : Bounds :=
    { minimum := r.value .minimum
      maximum := r.value .maximum
      exclusiveMinimum := r.value .exclusiveMinimum
      exclusiveMaximum := r.value .exclusiveMaximum
      multipleOf := r.value .multipleOf
      messages := r.value .errorMessage }

end ValidatorGen
