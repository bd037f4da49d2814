import ValidatorGen.Json.Basic
import ValidatorGen.Numeric.Literal
import ValidatorGen.Schema.Keyword
import ValidatorGen.Text.Visible

/-! Well-formed JSON that does not say what a schema has to say. -/
namespace ValidatorGen

/-- Counts are lengths of lists that should hold the keywords of a node. -/
inductive Mismatch where
  | unexpected (found : Json.Head) (expected : Shape)
  | negativeCount (size : UInt64)
  | tooFewItems (count : Nat)
  | tooManyItems (count : Nat)
  | repeatedKeyword (k : Keyword)
deriving DecidableEq, Repr

def Number.describe : Number → String
  | .natural n => "integer `" ++ toString n.toNat ++ "`"
  | .negative n => "integer `-" ++ toString n.toNat ++ "`"
  | .float x => "floating point `" ++ x.diagnostic ++ "`"

def Json.Head.describe : Json.Head → String
  | .null => "null"
  | .boolean b => "boolean `" ++ (if b then "true" else "false") ++ "`"
  | .number n => n.describe
  | .text s => "string " ++ Text.visible s
  | .list => "sequence"
  | .object => "map"

def Mismatch.message : Mismatch → String
  | .unexpected found expected =>
    "invalid type: " ++ found.describe ++ ", expected " ++ expected.expected
  | .negativeCount size =>
    "invalid value: " ++ (Number.negative size).describe ++ ", expected " ++ Shape.count.expected
  | .tooFewItems count =>
    "invalid length " ++ toString count ++ ", expected struct RawSchema with "
      ++ toString Keyword.all.length ++ " elements"
  | .tooManyItems count =>
    "invalid length " ++ toString count ++ ", expected fewer elements in array"
  | .repeatedKeyword k => "duplicate field `" ++ k.name ++ "`"

namespace Json.Head

def asText : Head → Except Mismatch String
  | .text s => .ok s
  | h => .error (.unexpected h .text)

def asCount : Head → Except Mismatch UInt64
  | .number (.natural n) => .ok n
  | .number (.negative n) => .error (.negativeCount n)
  | h => .error (.unexpected h .count)

/-- Any number is a bound; integers are rounded. -/
def asNumber : Head → Except Mismatch Binary64
  | .number n => .ok n.toBinary64
  | h => .error (.unexpected h .number)

/-- A `null` stands for an absent value. -/
def optional {α : Type} (read : Head → Except Mismatch α) : Head → Except Mismatch (Option α)
  | .null => .ok none
  | h => some <$> read h

end Json.Head
end ValidatorGen
