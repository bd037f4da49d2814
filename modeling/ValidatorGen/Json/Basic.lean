import ValidatorGen.Numeric.Binary64

/-! JSON values. Numbers are kept as 64-bit integers where they are written as such and fit, and
as double precision values otherwise. -/
namespace ValidatorGen

/-- `negative n` stands for the integer `-n`, where `1 ≤ n ≤ 2 ^ 63`. -/
inductive Number where
  | natural (n : UInt64)
  | negative (n : UInt64)
  | float (x : Binary64)
deriving DecidableEq, Repr

namespace Number

/-- The double precision value nearest to a number. -/
def toBinary64 : Number → Binary64
  | .natural n => .ofNat n.toNat
  | .negative n => (Binary64.ofNat n.toNat).negate
  | .float x => x

end Number

/-- Members of an object keep the order of the text. -/
inductive Json where
  | null
  | boolean (b : Bool)
  | number (n : Number)
  | text (s : String)
  | list (items : List Json)
  | object (members : List (String × Json))

/-- The outermost layer of a value: all of a scalar, and of a container only which one it is. -/
inductive Json.Head where
  | null
  | boolean (b : Bool)
  | number (n : Number)
  | text (s : String)
  | list
  | object
deriving DecidableEq, Repr

def Json.head : Json → Json.Head
  | .null => .null
  | .boolean b => .boolean b
  | .number n => .number n
  | .text s => .text s
  | .list _ => .list
  | .object _ => .object

end ValidatorGen
