import ValidatorGen.Numeric.Shortest

/-! Numbers in generated code and in diagnostics. Both use the shortest digits that read back;
they differ in where the exponent form starts and in how a whole number ends. -/
namespace ValidatorGen.Binary64

def signed (x : Binary64) (text : List Char) : List Char :=
  if x.isNegative then '-' :: text else text

def exponentLimit : Nat := (powTen 21).magnitude

def fractionLimit : Nat := (ofRatio 1 1000000).magnitude

/-- Sizes from `1e21` and below `1e-6` are written with an exponent. -/
def hasExponent (x : Binary64) : Bool :=
  exponentLimit ≤ x.magnitude || (x.magnitude != 0 && x.magnitude < fractionLimit)

/-- The largest of the whole numbers up to which all are values. -/
def safeLimit : Nat := (ofNat 9007199254740991).magnitude

/-- Whole numbers that become an integer without loss. -/
def isSafeInteger (x : Binary64) : Bool :=
  x.units % unitsPerOne == 0 && x.magnitude ≤ safeLimit

/-- The integer that is left without the fraction. -/
def truncated (x : Binary64) : Int :=
  if x.isNegative then -(x.units / unitsPerOne : Nat) else (x.units / unitsPerOne : Nat)

/-- A number in generated code: whole numbers have no point, both zeros are `0`, and an exponent
has a sign only if it is negative. Of two shortest digit strings that are equally near the upper
one is taken. -/
def literalChars (x : Binary64) : List Char :=
  if x.isNaN then ['N', 'a', 'N']
  else if !x.isFinite then x.signed ['i', 'n', 'f']
  else if x.hasExponent then
    let d := x.shortest .up
    x.signed (d.scientific ++ 'e' :: (toString d.lead).toList)
  else if x.isSafeInteger then (toString x.truncated).toList
  else
    let (whole, fraction) := (x.shortest .up).positional
    x.signed (whole ++ if fraction.isEmpty then [] else '.' :: fraction)

def literal (x : Binary64) : String := .ofList (literalChars x)

/-- A finite number in a diagnostic: a point always, from `1e-5` to below `1e16`; outside that
range an exponent with its sign. -/
def diagnostic (x : Binary64) : String :=
  if x.magnitude = 0 then .ofList (x.signed ['0', '.', '0'])
  else
    let d := x.shortest .even
    if -5 ≤ d.lead ∧ d.lead < 16 then
      let (whole, fraction) := d.positional
      .ofList (x.signed (whole ++ '.' :: if fraction.isEmpty then ['0'] else fraction))
    else
      .ofList (x.signed (d.scientific ++ 'e' :: (if 0 ≤ d.lead then ['+'] else [])
        ++ (toString d.lead).toList))

end ValidatorGen.Binary64
