import ValidatorGen.Reading.Reader

/-! Number literals. An integer that fits 64 bits is exact. Any other number is made of its first
digits, as many as fit 64 bits, and a power of ten: the digits are rounded, then multiplied or
divided by a rounded power, so the result can be off by more than one rounding. -/
namespace ValidatorGen

structure Numeral where
  negative : Bool
  whole : List Char
  fraction : Option (List Char)
  exponent : Option (Bool × List Char)
deriving DecidableEq, Repr

namespace Numeral

def digitValue (c : Char) : Nat := c.toNat - '0'.toNat

/-- Appends digits to a number while it stays below a limit, and returns the digits left over. -/
def gather (limit : Nat) : Nat → List Char → Nat × List Char
  | n, [] => (n, [])
  | n, d :: digits =>
    let next := 10 * n + digitValue d
    if next < limit then gather limit next digits else (n, d :: digits)

/-- Significands are 64-bit words, `2 ^ 64` in number. -/
def wordLimit : Nat := 0x10000000000000000

/-- Exponents are below `2 ^ 31`. -/
def exponentLimit : Nat := 0x80000000

def ofDigits (digits : List Char) : Nat := digits.foldl (fun n d => 10 * n + digitValue d) 0

def exponentValue (n : Numeral) : Int :=
  match n.exponent with
  | none => 0
  | some (true, digits) => ofDigits digits
  | some (false, digits) => -(ofDigits digits : Int)

/-- The size of the smallest 64-bit integer, `2 ^ 63`. -/
def minIntegerSize : Nat := 0x8000000000000000

def integerValue (negative : Bool) (n : Nat) : Number :=
  if !negative then .natural (.ofNat n)
  else if n = 0 ∨ minIntegerSize < n then .float (Binary64.ofNat n).negate
  else .negative (.ofNat n)

/-- A significand times a power of ten, or `none` if that is too large. The largest power divided
by in one step is `10 ^ 308`; two such steps leave nothing of any significand. -/
def scale (significand : Nat) (power : Int) : Option Binary64 :=
  let x := Binary64.ofNat significand
  if 308 < power then (if significand = 0 then some x else none)
  else if 0 ≤ power then
    let product := x.mul (.powTen power.toNat)
    if product.isFinite then some product else none
  else if -308 ≤ power then some (x.div (.powTen (-power).toNat))
  else if -616 ≤ power then some ((x.div (.powTen 308)).div (.powTen (-power - 308).toNat))
  else some (.ofNat 0)

/-- The number that a literal stands for, or `none` if it is too large. -/
def value? (n : Numeral) : Option Number :=
  let (whole, dropped) := gather wordLimit 0 n.whole
  if n.fraction.isNone && n.exponent.isNone && dropped.isEmpty then
    some (integerValue n.negative whole)
  else
    let fraction := n.fraction.getD []
    let (significand, left) := gather wordLimit whole fraction
    let power := (dropped.length : Int) - (fraction.length - left.length : Nat) + n.exponentValue
    (scale significand power).map fun x => .float (if n.negative then x.negate else x)

/-- What is still unread when a positive exponent is given up: the digits after the one with which
it leaves the range of 32-bit integers. -/
def unread (n : Numeral) : List Char :=
  match n.exponent with
  | some (true, digits) => (gather exponentLimit 0 digits).2.tail
  | _ => []

end Numeral

namespace Reader

def digits (atEnd : Cause) : Reader (List Char) := do
  let read ← span Char.isDigit
  if read.isEmpty then
    match ← peek with
    | none => fail atEnd
    | some _ => failNext .badNumber
  else pure read

/-- The digits before the point: a lone zero, or digits that do not start with one. -/
def wholeDigits (atEnd : Cause) : Reader (List Char) := do
  if (← peek) = some '0' then do
    skip
    if ((← peek).map Char.isDigit).getD false then failNext .badNumber else pure ['0']
  else digits atEnd

def fraction? (atEnd : Cause) : Reader (Option (List Char)) := do
  if (← peek) = some '.' then do
    skip
    return some (← digits atEnd)
  else pure none

/-- Reads a sign, and returns whether it is not a minus. -/
def exponentSign : Reader Bool := do
  match ← peek with
  | some '+' => do
    skip
    pure true
  | some '-' => do
    skip
    pure false
  | _ => pure true

def exponent? (atEnd : Cause) : Reader (Option (Bool × List Char)) := do
  let mark ← peek
  if mark = some 'e' ∨ mark = some 'E' then do
    skip
    let positive ← exponentSign
    return some (positive, ← digits atEnd)
  else pure none

/-- Reads a number literal; `atEnd` is the fault if the text ends where a digit has to come. -/
def numeral (atEnd : Cause) : Reader Numeral := do
  let negative := (← peek) = some '-'
  if negative then skip
  let whole ← wholeDigits atEnd
  let fraction ← fraction? atEnd
  let exponent ← exponent? atEnd
  return ⟨negative, whole, fraction, exponent⟩

def number : Reader Number := do
  let n ← numeral .endInValue
  match n.value? with
  | some value => pure value
  | none => fun rest => fail .numberTooLarge (n.unread ++ rest)

def skipNumber : Reader Unit := discard (numeral .badNumber)

end Reader
end ValidatorGen
