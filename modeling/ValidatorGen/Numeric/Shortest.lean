import ValidatorGen.Numeric.Binary64

/-! The shortest decimal that reads back as a given finite value.

A decimal reads back as a value if it lies in the interval of numbers that round to it. For one
digit, two digits and so on the two neighbours of the value among the decimals of that many digits
are tried; the first digit count with a neighbour in the interval wins. -/
namespace ValidatorGen

/-- Significant decimal digits, the first and the last of them not zero, with the power of ten
that the first one counts. -/
structure Decimal where
  digits : List Char
  lead : Int
deriving DecidableEq, Repr

/-- Which of two equally near neighbours is taken. -/
inductive TieBreak where
  | even
  | up
deriving DecidableEq, Repr

namespace Binary64

/-- The numbers that round to a value, in quarters of a unit. The ends belong to it when the value
has an even last bit. -/
structure Interval where
  lower : Nat
  upper : Nat
  closed : Bool

/-- Half the spacing on both sides, but only a quarter of it below a power of two, where the
spacing halves. -/
def interval (x : Binary64) : Interval :=
  let step := Nat.pow 2 x.spacing
  let centre := 4 * x.units
  let below := if x.magnitude % binade = 0 ∧ binade < x.magnitude then step else 2 * step
  ⟨centre - below, centre + 2 * step, x.magnitude % 2 == 0⟩

def Interval.contains (i : Interval) (num den : Nat) : Bool :=
  if i.closed then i.lower * den ≤ num && num ≤ i.upper * den
  else i.lower * den < num && num < i.upper * den

def gridStep (power : Int) : Nat × Nat :=
  if 0 ≤ power then (4 * unitsPerOne * Nat.pow 10 power.toNat, 1)
  else (4 * unitsPerOne, Nat.pow 10 (-power).toNat)

/-- The power of ten of the first significant digit. Scaled by `10 ^ 324` every value is above
one, so its digits can be counted. -/
def leadingPower (x : Binary64) : Int :=
  ((Nat.toDigits 10 (x.units * Nat.pow 10 324 / unitsPerOne)).length : Int) - 325

/-- The multiple of `10 ^ power` next to the value that reads back as it, if there is one. -/
def onGrid? (tie : TieBreak) (x : Binary64) (power : Int) : Option Nat :=
  let step := gridStep power
  let scaled := 4 * x.units * step.2
  let low := scaled / step.1
  let lowFits := x.interval.contains (low * step.1) step.2
  let highFits := x.interval.contains ((low + 1) * step.1) step.2
  if lowFits && highFits then
    let twice := 2 * (scaled % step.1)
    if twice < step.1 ∨ (twice = step.1 ∧ tie = .even ∧ low % 2 = 0) then some low
    else some (low + 1)
  else if lowFits then some low
  else if highFits then some (low + 1)
  else none

/-- Tries `power`, then so many finer grids. -/
def firstOnGrid (tie : TieBreak) (x : Binary64) (power : Int) : Nat → Nat × Int
  | 0 => ((onGrid? tie x power).getD 0, power)
  | finer + 1 =>
    match onGrid? tie x power with
    | some count => (count, power)
    | none => firstOnGrid tie x (power - 1) finer

/-- The shortest decimal of a finite value that is not zero; 17 digits are always enough. -/
def shortest (tie : TieBreak) (x : Binary64) : Decimal :=
  let found := firstOnGrid tie x x.leadingPower 16
  let digits := Nat.toDigits 10 found.1
  ⟨(digits.reverse.dropWhile (· == '0')).reverse, found.2 + digits.length - 1⟩

end Binary64

namespace Decimal

/-- Digits before and after the point, the first part padded with zeros to the unit. -/
def positional (d : Decimal) : List Char × List Char :=
  if d.lead < 0 then (['0'], List.replicate (-d.lead - 1).toNat '0' ++ d.digits)
  else
    let whole := (d.lead + 1).toNat
    (d.digits.take whole ++ List.replicate (whole - d.digits.length) '0', d.digits.drop whole)

def scientific (d : Decimal) : List Char :=
  d.digits.take 1 ++ (if d.digits.length ≤ 1 then [] else '.' :: d.digits.drop 1)

end Decimal
end ValidatorGen
