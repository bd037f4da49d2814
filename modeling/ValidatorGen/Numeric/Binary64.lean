/-! IEEE 754 double precision values, held as their 64 bits. A finite value is an exact multiple
of the smallest positive one, `2 ^ -1074`, so all arithmetic on them is arithmetic of natural
numbers followed by one rounding. -/
namespace ValidatorGen

structure Binary64 where
  bits : UInt64
deriving DecidableEq, Inhabited, Repr

namespace Binary64

/-- The weight of the sign bit, `2 ^ 63`. -/
def signWeight : Nat := 0x8000000000000000

/-- How many values share an exponent, `2 ^ 52`. -/
def binade : Nat := 0x10000000000000

/-- The bits without the sign. They order the values by size: zero, the finite values, infinity
and then the values that are no number. -/
def magnitude (x : Binary64) : Nat := x.bits.toNat % signWeight

def isNegative (x : Binary64) : Bool := signWeight ≤ x.bits.toNat

def infinityMagnitude : Nat := 0x7FF * binade

def isNaN (x : Binary64) : Bool := infinityMagnitude < x.magnitude

def isFinite (x : Binary64) : Bool := x.magnitude < infinityMagnitude

def ofMagnitude (negative : Bool) (magnitude : Nat) : Binary64 :=
  ⟨.ofNat (magnitude % signWeight + if negative then signWeight else 0)⟩

theorem magnitude_lt (x : Binary64) : x.magnitude < signWeight := Nat.mod_lt _ (by decide)

theorem magnitude_ofMagnitude {m : Nat} (negative : Bool) (h : m < signWeight) :
    (ofMagnitude negative m).magnitude = m := by
  cases negative <;> simp [ofMagnitude, magnitude, signWeight] at * <;> omega

theorem isNegative_ofMagnitude (negative : Bool) (m : Nat) :
    (ofMagnitude negative m).isNegative = negative := by
  cases negative <;> simp [ofMagnitude, isNegative, signWeight] <;> omega

theorem ofMagnitude_magnitude (x : Binary64) : ofMagnitude x.isNegative x.magnitude = x := by
  rcases x with ⟨bits⟩
  have h := bits.toNat_lt
  simp only [ofMagnitude, isNegative, magnitude, mk.injEq, decide_eq_true_eq]
  apply UInt64.toNat_inj.1
  rw [UInt64.toNat_ofNat']
  split <;> simp only [signWeight] at * <;> omega

def negate (x : Binary64) : Binary64 := ofMagnitude (!x.isNegative) x.magnitude

/-- Exponent of the spacing between a value and the next larger one, counted from the spacing
of the smallest values. -/
def spacing (x : Binary64) : Nat := x.magnitude / binade - 1

/-- The size of a finite value in multiples of `2 ^ -1074`. -/
def units (x : Binary64) : Nat :=
  if x.magnitude < binade then x.magnitude
  else (binade + x.magnitude % binade) * Nat.pow 2 x.spacing

def unitsPerOne : Nat := Nat.pow 2 1074

/-- Equality of values: the two zeros are equal, and what is no number equals nothing. -/
def sameValue (x y : Binary64) : Bool :=
  !x.isNaN && !y.isNaN && (x == y || (x.magnitude == 0 && y.magnitude == 0))

/-- The natural number nearest to a quotient; of two equally near ones the even one. -/
def roundToEven (num den : Nat) : Nat :=
  let q := num / den
  let twice := 2 * (num % den)
  if den < twice ∨ (twice = den ∧ q % 2 = 1) then q + 1 else q

/-- The value nearest to a quotient of natural numbers. Scaled to units, a quotient below `2 ^ 53`
is rounded to whole units, a larger one to its first 53 binary digits; as sizes are ordered like
their bits, a carry out of those digits moves on to the next exponent by itself. -/
def ofRatio (num den : Nat) : Binary64 :=
  let scaled := num * unitsPerOne
  let drop := (scaled / den).log2 - 52
  ofMagnitude false
    (min infinityMagnitude (drop * binade + roundToEven scaled (den * Nat.pow 2 drop)))

def ofNat (n : Nat) : Binary64 := ofRatio n 1

def powTen (n : Nat) : Binary64 := ofNat (Nat.pow 10 n)

/-- The rounded product of two finite values that are not negative. -/
def mul (x y : Binary64) : Binary64 := ofRatio (x.units * y.units) (unitsPerOne * unitsPerOne)

/-- The rounded quotient of two finite values that are not negative. -/
def div (x y : Binary64) : Binary64 := ofRatio x.units y.units

end Binary64
end ValidatorGen
