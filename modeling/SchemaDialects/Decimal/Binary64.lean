/-!
# Finite binary floating-point numbers

Double-precision numbers as the integers they are made of, so that rounding, reading and writing
them is exact arithmetic on natural numbers. Infinities and NaN have no place in JSON and none here.
-/

namespace SchemaDialects

/-- The number `± significand · 2 ^ exponent`. A number has one form: the significand has 53 bits,
or fewer when the exponent is the least one. -/
structure Binary64 where
  negative : Bool
  significand : Nat
  exponent : Int
  deriving DecidableEq, Repr

namespace Binary64

def leastExponent : Int := -1074

def greatestExponent : Int := 971

def zero (negative : Bool) : Binary64 := ⟨negative, 0, leastExponent⟩

/-- Two numbers are the same number; the two zeros are. -/
def equal (x y : Binary64) : Bool :=
  (x.significand == 0 && y.significand == 0) || x == y

instance : BEq Binary64 := ⟨equal⟩

/-- `num / den` rounded to an integer; a half goes to the even neighbour. -/
def roundDiv (num den : Nat) : Nat :=
  let q := num / den
  let r := num % den
  if 2 * r < den then q
  else if den < 2 * r then q + 1
  else q + q % 2

/-- `num · 2 ^ shift / den`, again as numerator and denominator. -/
def scale (num den : Nat) (shift : Int) : Nat × Nat :=
  if 0 ≤ shift then (num * Nat.pow 2 shift.toNat, den) else (num, den * Nat.pow 2 (-shift).toNat)

/-- The exponent at which `num / den` has a significand of 53 bits, or the least exponent. -/
def exponentFor (num den : Nat) : Int :=
  let guess : Int := (num.log2 : Int) - (den.log2 : Int) - 53
  let (n, d) := scale num den (-guess)
  max leastExponent (if n / d < Nat.pow 2 53 then guess else guess + 1)

/-- The double nearest to `num / den`, ties to the even significand; none beyond the greatest
finite double. -/
def ofRatio (num den : Nat) : Option (Nat × Int) :=
  if num = 0 then some (0, leastExponent)
  else
    let e := exponentFor num den
    let (n, d) := scale num den (-e)
    let m := roundDiv n d
    let (m, e) := if m = Nat.pow 2 53 then (Nat.pow 2 52, e + 1) else (m, e)
    if greatestExponent < e then none else some (m, e)

/-- The double nearest to a natural number. -/
def ofNat (n : Nat) : Option (Nat × Int) :=
  ofRatio n 1

/-- The product of two nonnegative doubles, rounded. -/
def mul (x y : Nat × Int) : Option (Nat × Int) :=
  let (n, d) := scale (x.1 * y.1) 1 (x.2 + y.2)
  ofRatio n d

/-- The quotient of two nonnegative doubles, rounded. The divisor is not zero. -/
def div (x y : Nat × Int) : Option (Nat × Int) :=
  let (n, d) := scale x.1 y.1 (x.2 - y.2)
  ofRatio n d

/-- The number of decimal places that one multiplication or division by a power of ten moves. -/
def greatestPower : Nat := 308

/-- `significand · 10 ^ exponent` by way of doubles: the significand is rounded first, then the
power of ten, then their product or quotient. Far below one the division is done in steps of
`greatestPower`. None when the number is too great. -/
def ofScientific (significand : Nat) (exponent : Int) : Option (Nat × Int) := do
  let start ← ofNat significand
  go ((-exponent).toNat / greatestPower) start exponent
where
  power (k : Nat) : Option (Nat × Int) := ofNat (Nat.pow 10 k)
  go (steps : Nat) (x : Nat × Int) (exponent : Int) : Option (Nat × Int) :=
    if x.1 = 0 then some x
    else if 0 ≤ exponent then
      if exponent ≤ greatestPower then do mul x (← power exponent.toNat) else none
    else if -exponent ≤ greatestPower then do div x (← power (-exponent).toNat)
    else match steps with
      | 0 => some x
      | steps + 1 => do go steps (← div x (← power greatestPower)) (exponent + greatestPower)

end Binary64

end SchemaDialects
