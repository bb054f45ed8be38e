import SchemaDialects.Decimal.Binary64

/-!
# Shortest decimals

The decimal that stands for a double is the one with the fewest digits that reads back as that
double, and of those the nearest. `decimal` finds it, `Layout` decides how it is written.
-/

namespace SchemaDialects.Binary64

/-- The reals that round to a double, over one common denominator. The ends belong to the interval
iff the significand is even. -/
structure Interval where
  low : Nat
  value : Nat
  high : Nat
  denominator : Nat
  closed : Bool

/-- The interval of `m · 2 ^ e` for positive `m`. Below a power of two the gap is half as wide. -/
def interval (m : Nat) (e : Int) : Interval :=
  let narrow := m == Nat.pow 2 52 && leastExponent < e
  let (unit, den) := scale 1 4 e
  ⟨(4 * m - (if narrow then 1 else 2)) * unit, 4 * m * unit, (4 * m + 2) * unit, den, m % 2 == 0⟩

/-- Whether `d · 10 ^ p` rounds to the double. -/
def Interval.holds (i : Interval) (d : Nat) (p : Int) : Bool :=
  let left := if 0 ≤ p then d * Nat.pow 10 p.toNat * i.denominator else d * i.denominator
  let unit := if 0 ≤ p then 1 else Nat.pow 10 (-p).toNat
  if i.closed then i.low * unit ≤ left && left ≤ i.high * unit
  else i.low * unit < left && left < i.high * unit

/-- The point of the grid of step `10 ^ p` that is nearest to the value among its two neighbours
that round to the double; a tie goes to the even digit. -/
def Interval.nearest? (i : Interval) (p : Int) : Option Nat :=
  let (num, den) :=
    if 0 ≤ p then (i.value, i.denominator * Nat.pow 10 p.toNat)
    else (i.value * Nat.pow 10 (-p).toNat, i.denominator)
  let below := num / den
  let twice := 2 * (num % den)
  let preferBelow := twice < den || (twice == den && below % 2 == 0)
  match i.holds below p && 0 < below, i.holds (below + 1) p with
  | true, true => some (if preferBelow then below else below + 1)
  | true, false => some below
  | false, true => some (below + 1)
  | false, false => none

/-- The place of the leading digit of `num / den`: the greatest `k` with `10 ^ k ≤ num / den`. -/
def leadingPlace (num den : Nat) : Int :=
  if den ≤ num then ((Nat.toDigits 10 (num / den)).length : Int) - 1
  else
    let k := (Nat.toDigits 10 (den / num)).length
    if den ≤ num * Nat.pow 10 (k - 1) then -((k : Int) - 1) else -(k : Int)

/-- Tries grids from coarse to fine; `left` bounds their number. -/
def Interval.search (i : Interval) : (left : Nat) → (p : Int) → Nat × Int
  | 0, p => ((i.nearest? p).getD 0, p)
  | left + 1, p =>
    match i.nearest? p with
    | some d => (d, p)
    | none => search i left (p - 1)

/-- The digits and the place of the last of them, for a positive significand. Seventeen digits
always suffice. -/
def decimal (m : Nat) (e : Int) : Nat × Int :=
  let i := interval m e
  let (d, p) := i.search 17 (leadingPlace i.value i.denominator)
  dropZeros 17 d p
where
  dropZeros : Nat → Nat → Int → Nat × Int
    | 0, d, p => (d, p)
    | n + 1, d, p => if d % 10 = 0 then dropZeros n (d / 10) (p + 1) else (d, p)

/-- How a decimal is written. -/
structure Layout where
  /-- Places of the leading digit that are written positionally. -/
  leastPlain : Int
  greatestPlain : Int
  /-- Whether a positive exponent carries its sign. -/
  plusSign : Bool

/-- The number as text. Positional notation has at least one digit after the point. -/
def format (form : Layout) (x : Binary64) : String :=
  let sign := if x.negative then "-" else ""
  if x.significand = 0 then sign ++ "0.0"
  else
    let (d, p) := decimal x.significand x.exponent
    let digits := Nat.toDigits 10 d
    let place := p + digits.length - 1
    let body : List Char :=
      if form.leastPlain ≤ place ∧ place ≤ form.greatestPlain then
        if 0 ≤ p then digits ++ List.replicate p.toNat '0' ++ ['.', '0']
        else if 0 ≤ place then
          digits.take (place.toNat + 1) ++ '.' :: digits.drop (place.toNat + 1)
        else '0' :: '.' :: List.replicate (-place - 1).toNat '0' ++ digits
      else
        let fraction := if digits.length = 1 then [] else '.' :: digits.drop 1
        let mark := if place < 0 then ['-'] else if form.plusSign then ['+'] else []
        digits.take 1 ++ fraction ++ 'e' :: mark ++ Nat.toDigits 10 place.natAbs
    sign ++ String.ofList body

end SchemaDialects.Binary64
