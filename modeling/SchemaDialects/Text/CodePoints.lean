/-!
# Sets of code points

A class of characters as the Unicode Standard tabulates them: ranges in ascending order. The
table keeps only the points at which membership changes, so a lookup is one walk along the list.
-/

namespace SchemaDialects.Text

/-- A set of code points. Membership changes at each point of the ascending list `turns`; before
the first of them it is empty. -/
structure CodePoints where
  turns : List Nat

namespace CodePoints

/-- Whether `n` has passed an odd number of turns. -/
def inside : List Nat → Nat → Bool
  | [], _ => false
  | turn :: rest, n => if n < turn then false else !inside rest n

def contains (set : CodePoints) (c : Char) : Bool :=
  inside set.turns c.toNat

end CodePoints

end SchemaDialects.Text
