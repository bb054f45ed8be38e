import SchemaDialects.Text.Blank

/-!
# Searching and cutting

Looking for one text inside another, at its ends or anywhere.
-/

namespace SchemaDialects.Text

/-- Whether `cs` begins with `head`, and what follows it. -/
def dropHead? : (head cs : List Char) → Option (List Char)
  | [], cs => some cs
  | _ :: _, [] => none
  | h :: hs, c :: cs => if h = c then dropHead? hs cs else none

/-- What stands before a final `tail`. -/
def dropTail? (tail cs : List Char) : Option (List Char) :=
  (dropHead? tail.reverse cs.reverse).map List.reverse

/-- Removes up to `n` copies of `tail` from the end. -/
def dropTailsUpTo (tail : List Char) : Nat → List Char → List Char
  | 0, cs => cs
  | n + 1, cs =>
    match dropTail? tail cs with
    | some rest => dropTailsUpTo tail n rest
    | none => cs

/-- Removes `tail` from the end as often as it stands there: a text has no more copies of it than
characters. -/
def dropTails (tail cs : List Char) : List Char :=
  dropTailsUpTo tail cs.length cs

/-- The text before the first occurrence of `mark`. -/
def before? (mark : List Char) : List Char → Option (List Char)
  | [] => if mark.isEmpty then some [] else none
  | c :: cs =>
    if (dropHead? mark (c :: cs)).isSome then some [] else (before? mark cs).map (c :: ·)

/-- Whether `needle` stands somewhere in `cs`. -/
def occurs (needle cs : List Char) : Bool :=
  (before? needle cs).isSome

/-- What stands before and after the first character that satisfies `p`. -/
def breakAt? (p : Char → Bool) : List Char → Option (List Char × List Char)
  | [] => none
  | c :: cs => if p c then some ([], cs) else (breakAt? p cs).map fun (a, b) => (c :: a, b)

/-- Every `c` becomes `by`. -/
def replaceChar (c : Char) (by_ : List Char) (cs : List Char) : List Char :=
  cs.flatMap fun d => if d = c then by_ else [d]

/-- Splits at every `sep`; the pieces are one more than the separators. -/
def splitAt (sep : Char) (cs : List Char) : List (List Char) :=
  pieces (· = sep) cs

example : splitAt '.' "a..b".toList = ["a".toList, [], "b".toList] := by decide
example : dropTails "[]".toList "int[][]".toList = "int".toList := by decide

end SchemaDialects.Text
