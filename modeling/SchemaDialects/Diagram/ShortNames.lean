import SchemaDialects.Text.Letter

/-!
# Short names

Diagrams that allow few characters in a name need a substitute for each entity. Two entities whose
substitutes would be equal are told apart by a number.
-/

namespace SchemaDialects.Diagram

/-- The name with every character replaced that is not allowed. -/
def sanitize (allowed : Char → Bool) (s : String) : String :=
  s.map fun c => if Text.isAlphanumeric c || allowed c then c else '_'

def isNameMark (c : Char) : Bool := c = '_' || c = '-'

/-- The substitutes given so far, the latest first. -/
structure ShortNames where
  given : List (String × String) := []
  deriving DecidableEq, Repr

namespace ShortNames

/-- The choices for a substitute: the plain one, then the same with the numbers from two. -/
def candidate (base : String) : Nat → String
  | 0 => base
  | n + 1 => base ++ "_" ++ toString (n + 2)

/-- The first choice that is not taken. One of more choices than are taken is free. -/
def firstFree (taken : List String) (base : String) : String :=
  (((List.range (taken.length + 1)).map (candidate base)).find? (!taken.contains ·)).getD base

/-- The substitute for `id`, which is found now unless it was given before. -/
def get (names : ShortNames) (id : String) : String × ShortNames :=
  match names.given.lookup id with
  | some name => (name, names)
  | none =>
    let name := firstFree (names.given.map (·.2)) (sanitize isNameMark id)
    (name, ⟨(id, name) :: names.given⟩)

/-- The substitutes for all `ids`, given in order. -/
def ofIds (ids : List String) : ShortNames :=
  ids.foldl (fun names id => (names.get id).2) {}

end ShortNames

end SchemaDialects.Diagram
