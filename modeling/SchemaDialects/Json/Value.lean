import SchemaDialects.Decimal.Shortest

/-!
# JSON values

The values of free-form metadata and of every text that is exchanged as JSON. Numbers are integers
or doubles and never mix; the members of an object keep the order in which they are listed.
-/

namespace SchemaDialects

inductive Json where
  | null
  | bool (value : Bool)
  | int (value : Int)
  | float (value : Binary64)
  | str (value : String)
  | arr (items : List Json)
  | obj (members : List (String × Json))
  deriving Inhabited

namespace Json

mutual

/-- Equality of values: an integer never equals a double, and the two zeros are one number. -/
def equal : Json → Json → Bool
  | .null, .null => true
  | .bool a, .bool b => a == b
  | .int a, .int b => a == b
  | .float a, .float b => a.equal b
  | .str a, .str b => a == b
  | .arr as, .arr bs => equalItems as bs
  | .obj as, .obj bs => equalMembers as bs
  | _, _ => false

def equalItems : List Json → List Json → Bool
  | [], [] => true
  | a :: as, b :: bs => equal a b && equalItems as bs
  | _, _ => false

def equalMembers : List (String × Json) → List (String × Json) → Bool
  | [], [] => true
  | (k, a) :: as, (l, b) :: bs => k == l && equal a b && equalMembers as bs
  | _, _ => false

end

instance : BEq Json := ⟨equal⟩

/-- Free-form members in ascending order of their names, each name once. -/
abbrev Extra := List (String × Json)

/-- Puts a member at its place; an earlier value of that name is replaced. -/
def insertMember (name : String) (value : Json) : Extra → Extra
  | [] => [(name, value)]
  | (k, v) :: rest =>
    if name < k then (name, value) :: (k, v) :: rest
    else if name = k then (name, value) :: rest
    else (k, v) :: insertMember name value rest

/-- The members in order, the last of each name. -/
def sortMembers (members : List (String × Json)) : Extra :=
  members.foldl (fun sorted m => insertMember m.1 m.2 sorted) []

mutual

/-- The value as metadata: the members of every object in order. -/
def sorted : Json → Json
  | .arr items => .arr (sortedItems items)
  | .obj members => .obj (sortMembers (sortedMembers members))
  | value => value

def sortedItems : List Json → List Json
  | [] => []
  | v :: vs => sorted v :: sortedItems vs

def sortedMembers : List (String × Json) → List (String × Json)
  | [] => []
  | (k, v) :: ms => (k, sorted v) :: sortedMembers ms

end

/-- The value of the member `name` of an object. -/
def member? (name : String) : Json → Option Json
  | .obj members => members.lookup name
  | _ => none

/-- Doubles in JSON: positional from 0.00001 to below 10¹⁶, else with a signed exponent. -/
def floatLayout : Binary64.Layout := ⟨-5, 15, true⟩

end Json

end SchemaDialects
