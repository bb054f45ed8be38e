import SchemaDialects.Json.Value

/-!
# Encoding as JSON

Records are written member by member in the order of their fields; fields at their usual value are
left out.
-/

namespace SchemaDialects.Json

/-- A member, or nothing when it is left out. -/
abbrev Member := Option (String × Json)

def always (name : String) (value : Json) : Member := some (name, value)

def ifSome {α : Type} (name : String) (encode : α → Json) (value : Option α) : Member :=
  value.map fun v => (name, encode v)

def ifTrue (name : String) (value : Bool) : Member :=
  if value then some (name, .bool true) else none

def ifMany {α : Type} (name : String) (encode : α → Json) (values : List α) : Member :=
  if values.isEmpty then none else some (name, .arr (values.map encode))

def ifExtra (name : String) (extra : Extra) : Member :=
  if extra.isEmpty then none else some (name, .obj extra)

def record (members : List Member) : Json :=
  .obj (members.filterMap id)

def strings (values : List String) : Json :=
  .arr (values.map .str)

def nat (n : Nat) : Json := .int n

/-- A value that may be absent, written as null. -/
def orNull {α : Type} (encode : α → Json) : Option α → Json
  | some v => encode v
  | none => .null

end SchemaDialects.Json
