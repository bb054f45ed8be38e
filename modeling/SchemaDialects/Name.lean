import SchemaDialects.Text.Escaped
import SchemaDialects.Text.Search

/-!
# Names

Qualified names of entities and types and their textual form. Segments are separated by dots and
read from the right: the last one is the innermost name, those before it fill schema, catalog
and database. A segment that is not a plain word stands in double quotes, with quotes inside it
doubled; an absent segment is written as nothing, an empty one as a pair of quotes.
-/

namespace SchemaDialects

/-! ### Quoting -/

def isPlainChar (c : Char) : Bool :=
  c.isAlphanum || c = '_'

/-- Whether the name can be written without quotes. -/
def isPlain (name : String) : Bool :=
  !name.isEmpty && name.toList.all isPlainChar

def doubleQuotes : List Char → List Char
  | [] => []
  | c :: cs => if c = '"' then '"' :: '"' :: doubleQuotes cs else c :: doubleQuotes cs

/-- The name as it is written inside a qualified name. -/
def quote (name : String) : String :=
  if isPlain name then name else String.ofList ('"' :: doubleQuotes name.toList ++ ['"'])

/-- Splits at every `sep` that stands outside double quotes. The pieces keep their quotes. -/
def splitUnquotedChars (sep : Char) (inQuotes : Bool) : List Char → List (List Char)
  | [] => [[]]
  | c :: cs =>
    if c ≠ '"' ∧ c = sep ∧ !inQuotes then [] :: splitUnquotedChars sep inQuotes cs
    else
      match splitUnquotedChars sep (if c = '"' then !inQuotes else inQuotes) cs with
      | [] => [[c]]
      | piece :: pieces => (c :: piece) :: pieces

def splitUnquoted (s : String) (sep : Char) : List String :=
  (splitUnquotedChars sep false s.toList).map String.ofList

/-- What stands before and after the first `target` outside double quotes. -/
def breakUnquoted (target : Char) (inQuotes : Bool) : List Char → Option (List Char × List Char)
  | [] => none
  | c :: cs =>
    if c = '"' then (breakUnquoted target (!inQuotes) cs).map fun (a, b) => (c :: a, b)
    else if c = target ∧ !inQuotes then some ([], cs)
    else (breakUnquoted target inQuotes cs).map fun (a, b) => (c :: a, b)

/-! ### Segments -/

/-- Where a reader of segments is: in a segment without quotes so far, inside quotes, or behind the
closing quote. -/
inductive SegmentState
  | bare
  | inQuotes
  | closed
  deriving DecidableEq

/-- A segment without quotes is present only if it has characters. -/
def SegmentState.finish (state : SegmentState) (current : List Char) : Option String :=
  if state = .bare && current.isEmpty then none else some (String.ofList current.reverse)

/-- The segments of `cs`; `current` holds the characters of the one being read, in reverse. -/
def readSegments (state : SegmentState) (current : List Char) : List Char → List (Option String)
  | [] => [state.finish current]
  | c :: cs =>
    match state with
    | .inQuotes =>
      match c, cs with
      | '"', '"' :: rest => readSegments .inQuotes ('"' :: current) rest
      | '"', rest => readSegments .closed current rest
      | c, rest => readSegments .inQuotes (c :: current) rest
    | _ =>
      if c = '"' ∧ state = .bare ∧ current.isEmpty then readSegments .inQuotes current cs
      else if c = '.' then state.finish current :: readSegments .bare [] cs
      else readSegments state (c :: current) cs

def splitSegments (s : String) : List (Option String) :=
  readSegments .bare [] s.toList

def renderSegment : Option String → String
  | some name => quote name
  | none => ""

def renderSegments (segments : List (Option String)) : String :=
  ".".intercalate (segments.map renderSegment)

/-! ### Namespaces, entities and types -/

structure Namespace where
  database : Option String := none
  catalog : Option String := none
  schema : Option String := none
  deriving DecidableEq, Repr, Inhabited

namespace Namespace

def empty : Namespace := {}

/-- The outermost present field and everything inside it. -/
def segments (n : Namespace) : List (Option String) :=
  [n.database, n.catalog, n.schema].dropWhile Option.isNone

/-- The three innermost of the segments, given from the innermost outwards. -/
def ofReversed : List (Option String) → Namespace
  | [] => {}
  | [schema] => { schema }
  | [schema, catalog] => { schema, catalog }
  | schema :: catalog :: database :: _ => { schema, catalog, database }

def ofSegments (segments : List (Option String)) : Namespace :=
  ofReversed segments.reverse

def render (n : Namespace) : String :=
  renderSegments n.segments

def parse (s : String) : Namespace :=
  ofSegments (splitSegments s)

/-- Absent fields come first, then by name, the database deciding before the rest. -/
instance : Ord Namespace where
  compare := compareLex (compareOn (·.database))
    (compareLex (compareOn (·.catalog)) (compareOn (·.schema)))

end Namespace

/-- The last segment as a name and the rest as its namespace. -/
def splitNamed (s : String) : String × Namespace :=
  match (splitSegments s).reverse with
  | [] => ("", {})
  | name :: outer => (name.getD "", Namespace.ofReversed outer)

structure EntityName where
  space : Namespace := {}
  name : String
  deriving DecidableEq, Repr, Inhabited

namespace EntityName

def render (e : EntityName) : String :=
  renderSegments (e.space.segments ++ [some e.name])

def parse (s : String) : EntityName :=
  let (name, space) := splitNamed s
  { space, name }

instance : Ord EntityName where
  compare := compareLex (compareOn (·.space)) (compareOn (·.name))

end EntityName

structure TypeName where
  space : Namespace := {}
  name : String
  deriving DecidableEq, Repr, Inhabited

namespace TypeName

def render (t : TypeName) : String :=
  renderSegments (t.space.segments ++ [some t.name])

def parse (s : String) : TypeName :=
  let (name, space) := splitNamed s
  { space, name }

instance : Ord TypeName where
  compare := compareLex (compareOn (·.space)) (compareOn (·.name))

end TypeName

/-! ### Attributes -/

/-- The way to a possibly nested attribute, one name a level. -/
abbrev AttributePath := List String

namespace AttributePath

def render (path : AttributePath) : String :=
  ".".intercalate path

def parse (s : String) : AttributePath :=
  (Text.splitAt '.' s.toList).map String.ofList

end AttributePath

structure AttributeName where
  entity : EntityName
  path : AttributePath
  deriving DecidableEq, Repr

namespace AttributeName

def render (a : AttributeName) : String :=
  a.entity.render ++ "(" ++ a.path.render ++ ")"

/-- Reads `entity(path)`; none when the parentheses are missing. -/
def parse? (s : String) : Option AttributeName := do
  let (entity, rest) ← breakUnquoted '(' false s.toList
  let path ← Text.dropTail? [')'] rest
  return { entity := .parse (String.ofList entity), path := .parse (String.ofList path) }

/-- What is to be said about a text that is no attribute name. -/
def missingPath (s : String) : String :=
  "Missing attribute path in " ++ Text.quoted s ++ ", expected `entity(attribute)`"

end AttributeName

end SchemaDialects
