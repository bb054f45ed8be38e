import SchemaDialects.Diagram.Graph
import SchemaDialects.Diagram.ShortNames
import SchemaDialects.Text.Lines
import SchemaDialects.Text.Search

/-!
# Schema graphs in Mermaid

Entity relationship diagrams with crow's feet.
-/

namespace SchemaDialects.Diagram.Mermaid

def isWordMark (c : Char) : Bool :=
  isNameMark c || c = '(' || c = ')' || c = '[' || c = ']'

/-- The name or type of an attribute. -/
def word (s : String) : String := sanitize isWordMark s

/-- A text in quotes. -/
def quoted (s : String) : String :=
  "\"" ++ String.ofList (Text.replaceChar '"' ['\''] s.toList) ++ "\""

def columnLine (c : Column) : String :=
  let keys := (if c.inKey then ["PK"] else []) ++ (if c.isReference then ["FK"] else [])
  "        " ++ word c.type ++ " " ++ word c.name ++
    (if keys.isEmpty then "" else " " ++ ", ".intercalate keys) ++
    (match c.doc with | some doc => " " ++ quoted doc | none => "")

def blockLines (names : ShortNames) (n : Node) : List String :=
  ["    " ++ (names.get n.id).1 ++ " \x7b"] ++ n.columns.map columnLine ++ ["    \x7d"]

def sourceFoot : Cardinality → String
  | .one => "||"
  | .many => "\x7do"

def targetFoot : Cardinality → String
  | .one => "||"
  | .many => "o\x7b"

def edgeLine (names : ShortNames) (e : Edge) : String :=
  "    " ++ (names.get e.source).1 ++ " " ++ sourceFoot e.sourceCardinality ++ "--" ++
    targetFoot e.targetCardinality ++ " " ++ (names.get e.target).1 ++ " : " ++
    quoted (e.label.getD "")

def lines (g : Graph) : List String :=
  let names := ShortNames.ofIds (g.nodes.map (·.id))
  ["erDiagram"] ++ g.nodes.flatMap (blockLines names) ++ g.edges.map (edgeLine names)

/-- Writes a graph. -/
def write (g : Graph) : String := Text.ofLines (lines g)

end SchemaDialects.Diagram.Mermaid
