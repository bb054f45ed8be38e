import SchemaDialects.Diagram.Graph
import SchemaDialects.Text.Lines

/-!
# Schema graphs in DOT

A record for each node and a cluster for each group.
-/

namespace SchemaDialects.Diagram.Dot

/-- Puts a backslash in front of the characters that satisfy `p`. -/
def escapeIf (p : Char → Bool) (s : String) : String :=
  String.ofList (s.toList.flatMap fun c => if p c then ['\\', c] else [c])

/-- What has a meaning inside a quoted string. -/
def isStringMark (c : Char) : Bool := c = '\\' || c = '"'

/-- What has a meaning inside the label of a record. -/
def isRecordMark (c : Char) : Bool :=
  isStringMark c || "\x7b\x7d|<>".toList.contains c

def quoted (s : String) : String :=
  "\"" ++ escapeIf isStringMark s ++ "\""

def columnLabel (c : Column) : String :=
  escapeIf isRecordMark c.name ++ " : " ++ escapeIf isRecordMark c.type ++
    (if c.inKey then " PK" else "") ++ (if c.isReference then " FK" else "") ++
    (if c.nullable then "?" else "")

/-- The label of a node: its name, and its columns behind a bar, each aligned to the left. -/
def recordLabel (n : Node) : String :=
  let columns := String.join (n.columns.map fun c => columnLabel c ++ "\\l")
  "\x7b" ++ escapeIf isRecordMark n.label ++ (if n.columns.isEmpty then "" else "|" ++ columns) ++
    "\x7d"

def nodeLine (indent : String) (n : Node) : String :=
  indent ++ quoted n.id ++ " [label=\"" ++ recordLabel n ++ "\"];"

def clusterLines (g : Graph) (number : Nat) (group : String) : List String :=
  let members := g.nodes.filter (·.group == some group)
  ["", "  subgraph cluster_" ++ toString number ++ " \x7b", "    label=" ++ quoted group ++ ";"] ++
    members.map (nodeLine "    ") ++ ["  \x7d"]

def cardinalityText : Cardinality → String
  | .one => "1"
  | .many => "*"

def edgeLine (e : Edge) : String :=
  let label := match e.label with
    | some label => ", label=" ++ quoted label
    | none => ""
  "  " ++ quoted e.source ++ " -> " ++ quoted e.target ++
    " [taillabel=\"" ++ cardinalityText e.sourceCardinality ++
    "\", headlabel=\"" ++ cardinalityText e.targetCardinality ++ "\"" ++ label ++ "];"

/-- Lines behind a blank one, or nothing. -/
def paragraph (lines : List String) : List String :=
  if lines.isEmpty then [] else "" :: lines

def header : List String :=
  ["digraph schema \x7b",
    "  rankdir=LR;",
    "  node [shape=record, fontname=\"Helvetica\", fontsize=10];",
    "  edge [fontname=\"Helvetica\", fontsize=9];"]

/-- Writes a graph. -/
def write (g : Graph) : String :=
  let clusters := g.groups.zipIdx.flatMap fun (group, number) => clusterLines g number group
  let ungrouped := g.nodes.filter (·.group.isNone)
  Text.ofLines (header ++ clusters ++ paragraph (ungrouped.map (nodeLine "  ")) ++
    paragraph (g.edges.map edgeLine) ++ ["\x7d"])

end SchemaDialects.Diagram.Dot
