import SchemaDialects.Diagram.Mermaid
import SchemaDialects.Markdown.Table

/-!
# Schemas as documents

Documentation in Markdown: a table of attributes for each entity, the types, and a diagram.
-/

namespace SchemaDialects.Markdown

open Diagram (Column Detail Graph Node)

def constraints (c : Column) : String :=
  ", ".intercalate
    ((if c.inKey then ["PK"] else []) ++ (if c.isReference then ["FK"] else []) ++
      (if c.nullable then [] else ["not null"]))

def columnRow (c : Column) : Row :=
  [c.name, c.type, constraints c, c.doc.getD ""]

def attributeHeader : Row := ["Attribute", "Type", "Constraints", "Description"]

def entityLines (n : Node) : List String :=
  ["", "### " ++ n.label] ++ n.doc.toList.flatMap (fun doc => ["", doc]) ++
    if n.columns.isEmpty then []
    else "" :: tableLines attributeHeader (n.columns.map columnRow)

def typeLine (t : NamedType) : String :=
  let body := match t.values, t.definition with
    | some values, _ => ": " ++ ", ".intercalate values
    | none, some definition => ": `" ++ definition ++ "`"
    | none, none => ""
  "- **" ++ t.id.render ++ "**" ++ body

/-- A heading with content below it, or nothing. -/
def chapter (heading : String) (content : List String) : List String :=
  if content.isEmpty then [] else ["", "## " ++ heading] ++ content

def title (db : Database) : String :=
  (db.stats.bind (·.name)).getD "Database schema"

/-- Writes the documentation of a schema. -/
def writeSchema (db : Database) (detail : Detail) : String :=
  let graph := Graph.ofDatabase db detail
  let types := db.types.map typeLine
  let diagram := ["", "```mermaid"] ++ Diagram.Mermaid.lines graph ++ ["```"]
  Text.ofLines (["# " ++ title db] ++ chapter "Entities" (graph.nodes.flatMap entityLines) ++
    chapter "Types" (if types.isEmpty then [] else "" :: types) ++ chapter "Diagram" diagram)

end SchemaDialects.Markdown
