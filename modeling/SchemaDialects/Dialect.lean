import SchemaDialects.Diagram.Dot
import SchemaDialects.Markdown.Document
import SchemaDialects.Markup.Reader
import SchemaDialects.Markup.Writer
import SchemaDialects.Sql.Import
import SchemaDialects.Sql.Writer
import SchemaDialects.Tables.Export

/-!
# Dialects

The forms in which a schema can be written, and those in which it can be read. Diagrams lose too much
to be read again.
-/

namespace SchemaDialects

inductive Dialect
  | aml
  /-- SQL of a flavor to be told from the text. -/
  | sql
  | postgres
  | mysql
  /-- The model itself. -/
  | json
  /-- The table document. -/
  | ast
  | dot
  | mermaid
  | markdown
  deriving DecidableEq, Repr

namespace Dialect

/-- All dialects in the order in which they are listed. -/
def all : List Dialect := [aml, sql, postgres, mysql, json, ast, dot, mermaid, markdown]

def name : Dialect → String
  | aml => "aml"
  | sql => "sql"
  | postgres => "postgres"
  | mysql => "mysql"
  | json => "json"
  | ast => "ast"
  | dot => "dot"
  | mermaid => "mermaid"
  | markdown => "markdown"

/-- The dialect called `tag` in any case. -/
def ofTag? (tag : String) : Option Dialect :=
  match Text.lowercase tag with
  | "aml" => some aml
  | "sql" => some sql
  | "postgres" | "postgresql" => some postgres
  | "mysql" => some mysql
  | "json" => some json
  | "ast" => some ast
  | "dot" | "graphviz" => some dot
  | "mermaid" => some mermaid
  | "markdown" | "md" => some markdown
  | _ => none

/-- How a text of the dialect is read, if it can be. -/
def reader? : Dialect → Option (String → Parsed Database)
  | aml => some Markup.readSchema
  | sql => some (Sql.readSchema · .auto)
  | postgres => some (Sql.readSchema · .postgres)
  | mysql => some (Sql.readSchema · .mysql)
  | json => some Database.readExchange
  | ast => some Tables.readSchema
  | dot | mermaid | markdown => none

def canRead (d : Dialect) : Bool := d.reader?.isSome

def readable : List Dialect := all.filter canRead

/-- What cannot be read for want of a reader. -/
def unsupported {α : Type} (message : String) : Parsed α :=
  .failure [{ level := .error, kind := .unsupportedDialect, message }]

/-- Reads a schema. -/
def read (d : Dialect) (text : String) : Parsed Database :=
  match d.reader? with
  | some reader => reader text
  | none => unsupported (d.name ++ " can only be generated")

/-- Reads a schema in the dialect called `tag`. -/
def readTagged (tag text : String) : Parsed Database :=
  match ofTag? tag with
  | some d => d.read text
  | none => unsupported ("Unknown dialect " ++ tag)

/-- Writes a schema; the detail matters to diagrams only. -/
def write (d : Dialect) (db : Database) (detail : Diagram.Detail) : Except WriteError String :=
  match d with
  | aml => .ok (Markup.writeSchema db)
  | sql => Sql.writeSchema db .generic
  | postgres => Sql.writeSchema db .postgres
  | mysql => Sql.writeSchema db .mysql
  | json => .ok db.writeExchange
  | ast => Tables.writeSchema db
  | dot => .ok (Diagram.Dot.write (.ofDatabase db detail))
  | mermaid => .ok (Diagram.Mermaid.write (.ofDatabase db detail))
  | markdown => .ok (Markdown.writeSchema db detail)

theorem mem_all (d : Dialect) : d ∈ all := by
  cases d <;> decide

end Dialect

end SchemaDialects
