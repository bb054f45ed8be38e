import SchemaDialects.Model.Codec
import SchemaDialects.Sql.Statement

/-!
# Summaries of statements

One form for all statements, for tools that show them: the command, what family it belongs to, what
it does, and the tables, fields and joins it speaks of.
-/

namespace SchemaDialects.Sql

inductive Language
  | definition
  | query
  | manipulation
  | control
  | transaction
  | unknown
  deriving DecidableEq, Repr

def Language.name : Language → String
  | .definition => "DDL"
  | .query => "DQL"
  | .manipulation => "DML"
  | .control => "DCL"
  | .transaction => "TCL"
  | .unknown => "unknown"

inductive Operation
  | schema
  | read
  | write
  | transaction
  | unknown
  deriving DecidableEq, Repr

def Operation.name : Operation → String
  | .schema => "schema"
  | .read => "read"
  | .write => "write"
  | .transaction => "transaction"
  | .unknown => "unknown"

structure TableSummary where
  /-- The alias if there is one, else the name. -/
  name : String
  /-- The name of a table that has an alias. -/
  table : Option String
  position : Position

structure FieldSummary where
  name : String
  scope : Option String
  expression : String
  position : Position

structure JoinSummary where
  kind : JoinKind
  table : TableSummary
  condition : Option String

/-- What a statement speaks of. -/
structure Subject where
  command : String
  tables : List TableSummary := []
  fields : List FieldSummary := []
  joins : List JoinSummary := []

structure Summary extends Subject where
  language : Language
  operation : Operation
  position : Position

def QualifiedName.position (n : QualifiedName) : Position :=
  Position.merge (n.parts.map (·.position))

def TableSummary.ofRef (t : TableRef) : TableSummary :=
  match t.asName with
  | some asName => ⟨asName.value, some t.name.text, t.position⟩
  | none => ⟨t.name.text, none, t.position⟩

def TableSummary.ofName (n : QualifiedName) : TableSummary :=
  ⟨n.text, none, n.position⟩

def FieldSummary.ofField : SelectField → FieldSummary
  | .wildcard scope position => ⟨"*", scope.map (·.value), "*", position⟩
  | .expression scope e _ name position => ⟨name, scope.map (·.value), e.text, position⟩

/-- The family of a command and what it does, by its first word. -/
def classify (command : String) : Language × Operation :=
  match String.ofList (command.toList.takeWhile (· ≠ ' ')) with
  | "SELECT" | "WITH" | "SHOW" | "EXPLAIN" => (.query, .read)
  | "INSERT" | "UPDATE" | "DELETE" | "MERGE" | "COPY" | "UPSERT" => (.manipulation, .write)
  | "CREATE" | "ALTER" | "DROP" | "TRUNCATE" | "COMMENT" | "RENAME" => (.definition, .schema)
  | "GRANT" | "REVOKE" => (.control, .schema)
  | "BEGIN" | "START" | "COMMIT" | "ROLLBACK" | "SAVEPOINT" | "RELEASE" | "END" =>
    (.transaction, .transaction)
  | _ => (.unknown, .unknown)

/-- The table of a commented table or column. -/
def commentedTable : CommentTarget → TableSummary
  | .table name => .ofName name
  | .column name =>
    match name.splitColumn? with
    | some (entity, _) => ⟨entity.render, none, name.position⟩
    | none => .ofName name

def Statement.subject : Statement → Subject
  | .select s => {
      command := "SELECT"
      tables := s.tables.map .ofRef
      fields := s.fields.map .ofField
      joins := s.joins.map fun j => ⟨j.kind, .ofRef j.table, j.condition.map (·.text)⟩ }
  | .createTable s => {
      command := "CREATE TABLE"
      tables := [.ofName s.name]
      fields := s.columns.map fun c => ⟨c.name.value, none, c.type.text, c.position⟩ }
  | .alterTable s => { command := "ALTER TABLE", tables := [.ofName s.table] }
  | .createIndex s => { command := "CREATE INDEX", tables := [.ofName s.table] }
  | .createType _ => { command := "CREATE TYPE" }
  | .commentOn s => { command := "COMMENT", tables := [commentedTable s.target] }
  | .update s => {
      command := "UPDATE"
      tables := [.ofRef s.table]
      fields := s.assignments.map fun a =>
        ⟨a.column.value, none, a.value.text, a.column.position.upTo a.value.position⟩ }
  | .unmodelled s => { command := s.command }

def Statement.summary (s : Statement) : Summary :=
  let subject := s.subject
  let (language, operation) := classify subject.command
  { subject with language, operation, position := s.position }

/-! ### As JSON -/

open Json

def TableSummary.encode (t : TableSummary) : Json :=
  Json.record [
    always "name" (.str t.name),
    ifSome "table" .str t.table,
    always "position" t.position.encode]

def FieldSummary.encode (f : FieldSummary) : Json :=
  Json.record [
    always "name" (.str f.name),
    ifSome "scope" .str f.scope,
    always "expression" (.str f.expression),
    always "position" f.position.encode]

def JoinSummary.encode (j : JoinSummary) : Json :=
  Json.record [
    always "kind" (.str j.kind.text),
    always "table" j.table.encode,
    ifSome "on" .str j.condition]

def Summary.encode (s : Summary) : Json :=
  Json.record [
    always "command" (.str s.command),
    always "language" (.str s.language.name),
    always "operation" (.str s.operation.name),
    ifMany "tables" TableSummary.encode s.tables,
    ifMany "fields" FieldSummary.encode s.fields,
    ifMany "joins" JoinSummary.encode s.joins,
    always "position" s.position.encode]

end SchemaDialects.Sql
