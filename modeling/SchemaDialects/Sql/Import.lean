import SchemaDialects.Diagnostic
import SchemaDialects.Model
import SchemaDialects.Sql.DataType
import SchemaDialects.Sql.Script
import SchemaDialects.Sql.Summary

/-!
# Schemas from statements

Definitions are carried out one after the other on a growing schema. Foreign keys wait until all
tables are known, so that one without columns can take the primary key it refers to.
-/

namespace SchemaDialects.Sql

/-! ### Remarks -/

/-- What is remarkable about a definition. -/
inductive Remark
  | ignoredStatement (command : String)
  | ignoredAction (text : String)
  | unknownTable (id : EntityName)
  | duplicateTable (id : EntityName)
  | unknownKeyColumn (path : AttributePath)
  | commentWithoutTable (name : String)
  | unknownColumn (id : EntityName) (path : AttributePath)
  | unknownReference (id : EntityName)
  deriving DecidableEq, Repr

namespace Remark

def level : Remark → Level
  | .ignoredStatement _ | .ignoredAction _ => .info
  | _ => .warning

def kind : Remark → DiagnosticKind
  | .ignoredStatement _ => .unsupportedStatement
  | .ignoredAction _ => .ignoredConstruct
  | .unknownTable _ | .unknownReference _ => .unknownEntity
  | .duplicateTable _ => .duplicateEntity
  | .unknownKeyColumn _ | .commentWithoutTable _ | .unknownColumn .. => .unknownAttribute

def message : Remark → String
  | .ignoredStatement command => "Ignored " ++ command ++ " statement"
  | .ignoredAction text => "Ignored ALTER TABLE action: " ++ text
  | .unknownTable id => "Unknown table " ++ id.render
  | .duplicateTable id =>
    "Table " ++ id.render ++ " is already defined, keeping the first definition"
  | .unknownKeyColumn path => "Primary key uses unknown column " ++ AttributePath.render path
  | .commentWithoutTable name => "Column comment needs a table: " ++ name
  | .unknownColumn id path => "Unknown column " ++ id.render ++ "." ++ AttributePath.render path
  | .unknownReference id => "Foreign key references unknown table " ++ id.render

def diagnostic (r : Remark) (position : Position) : Diagnostic :=
  ⟨r.level, r.kind, r.message, position⟩

end Remark

/-- A foreign key that waits for its table. -/
structure PendingKey where
  relation : Relation
  position : Position

/-- What carrying out a definition leaves behind besides its table. -/
structure Trace where
  pending : List PendingKey := []
  remarks : List Diagnostic := []

def Trace.append (a b : Trace) : Trace :=
  ⟨a.pending ++ b.pending, a.remarks ++ b.remarks⟩

instance : Append Trace := ⟨Trace.append⟩

def Trace.remark (r : Remark) (position : Position) : Trace :=
  { remarks := [r.diagnostic position] }

/-! ### Tables -/

def columnPaths (columns : List Identifier) : List AttributePath :=
  columns.map fun c => [c.value]

def nameOf (name : Option Identifier) : Option String := name.map (·.value)

/-- The foreign key from `attrs` of a table to what `target` says. -/
def foreignKey (table : EntityName) (attrs : List AttributePath) (name : Option String)
    (target : ForeignKeyRef) (position : Position) : Trace :=
  let relation := Relation.manyToOne table attrs target.table.entityName (columnPaths target.columns)
  { pending := [⟨{ relation with
      name
      onDelete := target.onDelete.map (·.text)
      onUpdate := target.onUpdate.map (·.text) }, position⟩] }

/-- The mark of a column that numbers itself. -/
def autoIncrementKey : String := "autoIncrement"

/-- A column under construction and the table it belongs to. -/
structure ColumnState where
  table : Entity
  attr : Attribute
  trace : Trace := {}

def ColumnState.apply (s : ColumnState) (c : ColumnConstraint) : ColumnState :=
  let name := nameOf c.name
  let path : AttributePath := [s.attr.name]
  match c.rule with
  | .notNull => { s with attr := { s.attr with nullable := false } }
  | .null => { s with attr := { s.attr with nullable := true } }
  | .primaryKey => { s with
      attr := { s.attr with nullable := false }
      table := { s.table with primaryKey := some { name, attrs := [path] } } }
  | .unique => { s with
      table := { s.table with indexes := s.table.indexes ++ [{ name, attrs := [path], unique := true }] } }
  | .autoIncrement => { s with
      attr := { s.attr with extra := Json.insertMember autoIncrementKey (.bool true) s.attr.extra } }
  | .default e => { s with attr := { s.attr with defaultValue := some e.text } }
  | .check e => { s with
      table := { s.table with checks := s.table.checks ++ [{ name, attrs := [path], predicate := e.text }] } }
  | .references target => { s with
      trace := s.trace ++ foreignKey s.table.id [path] name target c.position }
  | .generated e => { s with attr := { s.attr with generated := true, defaultValue := some e.text } }
  | .comment text => { s with attr := { s.attr with doc := some text } }

/-- Adds a column to a table. Columns may be null unless something says otherwise. -/
def addColumn (flavor : Flavor) (table : Entity) (column : ColumnDef) : Entity × Trace :=
  let attr : Attribute :=
    { name := column.name.value, type := normalizeType column.type.text flavor, nullable := true }
  let s := column.constraints.foldl ColumnState.apply { table, attr }
  ({ s.table with attrs := s.table.attrs ++ [s.attr] }, s.trace)

/-- Makes a column of the primary key not null. -/
def requireColumn (position : Position) (state : Entity × Trace) (path : AttributePath) :
    Entity × Trace :=
  let (table, trace) := state
  if table.hasAttribute path then
    let attrs := modifyAttribute (fun a => { a with nullable := false }) table.attrs path
    ({ table with attrs }, trace)
  else (table, trace ++ .remark (.unknownKeyColumn path) position)

/-- Adds a constraint to a table. -/
def addConstraint (table : Entity) (c : TableConstraint) : Entity × Trace :=
  let name := nameOf c.name
  match c.rule with
  | .primaryKey columns =>
    let attrs := columnPaths columns
    let (table, trace) := attrs.foldl (requireColumn c.position) (table, {})
    ({ table with primaryKey := some { name, attrs } }, trace)
  | .unique columns =>
    ({ table with indexes := table.indexes ++ [{ name, attrs := columnPaths columns, unique := true }] }, {})
  | .index columns =>
    ({ table with indexes := table.indexes ++ [{ name, attrs := columnPaths columns }] }, {})
  | .foreignKey columns target =>
    (table, foreignKey table.id (columnPaths columns) name target c.position)
  | .check e =>
    let own := e.columns.filter (·.scope.isNone)
    let attrs := (own.map fun column => [column.name]).filter table.hasAttribute
    ({ table with checks := table.checks ++ [{ name, attrs, predicate := e.text }] }, {})

/-- Carries out steps on a table one after the other. -/
def runSteps {α : Type} (step : Entity → α → Entity × Trace) (table : Entity) (steps : List α) :
    Entity × Trace :=
  steps.foldl (fun (table, trace) a =>
    let (table, more) := step table a
    (table, trace ++ more)) (table, {})

/-- The table that a definition describes. -/
def buildTable (flavor : Flavor) (s : CreateTable) : Entity × Trace :=
  let id := s.name.entityName
  let (table, first) := runSteps (addColumn flavor) { space := id.space, name := id.name } s.columns
  let (table, second) := runSteps addConstraint table s.constraints
  (table, first ++ second)

def alterStep (flavor : Flavor) (table : Entity) : AlterAction → Entity × Trace
  | .addColumn column => addColumn flavor table column
  | .addConstraint constraint => addConstraint table constraint
  | .other text position => (table, .remark (.ignoredAction text) position)

/-- Adds an index. One over expressions keeps their texts beside the columns they use. -/
def addIndex (s : CreateIndex) (table : Entity) : Entity :=
  let simple := s.columns.all fun e => e.column?.isSome
  let own := (s.columns.flatMap (·.columns)).filter (·.scope.isNone)
  let index : Index := {
    name := nameOf s.name
    attrs := own.map fun column => [column.name]
    unique := s.unique
    condition := s.condition.map (·.text)
    definition := if simple then none else some (", ".intercalate (s.columns.map (·.text))) }
  { table with indexes := table.indexes ++ [index] }

/-! ### Schemas -/

/-- A schema under construction. -/
structure ImportState where
  tables : List Entity := []
  types : List NamedType := []
  trace : Trace := {}

namespace ImportState

def find? (s : ImportState) (id : EntityName) : Option Entity :=
  s.tables.find? (·.id == id)

def note (s : ImportState) (r : Remark) (position : Position) : ImportState :=
  { s with trace := s.trace ++ .remark r position }

/-- Changes the table `id`, or remarks that there is none. -/
def change (s : ImportState) (id : EntityName) (position : Position) (f : Entity → Entity × Trace) :
    ImportState :=
  match s.find? id with
  | none => s.note (.unknownTable id) position
  | some table =>
    let (changed, more) := f table
    { s with
      tables := modifyFirst (·.id == id) (fun _ => changed) s.tables
      trace := s.trace ++ more }

def createTable (flavor : Flavor) (s : ImportState) (c : CreateTable) : ImportState :=
  let id := c.name.entityName
  match s.find? id with
  | some _ => s.note (.duplicateTable id) c.name.position
  | none =>
    let (table, more) := buildTable flavor c
    { s with tables := s.tables ++ [table], trace := s.trace ++ more }

/-- A field of a composite type as text. -/
def fieldText (flavor : Flavor) (column : ColumnDef) : String :=
  column.name.value ++ " " ++ normalizeType column.type.text flavor

def createType (flavor : Flavor) (s : ImportState) (c : CreateType) : ImportState :=
  let id := c.name.entityName
  let type : NamedType := { space := id.space, name := id.name }
  let type := match c.definition with
    | .enumeration values => { type with values := some values }
    | .composite columns =>
      { type with definition := some (", ".intercalate (columns.map (fieldText flavor))) }
    | .shell => type
  { s with types := s.types ++ [type] }

def commentOn (s : ImportState) (c : CommentOn) : ImportState :=
  match c.target with
  | .table name =>
    s.change name.entityName name.position fun table => ({ table with doc := c.text }, {})
  | .column name =>
    match name.splitColumn? with
    | none => s.note (.commentWithoutTable name.text) name.position
    | some (id, column) =>
      s.change id name.position fun table =>
        if table.hasAttribute [column] then
          let attrs := modifyAttribute (fun a => { a with doc := c.text }) table.attrs [column]
          ({ table with attrs }, {})
        else (table, .remark (.unknownColumn id [column]) name.position)

def statement (flavor : Flavor) (s : ImportState) : Statement → ImportState
  | .createTable c => s.createTable flavor c
  | .alterTable a =>
    s.change a.table.entityName a.table.position fun table =>
      runSteps (alterStep flavor) table a.actions
  | .createIndex c => s.change c.table.entityName c.table.position fun table => (addIndex c table, {})
  | .createType c => s.createType flavor c
  | .commentOn c => s.commentOn c
  | .select _ | .update _ => s
  | .unmodelled u => s.note (.ignoredStatement u.command) u.position

/-- The column a foreign key refers to when nothing names one. -/
def fallbackKey : List AttributePath := [["id"]]

/-- Fills in the columns that a foreign key leaves out. -/
def resolve (s : ImportState) (key : PendingKey) : Relation × List Diagnostic :=
  let target := key.relation.target
  match s.find? target.entity with
  | some table =>
    let implied := (table.primaryKey.map (·.attrs)).getD fallbackKey
    let attrs := if target.attrs.isEmpty then implied else target.attrs
    ({ key.relation with target := { target with attrs } }, [])
  | none =>
    let attrs := if target.attrs.isEmpty then fallbackKey else target.attrs
    ({ key.relation with target := { target with attrs } },
      [(Remark.unknownReference target.entity).diagnostic key.position])

def finish (s : ImportState) : Parsed Database :=
  let resolved := s.trace.pending.map s.resolve
  { value := some {
      entities := s.tables
      relations := resolved.map (·.1)
      types := s.types }
    diagnostics := s.trace.remarks ++ resolved.flatMap (·.2) }

end ImportState

/-- The schema that the statements define. Queries are passed over. -/
def importStatements (statements : List Statement) (flavor : Flavor) : Parsed Database :=
  (statements.foldl (ImportState.statement flavor) {}).finish

/-- Reads a script as a schema. -/
def readSchema (script : String) (flavor : Flavor) : Parsed Database :=
  (readStatements script).andThen fun statements =>
    importStatements statements (flavor.resolve script)

end SchemaDialects.Sql
