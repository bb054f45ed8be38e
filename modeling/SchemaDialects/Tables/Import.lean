import SchemaDialects.Json.Printer
import SchemaDialects.Model.Exchange
import SchemaDialects.Model.Group
import SchemaDialects.Tables.Document

/-!
# Schemas from table documents

The schema `public` is the empty namespace. Fields carry keys and unique indexes of one column;
references are turned so that they point at the one they refer to.
-/

namespace SchemaDialects.Tables

/-- The schema that need not be named. -/
def defaultSchema : String := "public"

/-- The namespace of what stands in a schema. -/
def spaceOf : Option String → Namespace
  | none => {}
  | some schema => if schema = "" ∨ schema = defaultSchema then {} else { schema := some schema }

/-! ### Tables -/

/-- A type of another schema is qualified by it. -/
def FieldType.text (t : FieldType) : String :=
  match t.schema with
  | some schema => if schema = defaultSchema then t.name else schema ++ "." ++ t.name
  | none => t.name

/-- A default value as it is written in a definition. -/
def DefaultValue.text (d : DefaultValue) : String :=
  let raw := match d.value with
    | .str s => s
    | value => Json.compact value
  match d.kind with
  | .string => "'" ++ String.ofList (Text.replaceChar '\'' ['\'', '\''] raw.toList) ++ "'"
  | _ => raw

/-- The mark of a field that numbers itself. -/
def autoIncrementKey : String := "autoIncrement"

def Field.attribute (f : Field) : Attribute where
  name := f.name
  type := f.type.text
  nullable := !f.notNull && !f.inKey
  defaultValue := f.defaultValue.map (·.text)
  doc := f.note
  extra := if f.increment then [(autoIncrementKey, .bool true)] else []

def TableIndex.texts (i : TableIndex) (kind : ColumnKind) : List String :=
  (i.columns.filter (·.kind = kind)).map (·.text)

def TableIndex.attrs (i : TableIndex) : List AttributePath :=
  (i.texts .column).map fun name => [name]

def TableIndex.index (i : TableIndex) : Index :=
  let expressions := i.texts .expression
  { name := i.name
    attrs := i.attrs
    unique := i.unique
    definition := if expressions.isEmpty then none else some (", ".intercalate expressions)
    doc := i.note }

/-- The primary key: that of the last index which is one, or that of the fields. -/
def Table.primaryKey (t : Table) : Option PrimaryKey :=
  match t.indexes.reverse.find? (·.isKey) with
  | some i => some { name := i.name, attrs := i.attrs }
  | none =>
    let fields := (t.fields.filter (·.inKey)).map fun f => [f.name]
    if fields.isEmpty then none else some { attrs := fields }

def Table.entity (space : Namespace) (t : Table) : Entity :=
  let ofFields : List Index := (t.fields.filter (·.unique)).map fun f =>
    { attrs := [[f.name]], unique := true }
  let key := t.primaryKey
  let inKey (name : String) := (key.map (·.attrs)).getD [] |>.any fun path => path.headD "" == name
  { space
    name := t.name
    attrs := (t.fields.map Field.attribute).map fun a =>
      if inKey a.name then { a with nullable := false } else a
    primaryKey := key
    indexes := ofFields ++ (t.indexes.filter (!·.isKey)).map TableIndex.index
    doc := t.note }

def Enum.type (space : Namespace) (e : Enum) : NamedType :=
  { space, name := e.name, values := some (e.values.map (·.name)), doc := e.note }

/-! ### References -/

def Endpoint.link (e : Endpoint) : Link where
  entity := { space := spaceOf e.schema, name := e.table }
  attrs := e.fields.map fun name => [name]
  cardinality := some (if e.relation = "1" then .one else .many)

/-- Whether the link names the whole primary key of its entity, in order. -/
def isKeyOf (db : Database) (l : Link) : Bool :=
  match (db.entity? l.entity).bind (·.primaryKey) with
  | some key => key.attrs == l.attrs
  | none => false

/-- Whether a reference points at its first end: that one is unique, and of two unique ends it alone is
a primary key. -/
def pointsAtFirst (db : Database) (first second : Link) : Bool :=
  match first.cardinality, second.cardinality with
  | some .one, some .many => true
  | some .one, some .one => isKeyOf db first && !isKeyOf db second
  | _, _ => false

def Reference.relation (db : Database) (r : Reference) : Relation :=
  let first := r.endpoints.1.link
  let second := r.endpoints.2.link
  let (source, target) := if pointsAtFirst db first second then (second, first) else (first, second)
  { name := r.name, source, target, onDelete := r.onDelete, onUpdate := r.onUpdate }

/-! ### Documents -/

def TableGroup.group (g : TableGroup) : Group where
  name := g.name
  entities := g.tables.map fun t => { space := spaceOf t.schema, name := t.name }

/-- The schema that a document describes. -/
def Document.database (d : Document) : Database :=
  let db : Database := {
    entities := d.schemas.flatMap fun s => s.tables.map (Table.entity (spaceOf (some s.name)))
    types := d.schemas.flatMap fun s => s.enums.map (Enum.type (spaceOf (some s.name)))
    extra :=
      if d.groups.isEmpty then []
      else [(Group.key, Group.metadata (d.groups.map TableGroup.group))] }
  { db with relations := d.references.map (Reference.relation db) }

/-- Reads a table document as a schema. -/
def readSchema (text : String) : Parsed Database :=
  (readJson decodeDocument text).andThen fun document =>
    let db := document.database
    { value := some db, diagnostics := db.validate }

end SchemaDialects.Tables
