import SchemaDialects.Json.Printer
import SchemaDialects.Model.Group
import SchemaDialects.Tables.Import
import SchemaDialects.WriteError

/-!
# Schemas as table documents

Nested attributes have no field and are left out. Only enumerations have a place among the types.
-/

namespace SchemaDialects.Tables

/-- The name of a schema, unless it need not be named. -/
def schemaNameOf (space : Namespace) : Option String :=
  space.schema.filter (· != defaultSchema)

/-- Changes the schema called `name`, which is added if there is none. -/
def inSchema (name : String) (f : Schema → Schema) (schemas : List Schema) : List Schema :=
  if schemas.any (·.name == name) then modifyFirst (·.name == name) f schemas
  else schemas ++ [f { name }]

def schemaOf (space : Namespace) : String := space.schema.getD defaultSchema

/-! ### Default values -/

/-- Two apostrophes become one. -/
def undoubleApostrophes : List Char → List Char
  | '\'' :: '\'' :: cs => '\'' :: undoubleApostrophes cs
  | c :: cs => c :: undoubleApostrophes cs
  | [] => []

/-- A default value told apart by its text. -/
def DefaultValue.ofText (text : String) : DefaultValue :=
  match (Text.dropHead? ['\''] text.toList).bind (Text.dropTail? ['\'']) with
  | some inner => ⟨.string, .str (String.ofList (undoubleApostrophes inner))⟩
  | none =>
    match Json.number? text.toList with
    | some (.int n) => ⟨.number, .int n⟩
    | some (.float x) => ⟨.number, .float x⟩
    | _ =>
      if text = "true" then ⟨.boolean, .bool true⟩
      else if text = "false" then ⟨.boolean, .bool false⟩
      else ⟨.expression, .str text⟩

/-! ### Tables -/

/-- The only attribute of a primary key without a name. -/
def fieldKey? (e : Entity) : Option AttributePath :=
  match e.primaryKey with
  | some { name := none, attrs := [path] } => some path
  | _ => none

/-- Whether the index says no more than that the field `name` is unique. -/
def isFieldUnique (name : String) (i : Index) : Bool :=
  i.unique && i.name.isNone && i.definition.isNone && i.condition.isNone && i.doc.isNone &&
    i.attrs == [[name]]

/-- Whether the index says no more than that some field is unique. -/
def isAnyFieldUnique (i : Index) : Bool :=
  match i.attrs with
  | [path] => isFieldUnique (path.headD "") i
  | _ => false

def isAutoIncrement (attr : Attribute) : Bool :=
  match attr.extra.lookup autoIncrementKey with
  | some (.bool b) => b
  | _ => false

def Field.ofAttribute (e : Entity) (attr : Attribute) : Field where
  name := attr.name
  type := { name := attr.type }
  inKey := fieldKey? e == some [attr.name]
  unique := e.indexes.any (isFieldUnique attr.name)
  notNull := !attr.nullable
  increment := isAutoIncrement attr
  defaultValue := attr.defaultValue.map DefaultValue.ofText
  note := attr.doc

def columnsOf (attrs : List AttributePath) : List IndexColumn :=
  attrs.map fun path => ⟨.column, AttributePath.render path⟩

def TableIndex.ofIndex (i : Index) : TableIndex where
  name := i.name
  columns := columnsOf i.attrs ++ i.definition.toList.map fun text => ⟨.expression, text⟩
  unique := i.unique
  note := i.doc

/-- The primary key as an index, unless a field carries it. -/
def keyIndexes (e : Entity) : List TableIndex :=
  if (fieldKey? e).isSome then []
  else e.primaryKey.toList.map fun key =>
    { name := key.name, columns := columnsOf key.attrs, isKey := true }

def Table.ofEntity (e : Entity) : Table where
  name := e.name
  fields := e.attrs.map (Field.ofAttribute e)
  indexes := keyIndexes e ++ (e.indexes.filter (!isAnyFieldUnique ·)).map TableIndex.ofIndex
  note := e.doc

def Enum.ofType (t : NamedType) : Except WriteError Enum :=
  match t.values with
  | some values => .ok { name := t.name, values := values.map fun v => { name := v }, note := t.doc }
  | none => .error (.structuralType t.id)

/-! ### References and groups -/

def Endpoint.ofLink (l : Link) (implied : Cardinality) : Endpoint where
  schema := schemaNameOf l.entity.space
  table := l.entity.name
  fields := l.attrs.map AttributePath.render
  relation := match l.cardinality.getD implied with
    | .one => "1"
    | .many => "*"

def Reference.ofRelation (r : Relation) : Reference where
  name := r.name
  endpoints := (.ofLink r.source .many, .ofLink r.target .one)
  onDelete := r.onDelete
  onUpdate := r.onUpdate

def TableGroup.ofGroup (g : Group) : TableGroup where
  name := g.name
  tables := g.entities.map fun e => { schema := schemaNameOf e.space, name := e.name }

/-! ### Documents -/

def addEnum (schemas : List Schema) (item : Namespace × Enum) : List Schema :=
  inSchema (schemaOf item.1) (fun s => { s with enums := s.enums ++ [item.2] }) schemas

def addTable (schemas : List Schema) (e : Entity) : List Schema :=
  inSchema (schemaOf e.space) (fun s => { s with tables := s.tables ++ [.ofEntity e] }) schemas

/-- The document that describes a schema. -/
def Document.ofDatabase (db : Database) : Except WriteError Document := do
  let enums ← db.types.mapM fun t => (t.space, ·) <$> Enum.ofType t
  let groups ← db.groups.mapError .groups
  return {
    schemas := db.entities.foldl addTable (enums.foldl addEnum [])
    references := db.relations.map Reference.ofRelation
    groups := (groups.getD []).map TableGroup.ofGroup }

/-- Writes a schema as a table document. -/
def writeSchema (db : Database) : Except WriteError String := do
  let document ← Document.ofDatabase db
  return Json.pretty document.encode ++ "\n"

end SchemaDialects.Tables
