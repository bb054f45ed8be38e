import SchemaDialects.Model
import SchemaDialects.Sql.DataType
import SchemaDialects.WriteError

/-!
# Schemas as SQL

Types, then each table with its indexes and comments, then the foreign keys as changes of tables, so
that tables may refer to each other in any order.
-/

namespace SchemaDialects.Sql

/-- A unique index that is written at its column. -/
def isColumnUnique (path : AttributePath) (i : Index) : Bool :=
  i.unique && i.name.isNone && i.condition.isNone && i.definition.isNone && i.attrs == [path]

/-- A unique index that is written as a constraint of its table. -/
def isTableUnique (i : Index) : Bool :=
  i.unique && i.condition.isNone && i.definition.isNone && !i.attrs.isEmpty &&
    !(i.name.isNone && i.attrs.length == 1)

/-- A unique index on one column, whichever it is. -/
def isOwnColumnUnique (i : Index) : Bool :=
  match i.attrs with
  | [path] => isColumnUnique path i
  | _ => false

namespace Flavor

def qualified (f : Flavor) (space : Namespace) (name : String) : String :=
  let outer := [space.database, space.catalog, space.schema].filterMap id
  ".".intercalate ((outer ++ [name]).map f.quoteName)

def qualifiedEntity (f : Flavor) (e : EntityName) : String := f.qualified e.space e.name

/-- The columns of a list; of a nested attribute the outermost one. -/
def columnList (f : Flavor) (attrs : List AttributePath) : String :=
  ", ".intercalate (attrs.map fun path => f.quoteName (path.headD ""))

/-- The name of a constraint in front of it. -/
def constraintName (f : Flavor) : Option String → String
  | some name => "CONSTRAINT " ++ f.quoteName name ++ " "
  | none => ""

/-- A type, or nothing where the flavor writes enumerations at their columns. -/
def typeText (f : Flavor) (t : NamedType) : Except WriteError String :=
  let name := f.qualified t.space t.name
  match t.values, t.definition with
  | some values, _ =>
    if f = .mysql then .ok ""
    else .ok ("CREATE TYPE " ++ name ++ " AS ENUM (" ++
      ", ".intercalate (values.map stringLiteral) ++ ");\n")
  | none, some definition =>
    if f = .mysql then .error (.compositeType t.id)
    else .ok ("CREATE TYPE " ++ name ++ " AS (" ++ definition ++ ");\n")
  | none, none =>
    if f = .mysql then .error (.shellType t.id) else .ok ("CREATE TYPE " ++ name ++ ";\n")

/-- The type of a column. MySQL spells enumerations out. -/
def columnType (f : Flavor) (types : List NamedType) (attr : Attribute) : String :=
  let values := (types.find? (·.name == attr.type)).bind (·.values)
  match f, values with
  | .mysql, some values => "enum(" ++ ",".intercalate (values.map stringLiteral) ++ ")"
  | _, _ => spellType attr.type f

/-- Whether the metadata say that the column numbers itself. -/
def isAutoIncrement (attr : Attribute) : Bool :=
  match attr.extra.lookup "autoIncrement" with
  | some (.bool b) => b
  | _ => false

def autoIncrementText : Flavor → String
  | .mysql => " AUTO_INCREMENT"
  | .postgres => " GENERATED BY DEFAULT AS IDENTITY"
  | _ => ""

def columnText (f : Flavor) (types : List NamedType) (e : Entity) (attr : Attribute) : String :=
  let unnamedKey := (e.primaryKey.map (·.name.isNone)).getD false
  let keyText :=
    if e.isWholeKey [attr.name] && unnamedKey then " PRIMARY KEY"
    else if attr.nullable then "" else " NOT NULL"
  let numbering := if isAutoIncrement attr then f.autoIncrementText else ""
  let value := match attr.defaultValue with
    | some text =>
      if attr.generated then " GENERATED ALWAYS AS (" ++ text ++ ") STORED" else " DEFAULT " ++ text
    | none => ""
  let unique := if e.indexes.any (isColumnUnique [attr.name]) then " UNIQUE" else ""
  let comment := match f, attr.doc with
    | .mysql, some doc => " COMMENT " ++ stringLiteral doc
    | _, _ => ""
  f.quoteName attr.name ++ " " ++ f.columnType types attr ++ keyText ++ numbering ++ value ++
    unique ++ comment

/-- The primary key, unless it is written at its column. -/
def keyLines (f : Flavor) (e : Entity) : List String :=
  match e.primaryKey with
  | none => []
  | some key =>
    let atColumn := match key.attrs with
      | [path] => key.name.isNone && e.hasAttribute path
      | _ => false
    if atColumn then []
    else [f.constraintName key.name ++ "PRIMARY KEY (" ++ f.columnList key.attrs ++ ")"]

def constraintLines (f : Flavor) (e : Entity) : List String :=
  f.keyLines e ++
    ((e.indexes.filter isTableUnique).map fun i =>
      f.constraintName i.name ++ "UNIQUE (" ++ f.columnList i.attrs ++ ")") ++
    (e.checks.map fun c => f.constraintName c.name ++ "CHECK (" ++ c.predicate ++ ")")

/-- The name of an index with a space in front. MySQL demands a name. -/
def indexName (f : Flavor) (e : Entity) (i : Index) : String :=
  match i.name with
  | some name => " " ++ f.quoteName name
  | none =>
    if f = .mysql then
      let columns := i.attrs.map fun path => path.headD ""
      " " ++ f.quoteName (e.name ++ "_" ++ "_".intercalate columns ++ "_idx")
    else ""

def indexText (f : Flavor) (e : Entity) (i : Index) : String :=
  "CREATE " ++ (if i.unique then "UNIQUE " else "") ++ "INDEX" ++ f.indexName e i ++ " ON " ++
    f.qualifiedEntity e.id ++ " (" ++ i.definition.getD (f.columnList i.attrs) ++ ")" ++
    (match i.condition with | some c => " WHERE " ++ c | none => "") ++ ";\n"

/-- Comments as statements, for flavors that do not write them at their columns. -/
def commentTexts (f : Flavor) (e : Entity) : List String :=
  if f = .mysql then []
  else
    let table := f.qualifiedEntity e.id
    let own := e.doc.toList.map fun doc =>
      "COMMENT ON TABLE " ++ table ++ " IS " ++ stringLiteral doc ++ ";\n"
    own ++ e.attrs.flatMap fun attr => attr.doc.toList.map fun doc =>
      "COMMENT ON COLUMN " ++ table ++ "." ++ f.quoteName attr.name ++ " IS " ++
        stringLiteral doc ++ ";\n"

def tableText (f : Flavor) (types : List NamedType) (e : Entity) : String :=
  let lines := e.attrs.map (f.columnText types e) ++ f.constraintLines e
  let head := "CREATE TABLE " ++ f.qualifiedEntity e.id ++ " ("
  let body := if lines.isEmpty then ");\n" else "\n  " ++ ",\n  ".intercalate lines ++ "\n);\n"
  let indexes := e.indexes.filter fun i => !(isOwnColumnUnique i || isTableUnique i)
  head ++ body ++ String.join (indexes.map (f.indexText e)) ++ String.join (f.commentTexts e)

def relationText (f : Flavor) (r : Relation) : String :=
  let action (event : String) : Option String → String
    | some a => " ON " ++ event ++ " " ++ Text.uppercase a
    | none => ""
  "ALTER TABLE " ++ f.qualifiedEntity r.source.entity ++ " ADD " ++ f.constraintName r.name ++
    "FOREIGN KEY (" ++ f.columnList r.source.attrs ++ ") REFERENCES " ++
    f.qualifiedEntity r.target.entity ++ " (" ++ f.columnList r.target.attrs ++ ")" ++
    action "DELETE" r.onDelete ++ action "UPDATE" r.onUpdate ++ ";\n"

end Flavor

/-- Writes a schema; a flavor to be detected counts as generic. -/
def writeSchema (db : Database) (flavor : Flavor) : Except WriteError String := do
  let f := if flavor = .auto then .generic else flavor
  let types := String.join (← db.types.mapM f.typeText)
  let relations := String.join (db.relations.map f.relationText)
  let section_ (text : String) := if text.isEmpty then [] else [text]
  return "\n".intercalate
    (section_ types ++ db.entities.map (f.tableText db.types) ++ section_ relations)

end SchemaDialects.Sql
