import SchemaDialects.Json.Decode
import SchemaDialects.Json.Encode

/-!
# The table document

A relational form of schemas: tables with fields and enumerations inside schemas, references between
fields, and groups of tables. It is exchanged as JSON, one object a structure.
-/

namespace SchemaDialects.Tables

open Json

/-! ### Structures -/

structure FieldType where
  name : String
  schema : Option String := none

inductive DefaultKind
  | number
  | string
  | boolean
  | expression
  deriving DecidableEq, Repr

structure DefaultValue where
  kind : DefaultKind
  value : Json

structure Field where
  name : String
  type : FieldType
  inKey : Bool := false
  unique : Bool := false
  notNull : Bool := false
  increment : Bool := false
  defaultValue : Option DefaultValue := none
  note : Option String := none

inductive ColumnKind
  | column
  | expression
  deriving DecidableEq, Repr

/-- What an index is built on. -/
structure IndexColumn where
  kind : ColumnKind
  text : String
  deriving DecidableEq, Repr

structure TableIndex where
  name : Option String := none
  columns : List IndexColumn
  isKey : Bool := false
  unique : Bool := false
  note : Option String := none
  deriving DecidableEq, Repr

structure Table where
  name : String
  fields : List Field := []
  indexes : List TableIndex := []
  note : Option String := none

structure EnumValue where
  name : String
  note : Option String := none
  deriving DecidableEq, Repr

structure Enum where
  name : String
  values : List EnumValue
  note : Option String := none
  deriving DecidableEq, Repr

structure Schema where
  name : String
  tables : List Table := []
  enums : List Enum := []
  note : Option String := none

/-- One end of a reference. `relation` is `1` or a star. -/
structure Endpoint where
  schema : Option String := none
  table : String
  fields : List String
  relation : String
  deriving DecidableEq, Repr

structure Reference where
  name : Option String := none
  endpoints : Endpoint × Endpoint
  onDelete : Option String := none
  onUpdate : Option String := none
  deriving DecidableEq, Repr

structure GroupTable where
  schema : Option String := none
  name : String
  deriving DecidableEq, Repr

structure TableGroup where
  name : String
  tables : List GroupTable
  deriving DecidableEq, Repr

structure Document where
  schemas : List Schema := []
  references : List Reference := []
  groups : List TableGroup := []

/-! ### Fields -/

def FieldType.encode (t : FieldType) : Json :=
  Json.record [always "typeName" (.str t.name), ifSome "schemaName" .str t.schema]

def decodeFieldType : Decoder FieldType :=
  Record.decode "FieldType" <|
    FieldType.mk <$>
      Record.required "typeName" Decoder.string <*>
      Record.optional "schemaName" Decoder.string

def DefaultKind.name : DefaultKind → String
  | .number => "number"
  | .string => "string"
  | .boolean => "boolean"
  | .expression => "expression"

def decodeDefaultKind : Decoder DefaultKind :=
  Decoder.variant <|
    [DefaultKind.number, .string, .boolean, .expression].map fun k => (k.name, k)

def DefaultValue.encode (d : DefaultValue) : Json :=
  Json.record [always "type" (.str d.kind.name), always "value" d.value]

def decodeDefaultValue : Decoder DefaultValue :=
  Record.decode "DefaultNode" <|
    DefaultValue.mk <$>
      Record.required "type" decodeDefaultKind <*>
      Record.required "value" Decoder.any

def Field.encode (f : Field) : Json :=
  Json.record [
    always "name" (.str f.name),
    always "type" f.type.encode,
    ifTrue "pk" f.inKey,
    ifTrue "unique" f.unique,
    ifTrue "notNull" f.notNull,
    ifTrue "increment" f.increment,
    ifSome "dbdefault" DefaultValue.encode f.defaultValue,
    ifSome "note" .str f.note]

def decodeField : Decoder Field :=
  Record.decode "FieldNode" <|
    Field.mk <$>
      Record.required "name" Decoder.string <*>
      Record.required "type" decodeFieldType <*>
      Record.defaulted "pk" false Decoder.bool <*>
      Record.defaulted "unique" false Decoder.bool <*>
      Record.defaulted "notNull" false Decoder.bool <*>
      Record.defaulted "increment" false Decoder.bool <*>
      Record.optional "dbdefault" decodeDefaultValue <*>
      Record.optional "note" Decoder.string

/-! ### Indexes -/

def ColumnKind.name : ColumnKind → String
  | .column => "column"
  | .expression => "expression"

def decodeColumnKind : Decoder ColumnKind :=
  Decoder.variant <| [ColumnKind.column, .expression].map fun k => (k.name, k)

def IndexColumn.encode (c : IndexColumn) : Json :=
  Json.record [always "type" (.str c.kind.name), always "value" (.str c.text)]

def decodeIndexColumn : Decoder IndexColumn :=
  Record.decode "IndexColumn" <|
    IndexColumn.mk <$>
      Record.required "type" decodeColumnKind <*>
      Record.required "value" Decoder.string

def TableIndex.encode (i : TableIndex) : Json :=
  Json.record [
    ifSome "name" .str i.name,
    always "columns" (.arr (i.columns.map IndexColumn.encode)),
    ifTrue "pk" i.isKey,
    ifTrue "unique" i.unique,
    ifSome "note" .str i.note]

def decodeTableIndex : Decoder TableIndex :=
  Record.decode "IndexNode" <|
    TableIndex.mk <$>
      Record.optional "name" Decoder.string <*>
      Record.required "columns" (Decoder.list decodeIndexColumn) <*>
      Record.defaulted "pk" false Decoder.bool <*>
      Record.defaulted "unique" false Decoder.bool <*>
      Record.optional "note" Decoder.string

/-! ### Schemas -/

def Table.encode (t : Table) : Json :=
  Json.record [
    always "name" (.str t.name),
    always "fields" (.arr (t.fields.map Field.encode)),
    ifMany "indexes" TableIndex.encode t.indexes,
    ifSome "note" .str t.note]

def decodeTable : Decoder Table :=
  Record.decode "TableNode" <|
    Table.mk <$>
      Record.required "name" Decoder.string <*>
      Record.defaulted "fields" [] (Decoder.list decodeField) <*>
      Record.defaulted "indexes" [] (Decoder.list decodeTableIndex) <*>
      Record.optional "note" Decoder.string

def EnumValue.encode (v : EnumValue) : Json :=
  Json.record [always "name" (.str v.name), ifSome "note" .str v.note]

def decodeEnumValue : Decoder EnumValue :=
  Record.decode "EnumValue" <|
    EnumValue.mk <$>
      Record.required "name" Decoder.string <*>
      Record.optional "note" Decoder.string

def Enum.encode (e : Enum) : Json :=
  Json.record [
    always "name" (.str e.name),
    always "values" (.arr (e.values.map EnumValue.encode)),
    ifSome "note" .str e.note]

def decodeEnum : Decoder Enum :=
  Record.decode "EnumNode" <|
    Enum.mk <$>
      Record.required "name" Decoder.string <*>
      Record.required "values" (Decoder.list decodeEnumValue) <*>
      Record.optional "note" Decoder.string

def Schema.encode (s : Schema) : Json :=
  Json.record [
    always "name" (.str s.name),
    ifMany "tables" Table.encode s.tables,
    ifMany "enums" Enum.encode s.enums,
    ifSome "note" .str s.note]

def decodeSchema : Decoder Schema :=
  Record.decode "SchemaNode" <|
    Schema.mk <$>
      Record.required "name" Decoder.string <*>
      Record.defaulted "tables" [] (Decoder.list decodeTable) <*>
      Record.defaulted "enums" [] (Decoder.list decodeEnum) <*>
      Record.optional "note" Decoder.string

/-! ### References and groups -/

def Endpoint.encode (e : Endpoint) : Json :=
  Json.record [
    ifSome "schemaName" .str e.schema,
    always "tableName" (.str e.table),
    always "fieldNames" (strings e.fields),
    always "relation" (.str e.relation)]

def decodeEndpoint : Decoder Endpoint :=
  Record.decode "EndpointNode" <|
    Endpoint.mk <$>
      Record.optional "schemaName" Decoder.string <*>
      Record.required "tableName" Decoder.string <*>
      Record.required "fieldNames" (Decoder.list Decoder.string) <*>
      Record.required "relation" Decoder.string

def Reference.encode (r : Reference) : Json :=
  Json.record [
    ifSome "name" .str r.name,
    always "endpoints" (.arr [r.endpoints.1.encode, r.endpoints.2.encode]),
    ifSome "onDelete" .str r.onDelete,
    ifSome "onUpdate" .str r.onUpdate]

def decodeReference : Decoder Reference :=
  Record.decode "RefNode" <|
    Reference.mk <$>
      Record.optional "name" Decoder.string <*>
      Record.required "endpoints" (Decoder.pair decodeEndpoint) <*>
      Record.optional "onDelete" Decoder.string <*>
      Record.optional "onUpdate" Decoder.string

def GroupTable.encode (t : GroupTable) : Json :=
  Json.record [ifSome "schemaName" .str t.schema, always "name" (.str t.name)]

def decodeGroupTable : Decoder GroupTable :=
  Record.decode "GroupTable" <|
    GroupTable.mk <$>
      Record.optional "schemaName" Decoder.string <*>
      Record.required "name" Decoder.string

def TableGroup.encode (g : TableGroup) : Json :=
  Json.record [
    always "name" (.str g.name),
    always "tables" (.arr (g.tables.map GroupTable.encode))]

def decodeTableGroup : Decoder TableGroup :=
  Record.decode "TableGroupNode" <|
    TableGroup.mk <$>
      Record.required "name" Decoder.string <*>
      Record.required "tables" (Decoder.list decodeGroupTable)

def Document.encode (d : Document) : Json :=
  Json.record [
    always "schemas" (.arr (d.schemas.map Schema.encode)),
    ifMany "refs" Reference.encode d.references,
    ifMany "tableGroups" TableGroup.encode d.groups]

def decodeDocument : Decoder Document :=
  Record.decode "Document" <|
    Document.mk <$>
      Record.defaulted "schemas" [] (Decoder.list decodeSchema) <*>
      Record.defaulted "refs" [] (Decoder.list decodeReference) <*>
      Record.defaulted "tableGroups" [] (Decoder.list decodeTableGroup)

end SchemaDialects.Tables
