import SchemaDialects.Text.Search

/-!
# Well-known types

The names of types that a schema need not declare.
-/

namespace SchemaDialects.Markup

def knownTypes : List String :=
  ["unknown",
    "uuid",
    "char", "character", "nchar", "varchar", "character varying", "nvarchar", "string",
    "text", "tinytext", "mediumtext", "longtext", "citext",
    "int", "integer", "tinyint", "smallint", "mediumint", "bigint", "int2", "int4", "int8",
    "serial", "smallserial", "bigserial",
    "number", "numeric", "decimal", "real", "float", "float4", "float8", "double",
    "double precision", "money",
    "bool", "boolean", "bit",
    "timestamp", "timestamptz", "timestamp with time zone", "timestamp without time zone",
    "datetime", "date", "time", "timetz", "interval", "year",
    "json", "jsonb", "xml",
    "bytea", "blob", "binary", "varbinary",
    "inet", "cidr", "macaddr",
    "enum", "set",
    "geometry", "point"]

/-- The name of a type in small letters, without parameters, array brackets and sign. -/
def baseName (type : String) : String :=
  let lower := (Text.trim type).toLower.toList
  let base := (Text.dropTails "[]".toList lower).takeWhile (· ≠ '(')
  let unsigned := Text.dropTails " unsigned".toList (Text.stripWhile Text.isBlank base)
  String.ofList (Text.stripWhile Text.isBlank unsigned)

def isKnownType (type : String) : Bool :=
  knownTypes.contains (baseName type)

end SchemaDialects.Markup
