import SchemaDialects.Sql.Flavor

/-!
# Spelling of data types

Reading maps the names that a flavor has for one type to a single spelling; writing maps that
spelling to a name the flavor has. Parameters and suffixes stay.
-/

namespace SchemaDialects.Sql

/-- Spellings of one type, for flavors other than MySQL. -/
def postgresName : String → String
  | "int" | "int4" | "integer" => "int"
  | "bigint" | "int8" => "bigint"
  | "smallint" | "int2" => "smallint"
  | "serial" | "serial4" => "serial"
  | "bigserial" | "serial8" => "bigserial"
  | "smallserial" | "serial2" => "smallserial"
  | "real" | "float4" => "real"
  | "double precision" | "float8" | "double" => "double precision"
  | "decimal" | "numeric" => "numeric"
  | "varchar" | "character varying" => "varchar"
  | "char" | "character" | "bpchar" => "char"
  | "timestamp" | "timestamp without time zone" => "timestamp"
  | "timestamptz" | "timestamp with time zone" => "timestamptz"
  | "time" | "time without time zone" => "time"
  | "timetz" | "time with time zone" => "timetz"
  | "boolean" | "bool" => "boolean"
  | base => base

/-- Spellings of one type in MySQL, where a boolean is an integer of one digit. -/
def mysqlName (base parameters : String) : String :=
  match base with
  | "int" | "integer" => "int"
  | "tinyint" => if parameters == "(1)" then "boolean" else "tinyint"
  | "bool" | "boolean" => "boolean"
  | "double precision" | "double" => "double"
  | "decimal" | "numeric" | "dec" => "decimal"
  | "character varying" | "varchar" => "varchar"
  | "character" | "char" => "char"
  | base => base

/-- Drops the space behind a comma. -/
def tightenCommas : List Char → List Char
  | ',' :: ' ' :: cs => ',' :: tightenCommas cs
  | c :: cs => c :: tightenCommas cs
  | [] => []

/-- The name of a type and what follows it: parameters, which keep their case, or a modifier. -/
def splitType (type : String) : String × String :=
  let chars := Text.collapseBlanks type.toList
  let isBracket := fun c => c = '(' || c = '['
  if chars.any isBracket then
    let base := chars.takeWhile (!isBracket ·)
    (Text.lowercase (Text.trim (String.ofList base)),
      String.ofList (tightenCommas (chars.dropWhile (!isBracket ·))))
  else
    let lower := Text.lowercase (String.ofList chars)
    match Text.dropTail? " unsigned".toList lower.toList with
    | some base => (String.ofList base, " unsigned")
    | none => (lower, "")

/-- The one spelling of a data type. -/
def normalizeType (type : String) (flavor : Flavor) : String :=
  let (base, rest) := splitType type
  let mapped := if flavor = .mysql then mysqlName base rest else postgresName base
  if mapped == "boolean" && base == "tinyint" then mapped else mapped ++ rest

/-- The data type as the flavor spells it. -/
def spellType (type : String) (flavor : Flavor) : String :=
  let lower := Text.lowercase type
  if flavor = .mysql then
    match lower with
    | "boolean" | "bool" => "tinyint(1)"
    | "uuid" => "char(36)"
    | "timestamptz" => "timestamp"
    | "jsonb" => "json"
    | "bytea" => "blob"
    | "double precision" => "double"
    | _ => if (Text.dropTail? "[]".toList lower.toList).isSome then "json" else type
  else if lower == "datetime" then "timestamp"
  else type

end SchemaDialects.Sql
