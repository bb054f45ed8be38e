import SchemaDialects.Sql.Token
import SchemaDialects.Text.Case
import SchemaDialects.Text.Search

/-!
# Flavors of SQL

Which dialect of SQL a script is written in, and how each of them quotes names.
-/

namespace SchemaDialects.Sql

inductive Flavor
  /-- To be told from the script when reading; generic when writing. -/
  | auto
  | generic
  | postgres
  | mysql
  deriving DecidableEq, Repr

namespace Flavor

def ofTag? (tag : String) : Option Flavor :=
  match Text.lowercase tag with
  | "auto" => some .auto
  | "generic" | "sql" => some .generic
  | "postgres" | "postgresql" => some .postgres
  | "mysql" => some .mysql
  | _ => none

def name : Flavor → String
  | .auto => "auto"
  | .generic => "generic"
  | .postgres => "postgres"
  | .mysql => "mysql"

/-- Texts that tell a flavor, the more telling ones first: what dumps begin with, then words and
signs that only one flavor has. -/
def markers : List (Flavor × List String) := [
  (.postgres, ["postgresql database dump", "pg_dump", "-- postgres"]),
  (.mysql, ["mysql dump", "mysqldump", "-- mysql", "mariadb dump"]),
  (.postgres, ["serial", "text[]", "::", "timestamptz", "comment on ", "jsonb", "create type"]),
  (.mysql, ["auto_increment", "tinyint", "engine=", "unsigned", "`"])]

/-- The flavor of the first marker list of which a text occurs in the script. -/
def detect (script : String) : Flavor :=
  let lower := (Text.lowercase script).toList
  match markers.find? fun entry => entry.2.any fun mark => Text.occurs mark.toList lower with
  | some (flavor, _) => flavor
  | none => .generic

def resolve (flavor : Flavor) (script : String) : Flavor :=
  if flavor = .auto then detect script else flavor

def quoteChar : Flavor → Char
  | .mysql => '`'
  | _ => '"'

/-- Lower-case ASCII words, which need no quotes unless they spell a keyword. -/
def isPlainName (name : String) : Bool :=
  match name.toList with
  | [] => false
  | c :: cs => (c.isLower || c = '_') && cs.all fun d => d.isLower || d.isDigit || d = '_'

/-- The name as an identifier, in quotes where that is needed. -/
def quoteName (flavor : Flavor) (name : String) : String :=
  if isPlainName name && (Keyword.ofWord? name).isNone then name
  else
    let q := flavor.quoteChar
    String.ofList (q :: Text.replaceChar q [q, q] name.toList ++ [q])

end Flavor

/-- The text as a string literal, with quotes doubled. -/
def stringLiteral (s : String) : String :=
  String.ofList ('\'' :: Text.replaceChar '\'' ['\'', '\''] s.toList ++ ['\''])

end SchemaDialects.Sql
