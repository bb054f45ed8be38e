import SchemaDialects.Name
import SchemaDialects.Sql.Expression
import SchemaDialects.Text.Case
import SchemaDialects.Text.Letter

/-!
# SQL statements

What the grammar makes of a script. Statements it has no form for are kept as text.
-/

namespace SchemaDialects.Sql

structure Identifier where
  value : String
  quoted : Bool
  position : Position
  deriving DecidableEq, Repr

/-- A dotted name of at least one part. -/
structure QualifiedName where
  parts : List Identifier
  deriving DecidableEq, Repr

namespace QualifiedName

def values (n : QualifiedName) : List String := n.parts.map (·.value)

def text (n : QualifiedName) : String := ".".intercalate n.values

/-- The last part. -/
def base (n : QualifiedName) : String := n.values.getLast?.getD ""

/-- The entity named by some parts: the last one is its name, those before it fill the namespace. -/
def entityOf (values : List String) : EntityName :=
  match values.reverse with
  | [] => { name := "" }
  | name :: outer => { space := .ofReversed (outer.map some), name }

def entityName (n : QualifiedName) : EntityName := entityOf n.values

/-- Table and column of a name with at least two parts. -/
def splitColumn? (n : QualifiedName) : Option (EntityName × String) :=
  match n.values.reverse with
  | column :: table :: outer => some (entityOf (table :: outer).reverse, column)
  | _ => none

end QualifiedName

structure TableRef where
  name : QualifiedName
  asName : Option Identifier
  position : Position
  deriving DecidableEq, Repr

/-- What the rest of a query calls this table. -/
def TableRef.reference (t : TableRef) : String :=
  (t.asName.map (·.value)).getD t.name.base

/-! ### Queries -/

inductive SelectField
  | wildcard (scope : Option Identifier) (position : Position)
  /-- `name` is the alias or, without one, the expression without quotes. -/
  | expression (scope : Option Identifier) (expression : Expression) (asName : Option Identifier)
      (name : String) (position : Position)
  deriving DecidableEq, Repr

inductive JoinKind
  | inner
  | left
  | right
  | full
  | cross
  deriving DecidableEq, Repr

def JoinKind.text : JoinKind → String
  | .inner => "INNER JOIN"
  | .left => "LEFT JOIN"
  | .right => "RIGHT JOIN"
  | .full => "FULL JOIN"
  | .cross => "CROSS JOIN"

structure Join where
  kind : JoinKind
  table : TableRef
  condition : Option Expression
  shared : List Identifier
  position : Position
  deriving DecidableEq, Repr

structure OrderBy where
  expression : Expression
  descending : Bool
  deriving DecidableEq, Repr

structure Select where
  distinct : Bool
  fields : List SelectField
  tables : List TableRef
  joins : List Join
  condition : Option Expression
  groupBy : List Expression
  having : Option Expression
  orderBy : List OrderBy
  limit : Option Expression
  offset : Option Expression
  position : Position
  deriving DecidableEq, Repr

/-! ### Definitions -/

/-- What happens to referring rows. -/
inductive ReferentialAction
  | cascade
  | restrict
  | setNull
  | setDefault
  | noAction
  deriving DecidableEq, Repr

def ReferentialAction.text : ReferentialAction → String
  | .cascade => "cascade"
  | .restrict => "restrict"
  | .setNull => "set null"
  | .setDefault => "set default"
  | .noAction => "no action"

structure ForeignKeyRef where
  table : QualifiedName
  columns : List Identifier
  onDelete : Option ReferentialAction
  onUpdate : Option ReferentialAction
  deriving DecidableEq, Repr

inductive ColumnRule
  | notNull
  | null
  | primaryKey
  | unique
  | autoIncrement
  | default (value : Expression)
  | check (condition : Expression)
  | references (target : ForeignKeyRef)
  | generated (value : Expression)
  | comment (text : String)
  deriving DecidableEq, Repr

structure ColumnConstraint where
  name : Option Identifier
  rule : ColumnRule
  position : Position
  deriving DecidableEq, Repr

structure DataType where
  text : String
  position : Position
  deriving DecidableEq, Repr

structure ColumnDef where
  name : Identifier
  type : DataType
  constraints : List ColumnConstraint
  position : Position
  deriving DecidableEq, Repr

inductive TableRule
  | primaryKey (columns : List Identifier)
  | unique (columns : List Identifier)
  | foreignKey (columns : List Identifier) (target : ForeignKeyRef)
  | check (condition : Expression)
  | index (columns : List Identifier)
  deriving DecidableEq, Repr

structure TableConstraint where
  name : Option Identifier
  rule : TableRule
  position : Position
  deriving DecidableEq, Repr

structure CreateTable where
  ifNotExists : Bool
  name : QualifiedName
  columns : List ColumnDef
  constraints : List TableConstraint
  position : Position
  deriving DecidableEq, Repr

inductive AlterAction
  | addColumn (column : ColumnDef)
  | addConstraint (constraint : TableConstraint)
  | other (text : String) (position : Position)
  deriving DecidableEq, Repr

structure AlterTable where
  table : QualifiedName
  actions : List AlterAction
  position : Position
  deriving DecidableEq, Repr

structure CreateIndex where
  unique : Bool
  name : Option Identifier
  table : QualifiedName
  columns : List Expression
  condition : Option Expression
  position : Position
  deriving DecidableEq, Repr

inductive TypeDefinition
  | enumeration (values : List String)
  | composite (columns : List ColumnDef)
  /-- A type without a body. -/
  | shell
  deriving DecidableEq, Repr

structure CreateType where
  name : QualifiedName
  definition : TypeDefinition
  position : Position
  deriving DecidableEq, Repr

inductive CommentTarget
  | table (name : QualifiedName)
  | column (name : QualifiedName)
  deriving DecidableEq, Repr

structure CommentOn where
  target : CommentTarget
  /-- None removes the comment. -/
  text : Option String
  position : Position
  deriving DecidableEq, Repr

/-! ### Updates and the rest -/

structure Assignment where
  column : Identifier
  value : Expression
  deriving DecidableEq, Repr

structure Update where
  table : TableRef
  assignments : List Assignment
  condition : Option Expression
  position : Position
  deriving DecidableEq, Repr

structure Unmodelled where
  text : String
  position : Position
  deriving DecidableEq, Repr

/-- The leading words in capitals: two of them for a definition, else one. -/
def Unmodelled.command (u : Unmodelled) : String :=
  let words := Text.runs (fun c => !(Text.isAlphanumeric c || c = '_')) u.text.toList
  match words.map fun word => Text.uppercase (String.ofList word) with
  | [] => ""
  | [first] => first
  | first :: second :: _ =>
    if ["CREATE", "DROP", "ALTER", "TRUNCATE"].contains first then first ++ " " ++ second else first

inductive Statement
  | select (s : Select)
  | createTable (s : CreateTable)
  | alterTable (s : AlterTable)
  | createIndex (s : CreateIndex)
  | createType (s : CreateType)
  | commentOn (s : CommentOn)
  | update (s : Update)
  | unmodelled (s : Unmodelled)
  deriving DecidableEq, Repr

def Statement.position : Statement → Position
  | .select s => s.position
  | .createTable s => s.position
  | .alterTable s => s.position
  | .createIndex s => s.position
  | .createType s => s.position
  | .commentOn s => s.position
  | .update s => s.position
  | .unmodelled s => s.position

end SchemaDialects.Sql
