import SchemaDialects.Model
import SchemaDialects.Sql.Statement

/-!
# Tables of a query

Which tables a query reads and which of their columns it touches. A column without a scope can be
attributed only if there is one table.
-/

namespace SchemaDialects.Sql

structure QueryTable where
  entity : EntityName
  asName : Option String
  attributes : List AttributePath
  deriving DecidableEq, Repr

/-- Whether the rest of the query means this table when it says `scope`. -/
def QueryTable.answersTo (t : QueryTable) (scope : String) : Bool :=
  t.asName.getD t.entity.name == scope

def QueryTable.use (column : String) (t : QueryTable) : QueryTable :=
  if t.attributes.contains [column] then t else { t with attributes := t.attributes ++ [[column]] }

namespace Select

def allTables (s : Select) : List TableRef :=
  s.tables ++ s.joins.map (·.table)

/-- The columns of a field; the scope of the field counts for those without one. -/
def fieldColumns : SelectField → List ColumnRef
  | .wildcard .. => []
  | .expression scope e _ _ _ =>
    e.columns.map fun c => { c with scope := c.scope <|> scope.map (·.value) }

/-- The expressions beside the fields. -/
def clauses (s : Select) : List Expression :=
  s.joins.filterMap (·.condition) ++ s.condition.toList ++ s.groupBy ++ s.having.toList ++
    s.orderBy.map (·.expression)

/-- All columns in the order of the query. -/
def columns (s : Select) : List ColumnRef :=
  s.fields.flatMap fieldColumns ++ s.clauses.flatMap (·.columns)

/-- Attributes a column to the table it belongs to. -/
def attributeTo (single : Bool) (tables : List QueryTable) (c : ColumnRef) : List QueryTable :=
  match c.scope with
  | some scope => modifyFirst (·.answersTo scope) (QueryTable.use c.name) tables
  | none => if single then tables.map (QueryTable.use c.name) else tables

/-- The tables of a query with the columns it touches. -/
def queryTables (s : Select) : List QueryTable :=
  let tables := s.allTables.map fun t =>
    { entity := t.name.entityName, asName := t.asName.map (·.value), attributes := [] }
  s.columns.foldl (attributeTo (tables.length == 1)) tables

end Select

end SchemaDialects.Sql
