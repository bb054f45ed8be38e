import SchemaDialects.Proofs.Sql.Expressions
import SchemaDialects.Sql.Statement

/-!
# Statements without positions

`bare` forgets where a statement and its parts stand in the script, as `Token.bare` does for tokens. What
the grammar makes of tokens depends on their positions only in the positions that it gives.
-/

namespace SchemaDialects.Sql

-- ---------------------------------------------------------------------------
-- Parts of statements
-- ---------------------------------------------------------------------------

def Identifier.bare (i : Identifier) : Identifier := { i with position := .unknown }

def QualifiedName.bare (n : QualifiedName) : QualifiedName := ⟨n.parts.map Identifier.bare⟩

def Expression.bare (e : Expression) : Expression := { e with position := .unknown }

def TableRef.bare (t : TableRef) : TableRef where
  name := t.name.bare
  asName := t.asName.map Identifier.bare
  position := .unknown

def SelectField.bare : SelectField → SelectField
  | .wildcard scope _ => .wildcard (scope.map Identifier.bare) .unknown
  | .expression scope e asName name _ =>
    .expression (scope.map Identifier.bare) e.bare (asName.map Identifier.bare) name .unknown

def Join.bare (j : Join) : Join where
  kind := j.kind
  table := j.table.bare
  condition := j.condition.map Expression.bare
  shared := j.shared.map Identifier.bare
  position := .unknown

def OrderBy.bare (o : OrderBy) : OrderBy := { o with expression := o.expression.bare }

def ForeignKeyRef.bare (r : ForeignKeyRef) : ForeignKeyRef :=
  { r with table := r.table.bare, columns := r.columns.map Identifier.bare }

def ColumnRule.bare : ColumnRule → ColumnRule
  | .default value => .default value.bare
  | .check condition => .check condition.bare
  | .references target => .references target.bare
  | .generated value => .generated value.bare
  | rule => rule

def ColumnConstraint.bare (c : ColumnConstraint) : ColumnConstraint where
  name := c.name.map Identifier.bare
  rule := c.rule.bare
  position := .unknown

def DataType.bare (t : DataType) : DataType := { t with position := .unknown }

def ColumnDef.bare (c : ColumnDef) : ColumnDef where
  name := c.name.bare
  type := c.type.bare
  constraints := c.constraints.map ColumnConstraint.bare
  position := .unknown

def TableRule.bare : TableRule → TableRule
  | .primaryKey columns => .primaryKey (columns.map Identifier.bare)
  | .unique columns => .unique (columns.map Identifier.bare)
  | .foreignKey columns target => .foreignKey (columns.map Identifier.bare) target.bare
  | .check condition => .check condition.bare
  | .index columns => .index (columns.map Identifier.bare)

def TableConstraint.bare (c : TableConstraint) : TableConstraint where
  name := c.name.map Identifier.bare
  rule := c.rule.bare
  position := .unknown

def AlterAction.bare : AlterAction → AlterAction
  | .addColumn column => .addColumn column.bare
  | .addConstraint constraint => .addConstraint constraint.bare
  | .other text _ => .other text .unknown

def TypeDefinition.bare : TypeDefinition → TypeDefinition
  | .composite columns => .composite (columns.map ColumnDef.bare)
  | definition => definition

def CommentTarget.bare : CommentTarget → CommentTarget
  | .table name => .table name.bare
  | .column name => .column name.bare

def Assignment.bare (a : Assignment) : Assignment := ⟨a.column.bare, a.value.bare⟩

-- ---------------------------------------------------------------------------
-- Statements
-- ---------------------------------------------------------------------------

def Select.bare (s : Select) : Select where
  distinct := s.distinct
  fields := s.fields.map SelectField.bare
  tables := s.tables.map TableRef.bare
  joins := s.joins.map Join.bare
  condition := s.condition.map Expression.bare
  groupBy := s.groupBy.map Expression.bare
  having := s.having.map Expression.bare
  orderBy := s.orderBy.map OrderBy.bare
  limit := s.limit.map Expression.bare
  offset := s.offset.map Expression.bare
  position := .unknown

def CreateTable.bare (s : CreateTable) : CreateTable where
  ifNotExists := s.ifNotExists
  name := s.name.bare
  columns := s.columns.map ColumnDef.bare
  constraints := s.constraints.map TableConstraint.bare
  position := .unknown

def AlterTable.bare (s : AlterTable) : AlterTable where
  table := s.table.bare
  actions := s.actions.map AlterAction.bare
  position := .unknown

def CreateIndex.bare (s : CreateIndex) : CreateIndex where
  unique := s.unique
  name := s.name.map Identifier.bare
  table := s.table.bare
  columns := s.columns.map Expression.bare
  condition := s.condition.map Expression.bare
  position := .unknown

def CreateType.bare (s : CreateType) : CreateType where
  name := s.name.bare
  definition := s.definition.bare
  position := .unknown

def CommentOn.bare (s : CommentOn) : CommentOn where
  target := s.target.bare
  text := s.text
  position := .unknown

def Update.bare (s : Update) : Update where
  table := s.table.bare
  assignments := s.assignments.map Assignment.bare
  condition := s.condition.map Expression.bare
  position := .unknown

/-- The statement wherever it stands. -/
def Statement.bare : Statement → Statement
  | .select s => .select s.bare
  | .createTable s => .createTable s.bare
  | .alterTable s => .alterTable s.bare
  | .createIndex s => .createIndex s.bare
  | .createType s => .createType s.bare
  | .commentOn s => .commentOn s.bare
  | .update s => .update s.bare
  | .unmodelled s => .unmodelled { s with position := .unknown }

-- ---------------------------------------------------------------------------
-- What tokens are read as
-- ---------------------------------------------------------------------------

section
variable {ts ts' : List Token}

theorem renderTokens_congr (h : ts.map Token.bare = ts'.map Token.bare) :
    renderTokens clean ts = renderTokens clean ts' := by
  rw [renderTokens, ← renderFrom_bare, h, renderFrom_bare, renderTokens]

theorem bare_ofTokens (h : ts.map Token.bare = ts'.map Token.bare) :
    (Expression.ofTokens ts).bare = (Expression.ofTokens ts').bare := by
  have hcolumns : columnsAfter false ts = columnsAfter false ts' := by
    rw [← columnsAfter_bare, h, columnsAfter_bare]
  simp only [Expression.ofTokens, Expression.bare, renderTokens_congr h, hcolumns]

end

end SchemaDialects.Sql
