import SchemaDialects.Sql.Cursor

/-!
# Queries and updates

The productions for SELECT and UPDATE. Only their outline is read; expressions are kept as they are.
-/

namespace SchemaDialects.Sql

open Production

def tableRef : Production TableRef := do
  let start ← tokens
  if (← lexeme) = .openParen then throw (.subquery (← current).position)
  let name ← qualifiedName "table name"
  let asName : Option Identifier ← do
    if ← eatKeyword .AS then some <$> ident "alias"
    else if (← lexeme).isName then some <$> ident "alias"
    else pure none
  return { name, asName, position := ← positionSince start }

/-! ### Fields -/

/-- Whether an operand can end with this token, so that a name behind it is an alias. -/
def endsOperand (l : Lexeme) : Bool :=
  l.isName ||
    match l with
    | .closeParen | .num _ | .str _ => true
    | .keyword k => k = .END || k = .NULL
    | _ => false

/-- Splits an alias without AS from the tokens of a field. -/
def splitAlias (field : List Token) : List Token × Option Identifier :=
  match field.reverse with
  | last :: before :: more =>
    if last.lexeme.isName && endsOperand before.lexeme then
      ((before :: more).reverse, identifier? last)
    else (field, none)
  | _ => (field, none)

/-- Splits the table from a field that is a table and a column. -/
def splitScope (field : List Token) : Option Identifier × List Token :=
  match field with
  | [table, dot, column] =>
    if table.lexeme.isName && dot.lexeme = .dot && column.lexeme.isName then
      (identifier? table, [column])
    else (none, field)
  | _ => (none, field)

def endsField (l : Lexeme) : Bool :=
  l = .comma || l.isKeyword .FROM || l.isKeyword .AS || endsClause l

def selectField : Production SelectField := do
  let start ← tokens
  if (← lexeme) = .star then
    let position := (← current).position
    advance
    return .wildcard none position
  if (← lexeme).isNameLike && (← peek 1) = .dot && (← peek 2) = .star then
    let scope ← ident "table name"
    advance
    advance
    return .wildcard (some scope) (← positionSince start)
  let field ← expressionTokens endsField
  if field.isEmpty then failExpecting "select field"
  let (body, asName) ← do
    if ← eatKeyword .AS then
      let asName ← ident "alias"
      pure (field, some asName)
    else pure (splitAlias field)
  let (scope, rest) := splitScope body
  let name := (asName.map (·.value)).getD (renderTokens true rest)
  return .expression scope (.ofTokens rest) asName name (← positionSince start)

/-! ### Joins -/

/-- The keywords that introduce a join, none if there are none. -/
def joinKind : Production (Option JoinKind) := do
  match ← lexeme with
  | .keyword .JOIN => return some .inner
  | .keyword .INNER =>
    advance
    return some .inner
  | .keyword .LEFT => outer .left
  | .keyword .RIGHT => outer .right
  | .keyword .FULL => outer .full
  | .keyword .CROSS =>
    advance
    return some .cross
  | _ => return none
where
  outer (kind : JoinKind) : Production (Option JoinKind) := do
    advance
    skipKeyword .OUTER
    return some kind

def join : Production (Option Join) := do
  let start ← tokens
  match ← joinKind with
  | none => return none
  | some kind =>
    expectKeyword .JOIN
    let table ← tableRef
    let condition ← introduced .ON (expressionUntil (fun l => endsClause l || startsJoin l) "join condition")
    let shared ← introduced .USING identList
    return some { kind, table, condition, shared := shared.getD [], position := ← positionSince start }

/-! ### Sorting and limits -/

def endsOrdering (l : Lexeme) : Bool :=
  endsClause l || l = .comma || l.isKeyword .ASC || l.isKeyword .DESC || l.isWord "nulls"

def orderItem : Production OrderBy := do
  let expression ← expressionUntil endsOrdering "ordering expression"
  let descending ← eatKeyword .DESC
  if !descending then skipKeyword .ASC
  if ← eatWord "nulls" then advance
  return { expression, descending }

/-- Limit and offset: the offset comes first when a comma separates them. -/
def limitClause : Production (Option Expression × Option Expression) := do
  if ← eatKeyword .LIMIT then
    let first ← expressionUntil (fun l => endsClause l || l = .comma) "limit"
    if ← eat .comma then
      return (some (← expressionUntil endsClause "limit"), some first)
    else return (some first, none)
  else return (none, none)

def offsetClause : Production (Option Expression) :=
  introduced .OFFSET do
    let offset ← expressionUntil (fun l => endsClause l || l.isWord "rows") "offset"
    if !(← eatWord "rows") then skipWord "row"
    return offset

/-- The items of a clause whose two keywords are `first` and BY. -/
def listClause {α : Type} (first : Keyword) (item : Production α) : Production (List α) := do
  let items ← introduced first do
    expectKeyword .BY
    commaSeparated item
  return items.getD []

def select : Production Select := do
  let start ← tokens
  expectKeyword .SELECT
  let distinct ← eatKeyword .DISTINCT
  if !distinct then skipKeyword .ALL
  let fields ← commaSeparated selectField
  expectKeyword .FROM
  let tables ← commaSeparated tableRef
  let joins ← repeated join
  let condition ← introduced .WHERE (expressionUntil endsClause "condition")
  let groupBy ← listClause .GROUP
    (expressionUntil (fun l => endsClause l || l = .comma) "grouping expression")
  let having ← introduced .HAVING (expressionUntil endsClause "condition")
  let orderBy ← listClause .ORDER orderItem
  let (limit, ownOffset) ← limitClause
  let offset ← offsetClause
  if (← lexeme).isKeyword .UNION then throw (.union (← current).position)
  return {
    distinct, fields, tables, joins, condition, groupBy, having, orderBy, limit
    offset := offset <|> ownOffset
    position := ← positionSince start }

/-! ### Updates -/

def assignment : Production Assignment := do
  let target ← qualifiedName "column name"
  match target.parts.getLast? with
  | none => failExpecting "column name"
  | some column =>
    expect (.op "=") "'='"
    let value ← expressionUntil
      (fun l => l = .comma || l.isKeyword .WHERE || l.isKeyword .FROM || l.isWord "returning") "value"
    return { column, value }

def update : Production Statement := do
  let start ← tokens
  expectKeyword .UPDATE
  skipKeyword .ONLY
  let table ← tableRef
  expectKeyword .SET
  let assignments ← commaSeparated assignment
  if ← eatKeyword .FROM then
    let _ ← expressionTokens (·.isKeyword .WHERE)
  let condition ← introduced .WHERE (expressionUntil (·.isWord "returning") "condition")
  let position ← positionSince start
  skipStatement
  return .update { table, assignments, condition, position }

end SchemaDialects.Sql
