import SchemaDialects.Sql.Cursor
import SchemaDialects.Text.Bytes

/-!
# Definitions

The productions for CREATE, ALTER TABLE and COMMENT ON. A definition whose form is not modelled
becomes a statement kept as text.
-/

namespace SchemaDialects.Sql

open Production

/-! ### Statements kept as text -/

/-- Everything from the first of the tokens to the last, as it stands in the script. -/
def sourceText (script : List Char) (taken : List Token) : String :=
  let first := (taken.head?.map (·.position.offset.start)).getD 0
  let last := (taken.getLast?.map (·.position.offset.stop)).getD 0
  String.ofList (Text.slice first last script)

/-- Keeps the statement that began at `start` as text. -/
def unmodelled (script : List Char) (start : List Token) : Production Statement := do
  skipStatement
  let taken := between start (← tokens)
  return .unmodelled ⟨sourceText script taken, tokensPosition taken⟩

/-! ### Foreign keys -/

def referentialAction : Production ReferentialAction := do
  let action ← match ← lexeme, ← peek 1 with
    | .keyword .CASCADE, _ => pure ReferentialAction.cascade
    | .keyword .RESTRICT, _ => pure .restrict
    | .keyword .SET, .keyword .NULL => pure .setNull
    | .keyword .SET, .keyword .DEFAULT => pure .setDefault
    | .keyword .NO, _ => pure .noAction
    | _, _ => failExpecting "referential action"
  advance
  match action with
  | .cascade | .restrict => pure ()
  | _ => advance
  return action

/-- What may follow the referenced columns. -/
inductive ReferenceClause
  | onDelete (action : ReferentialAction)
  | onUpdate (action : ReferentialAction)
  | timing

def referenceClause : Production (Option ReferenceClause) := do
  let next ← peek 1
  if (← lexeme).isKeyword .ON && next.isKeyword .DELETE then
    advance
    advance
    return some (.onDelete (← referentialAction))
  else if (← lexeme).isKeyword .ON && next.isKeyword .UPDATE then
    advance
    advance
    return some (.onUpdate (← referentialAction))
  else if (← lexeme).isWord "match" || (← lexeme).isWord "initially" then
    advance
    advance
    return some .timing
  else if ← eatWord "deferrable" then return some .timing
  else if (← lexeme).isKeyword .NOT && next.isWord "deferrable" then
    advance
    advance
    return some .timing
  else return none

def references : Production ForeignKeyRef := do
  expectKeyword .REFERENCES
  let table ← qualifiedName "referenced table"
  let columns ← if (← lexeme) = .openParen then identList else pure []
  let clauses ← repeated referenceClause
  let deletes := clauses.filterMap fun | .onDelete a => some a | _ => none
  let updates := clauses.filterMap fun | .onUpdate a => some a | _ => none
  return { table, columns, onDelete := deletes.getLast?, onUpdate := updates.getLast? }

/-! ### Columns -/

/-- Whether a data type ends before these tokens; the first of its own tokens never ends it, but a
comma or a collation does. -/
def endsDataType (start rest : List Token) : Bool :=
  headIs (· = .comma) rest ||
    (rest.length < start.length && headIs startsColumnConstraint rest) ||
    headIs (fun l => l.isWord "collate" || l.isWord "charset") rest ||
    (headIs (·.isWord "character") rest && headIs (·.isKeyword .SET) (rest.drop 1))

def dataType : Production DataType := do
  let start ← tokens
  let (taken, behind) := splitExpression (endsDataType start) 0 start
  set behind
  if taken.isEmpty then failExpecting "data type"
  return ⟨renderTokens false taken, tokensPosition taken⟩

def endsDefault (l : Lexeme) : Bool :=
  startsColumnConstraint l || l = .comma

def defaultValue : Production Expression := do
  if (← lexeme).isKeyword .NULL then
    let token ← current
    advance
    return .ofTokens [token]
  else expressionUntil endsDefault "default value"

/-- The expression of a computed column. -/
def computed : Production ColumnRule := do
  let e ← parenthesized
  if !(← eatKeyword .STORED) then skipWord "virtual"
  return .generated e

/-- The rule of a column constraint. None for a token that the grammar passes over; a name must be
followed by a rule. -/
def columnRule (named : Bool) : Production (Option ColumnRule) := do
  match ← lexeme with
  | .keyword .NOT =>
    advance
    expectKeyword .NULL
    return some .notNull
  | .keyword .NULL =>
    advance
    return some .null
  | .keyword .PRIMARY =>
    advance
    expectKeyword .KEY
    if !(← eatKeyword .ASC) then skipKeyword .DESC
    return some .primaryKey
  | .keyword .UNIQUE =>
    advance
    skipKeyword .KEY
    return some .unique
  | .keyword .AUTO_INCREMENT =>
    advance
    return some .autoIncrement
  | .keyword .DEFAULT =>
    advance
    return some (.default (← defaultValue))
  | .keyword .CHECK =>
    advance
    return some (.check (← parenthesized))
  | .keyword .REFERENCES => return some (.references (← references))
  | .keyword .GENERATED =>
    advance
    if ← eatKeyword .BY then expectKeyword .DEFAULT else expectKeyword .ALWAYS
    expectKeyword .AS
    if ← eatWord "identity" then
      if (← lexeme) = .openParen then skipGroup
      return some .autoIncrement
    else return some (← computed)
  | .keyword .AS =>
    advance
    return some (← computed)
  | .keyword .COMMENT =>
    advance
    match ← lexeme with
    | .str text =>
      advance
      return some (.comment text)
    | _ => failExpecting "comment string"
  | .keyword .ON =>
    advance
    advance
    let _ ← expressionTokens endsDefault
    return none
  | l =>
    if l.isWord "autoincrement" then
      advance
      return some .autoIncrement
    else if named then failExpecting "constraint"
    else
      advance
      return none

def constraintName : Production (Option Identifier) :=
  introduced .CONSTRAINT (ident "constraint name")

/-- One column constraint, as long as the column has not ended. The inner option is none where
tokens were passed over. -/
def columnConstraint : Production (Option (Option ColumnConstraint)) := do
  let l ← lexeme
  if l = .comma || l = .closeParen || l.endsStatement then return none
  let start ← tokens
  let name ← constraintName
  match ← columnRule name.isSome with
  | none => return some none
  | some rule => return some (some { name, rule, position := ← positionSince start })

def columnDef : Production ColumnDef := do
  let start ← tokens
  let name ← ident "column name"
  let type ← dataType
  let constraints ← repeated columnConstraint
  return { name, type, constraints := constraints.filterMap id, position := ← positionSince start }

/-! ### Table constraints -/

/-- Tells an index from a column that is called like one: `KEY name (a` or `KEY (a`. -/
def looksLikeIndex : Production Bool := do
  let a ← peek 1
  let b ← peek 2
  let c ← peek 3
  return (a = .openParen && b.isNameLike) || (a.isNameLike && b = .openParen && c.isNameLike)

def optionalIndexName : Production (Option Identifier) := do
  if (← lexeme) = .openParen then return none else return some (← ident "index name")

/-- The rule of a table constraint and the name it has if no name stands before it. None when
this is not a constraint. -/
def tableRule (named : Bool) : Production (Option (TableRule × Option Identifier)) := do
  match ← lexeme with
  | .keyword .PRIMARY =>
    advance
    expectKeyword .KEY
    return some (.primaryKey (← identList), none)
  | .keyword .UNIQUE =>
    advance
    if !(← eatKeyword .KEY) then skipKeyword .INDEX
    let name ← optionalIndexName
    return some (.unique (← identList), name)
  | .keyword .FOREIGN =>
    advance
    expectKeyword .KEY
    let name ← optionalIndexName
    let columns ← identList
    return some (.foreignKey columns (← references), name)
  | .keyword .CHECK =>
    advance
    return some (.check (← parenthesized), none)
  | l =>
    let next ← peek 1
    if (l.isKeyword .KEY || l.isKeyword .INDEX) && !named && (← looksLikeIndex) then
      advance
      let name ← optionalIndexName
      return some (.index (← identList), name)
    else if (l.isWord "fulltext" || l.isWord "spatial") &&
        (next.isKeyword .KEY || next.isKeyword .INDEX) then
      advance
      advance
      let name ← optionalIndexName
      return some (.index (← identList), name)
    else if named then failExpecting "constraint"
    else return none

/-- A table constraint, or none when a column begins here. The name of an index that has a type in
front replaces the name of its constraint. -/
def tableConstraint : Production (Option TableConstraint) := do
  let start ← tokens
  let name ← constraintName
  match ← tableRule name.isSome with
  | none => return none
  | some (rule, ownName) =>
    let name := match rule with
      | .index _ => ownName
      | _ => name <|> ownName
    return some { name, rule, position := ← positionSince start }

/-! ### CREATE -/

/-- A part of a table: a constraint or a column. -/
def tablePart : Production (TableConstraint ⊕ ColumnDef) := do
  match ← tableConstraint with
  | some constraint => return .inl constraint
  | none => return .inr (← columnDef)

/-- A comma before another part or the end of the list. -/
def anotherPart : Production Bool := do
  match ← lexeme with
  | .comma =>
    advance
    return true
  | .closeParen =>
    advance
    return false
  | _ => failExpecting "',' or ')'"

def createTable (script : List Char) (start : List Token) : Production Statement := do
  expectKeyword .TABLE
  let ifNotExists ← ifNotExists
  let name ← qualifiedName "table name"
  if !(← eat .openParen) then return ← unmodelled script start
  let parts ← if ← eat .closeParen then pure [] else separated tablePart anotherPart
  let position ← positionSince start
  skipStatement
  return .createTable {
    ifNotExists, name
    columns := parts.filterMap fun | .inr column => some column | .inl _ => none
    constraints := parts.filterMap fun | .inl constraint => some constraint | .inr _ => none
    position }

def endsIndexColumn (l : Lexeme) : Bool :=
  l = .comma || l.isKeyword .ASC || l.isKeyword .DESC || l.isWord "nulls"

def indexColumn : Production Expression := do
  let e ← expressionUntil endsIndexColumn "index column"
  if !(← eatKeyword .ASC) then skipKeyword .DESC
  if ← eatWord "nulls" then advance
  return e

def createIndex (start : List Token) : Production Statement := do
  let unique ← eatKeyword .UNIQUE
  expectKeyword .INDEX
  skipWord "concurrently"
  let _ ← ifNotExists
  let name ← if (← lexeme).isKeyword .ON then pure none else some <$> ident "index name"
  expectKeyword .ON
  skipKeyword .ONLY
  let table ← qualifiedName "table name"
  if ← eatKeyword .USING then advance
  expect .openParen "'('"
  let columns ← commaSeparated indexColumn
  expect .closeParen "')'"
  if (← eatWord "include") then
    if (← lexeme) = .openParen then skipGroup
  let condition ← introduced .WHERE (expressionUntil (fun _ => false) "index predicate")
  return .createIndex { unique, name, table, columns, condition, position := ← positionSince start }

/-- A value of an enumeration. -/
def enumValue : Production (Option String) := do
  match ← lexeme with
  | .str value =>
    advance
    return some value
  | _ => return none

/-- A field of a composite type. -/
def compositeField : Production (Option ColumnDef) := do
  if (← lexeme) = .closeParen then return none else return some (← columnDef)

def createType (script : List Char) (start : List Token) : Production Statement := do
  expectKeyword .TYPE
  let name ← qualifiedName "type name"
  if (← lexeme).endsStatement then
    return .createType { name, definition := .shell, position := ← positionSince start }
  if !(← eatKeyword .AS) then return ← unmodelled script start
  if ← eatKeyword .ENUM then
    expect .openParen "'('"
    let values ← listed enumValue (eat .comma)
    expect .closeParen "')'"
    return .createType { name, definition := .enumeration values, position := ← positionSince start }
  if ← eat .openParen then
    let columns ← listed compositeField (eat .comma)
    expect .closeParen "')'"
    return .createType { name, definition := .composite columns, position := ← positionSince start }
  unmodelled script start

def create (script : List Char) (start : List Token) : Production Statement := do
  expectKeyword .CREATE
  if !(← eatKeyword .TEMPORARY) then skipWord "temp"
  match ← lexeme with
  | .keyword .TABLE => createTable script start
  | .keyword .UNIQUE | .keyword .INDEX => createIndex start
  | .keyword .TYPE => createType script start
  | _ => unmodelled script start

/-! ### ALTER TABLE and COMMENT ON -/

def alterAction : Production AlterAction := do
  let start ← tokens
  if ← eatKeyword .ADD then
    match ← tableConstraint with
    | some constraint => return .addConstraint constraint
    | none =>
      skipKeyword .COLUMN
      let _ ← ifNotExists
      return .addColumn (← columnDef)
  else
    let taken ← expressionTokens (· = .comma)
    if taken.isEmpty then failExpecting "ALTER TABLE action"
    return .other (renderTokens false taken) (← positionSince start)

def alterTable : Production Statement := do
  let start ← tokens
  expectKeyword .ALTER
  expectKeyword .TABLE
  if ← eatKeyword .IF then expectKeyword .EXISTS
  skipKeyword .ONLY
  let table ← qualifiedName "table name"
  let actions ← commaSeparated alterAction
  return .alterTable { table, actions, position := ← positionSince start }

def commentOn (script : List Char) (start : List Token) : Production Statement := do
  expectKeyword .COMMENT
  expectKeyword .ON
  let target : Option CommentTarget ← do
    if ← eatKeyword .TABLE then some <$> .table <$> qualifiedName "table name"
    else if ← eatKeyword .COLUMN then some <$> .column <$> qualifiedName "column name"
    else pure none
  match target with
  | none => unmodelled script start
  | some target =>
    expectKeyword .IS
    let text ← match ← lexeme with
      | .str text => pure (some text)
      | .keyword .NULL => pure none
      | _ => failExpecting "comment string"
    advance
    return .commentOn { target, text, position := ← positionSince start }

end SchemaDialects.Sql
