import SchemaDialects.Sql.Statement

/-!
# Reading tokens

A production takes the tokens that are left and gives a value or a problem, and in both cases the
tokens that are left then. The last token marks the end of the script and is never passed.
-/

namespace SchemaDialects.Sql

/-- Why a statement cannot be read. -/
inductive Problem
  /-- `found` is the text of a token, or none at the end of the script. -/
  | expected (what : String) (found : Option String) (position : Position)
  | union (position : Position)
  | subquery (position : Position)
  deriving DecidableEq, Repr

namespace Problem

def message : Problem → String
  | .expected what found _ =>
    "Expected " ++ what ++ ", found " ++
      (match found with | some text => "'" ++ text ++ "'" | none => "end of input")
  | .union _ => "UNION is not supported"
  | .subquery _ => "Subqueries in FROM are not supported"

def kind : Problem → DiagnosticKind
  | .expected .. => .unexpectedToken
  | _ => .unsupportedStatement

def position : Problem → Position
  | .expected _ _ position | .union position | .subquery position => position

def diagnostic (p : Problem) : Diagnostic := ⟨.error, p.kind, p.message, p.position⟩

end Problem

abbrev Production (α : Type) := EStateM Problem (List Token) α

def endToken : Token := ⟨.finish, "", .unknown⟩

/-- Steps over a token unless it is the last one. -/
def stepOver : List Token → List Token
  | _ :: next :: rest => next :: rest
  | tokens => tokens

/-- The tokens from `start` to `stop`, which is what is left of `start`. -/
def between (start stop : List Token) : List Token :=
  start.take (start.length - stop.length)

namespace Production

def tokens : Production (List Token) := get

def current : Production Token := return (← get).headD endToken

def lexeme : Production Lexeme := return (← current).lexeme

/-- The lexeme `n` tokens further on. -/
def peek (n : Nat) : Production Lexeme := return ((← get)[n]?.map (·.lexeme)).getD .finish

def advance : Production Unit := modify stepOver

/-- Steps over the token if it satisfies `p`. -/
def eatIf (p : Lexeme → Bool) : Production Bool := do
  if p (← lexeme) then
    advance
    return true
  else return false

def eatKeyword (k : Keyword) : Production Bool := eatIf (·.isKeyword k)

/-- Steps over a keyword if it is there. -/
def skipKeyword (k : Keyword) : Production Unit := do
  let _ ← eatKeyword k

def eat (l : Lexeme) : Production Bool := eatIf (· = l)

def eatWord (word : String) : Production Bool := eatIf (·.isWord word)

def skipWord (word : String) : Production Unit := do
  let _ ← eatWord word

def failExpecting {α : Type} (what : String) : Production α := do
  let token ← current
  let found := match token.lexeme with
    | .finish => none
    | _ => some token.text
  throw (.expected what found token.position)

def expectKeyword (k : Keyword) : Production Unit := do
  if !(← eatKeyword k) then failExpecting k.text

def expect (l : Lexeme) (what : String) : Production Unit := do
  if !(← eat l) then failExpecting what

/-- The position of everything since `start`; of the current token if that is nothing. -/
def positionSince (start : List Token) : Production Position := do
  let taken := between start (← get)
  if taken.isEmpty then return (← current).position else return tokensPosition taken

/-! ### Repetition -/

/-- Repeats `item` until it gives nothing or `more` finds no separator behind it. -/
def listed {α : Type} (item : Production (Option α)) (more : Production Bool) (ts : List Token) :
    EStateM.Result Problem (List Token) (List α) :=
  match item ts with
  | .error problem rest => .error problem rest
  | .ok none rest => .ok [] rest
  | .ok (some value) rest =>
    match more rest with
    | .error problem rest => .error problem rest
    | .ok false rest => .ok [value] rest
    | .ok true rest =>
      if rest.length < ts.length then
        match listed item more rest with
        | .error problem rest => .error problem rest
        | .ok values rest => .ok (value :: values) rest
      else .ok [value] rest
termination_by ts.length

/-- Repeats `item` as long as `more` finds a separator. -/
def separated {α : Type} (item : Production α) (more : Production Bool) : Production (List α) :=
  listed (some <$> item) more

/-- Repeats `item` until it gives nothing. -/
def repeated {α : Type} (item : Production (Option α)) : Production (List α) :=
  listed item (pure true)

/-- One or more items with commas between them. -/
def commaSeparated {α : Type} (item : Production α) : Production (List α) :=
  separated item (eat .comma)

/-- An item if it is introduced by `k`. -/
def introduced {α : Type} (k : Keyword) (item : Production α) : Production (Option α) := do
  if ← eatKeyword k then return some (← item) else return none

/-! ### Skipping -/

/-- What is left at the end of the statement. -/
def statementEnd : List Token → List Token
  | [] => []
  | token :: rest => if token.lexeme.endsStatement then token :: rest else statementEnd rest

def skipStatement : Production Unit := modify statementEnd

/-- What is left behind a group in parentheses of which `depth` are open. A group without an end
stops where the statement does. -/
def groupEnd (depth : Nat) : List Token → List Token
  | [] => []
  | token :: rest =>
    match token.lexeme with
    | .openParen => groupEnd (depth + 1) rest
    | .closeParen => if depth ≤ 1 then rest else groupEnd (depth - 1) rest
    | .semicolon | .finish => token :: rest
    | _ => groupEnd depth rest

def skipGroup : Production Unit := modify (groupEnd 0)

/-! ### Names -/

/-- The identifier that a token can be read as. -/
def identifier? (token : Token) : Option Identifier :=
  match token.lexeme with
  | .word s => some ⟨s, false, token.position⟩
  | .quoted s => some ⟨s, true, token.position⟩
  | .keyword k => if k.isReserved then none else some ⟨token.text, false, token.position⟩
  | _ => none

def ident (what : String) : Production Identifier := do
  match identifier? (← current) with
  | some id =>
    advance
    return id
  | none => failExpecting what

def qualifiedName (what : String) : Production QualifiedName := do
  return ⟨← separated (ident what) (eat .dot)⟩

/-- Identifiers in parentheses, with lengths and directions of sorting passed over. -/
def identList : Production (List Identifier) := do
  expect .openParen "'('"
  separated column (do
    match ← lexeme with
    | .comma =>
      advance
      return true
    | .closeParen =>
      advance
      return false
    | _ => failExpecting "',' or ')'")
where
  column : Production Identifier := do
    let id ← ident "column name"
    if (← lexeme) = .openParen then skipGroup
    if !(← eatKeyword .ASC) then skipKeyword .DESC
    return id

def ifNotExists : Production Bool := do
  if ← eatKeyword .IF then
    expectKeyword .NOT
    expectKeyword .EXISTS
    return true
  else return false

/-! ### Expressions -/

/-- Splits off the tokens up to the first one outside parentheses that satisfies `stop`, to an
unmatched closing parenthesis or to the end of the statement. -/
def splitExpression (stop : List Token → Bool) (depth : Nat) : List Token → List Token × List Token
  | [] => ([], [])
  | token :: rest =>
    let take (depth : Nat) :=
      let (inside, behind) := splitExpression stop depth rest
      (token :: inside, behind)
    match token.lexeme with
    | .finish | .semicolon => ([], token :: rest)
    | .openParen => take (depth + 1)
    | .closeParen => if depth = 0 then ([], token :: rest) else take (depth - 1)
    | _ => if depth = 0 ∧ stop (token :: rest) then ([], token :: rest) else take depth

/-- The lexeme at the head of the tokens satisfies `p`. -/
def headIs (p : Lexeme → Bool) (ts : List Token) : Bool :=
  p (ts.headD endToken).lexeme

/-- The tokens of an expression that ends before `stop`. -/
def expressionTokens (stop : Lexeme → Bool) : Production (List Token) := do
  let (inside, behind) := splitExpression (headIs stop) 0 (← get)
  set behind
  return inside

def expressionUntil (stop : Lexeme → Bool) (what : String) : Production Expression := do
  let inside ← expressionTokens stop
  if inside.isEmpty then failExpecting what else return .ofTokens inside

def parenthesized : Production Expression := do
  expect .openParen "'('"
  let e ← expressionUntil (fun _ => false) "expression"
  expect .closeParen "')'"
  return e

/-! ### Where clauses end -/

def endsClause (l : Lexeme) : Bool :=
  [Keyword.WHERE, .GROUP, .HAVING, .ORDER, .LIMIT, .OFFSET, .UNION].any l.isKeyword

def startsJoin (l : Lexeme) : Bool :=
  [Keyword.JOIN, .INNER, .LEFT, .RIGHT, .FULL, .CROSS].any l.isKeyword

/-- Keywords that begin a column constraint and so end a data type. -/
def startsColumnConstraint (l : Lexeme) : Bool :=
  [Keyword.NOT, .NULL, .PRIMARY, .UNIQUE, .DEFAULT, .REFERENCES, .CHECK, .CONSTRAINT, .GENERATED,
    .AUTO_INCREMENT, .COMMENT, .AS, .ON].any l.isKeyword

end Production

end SchemaDialects.Sql
