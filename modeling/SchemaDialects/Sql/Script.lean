import SchemaDialects.Sql.Definition
import SchemaDialects.Sql.Lexer
import SchemaDialects.Sql.Query

/-!
# Scripts

A script is a sequence of statements with semicolons between them. A statement that cannot be read
is reported and passed over up to the next semicolon.
-/

namespace SchemaDialects.Sql

open Production

/-- One statement, told apart by its first words. -/
def statement (script : List Char) : Production Statement := do
  let start ← tokens
  match ← lexeme, ← peek 1 with
  | .keyword .SELECT, _ => .select <$> select
  | .keyword .CREATE, _ => create script start
  | .keyword .ALTER, .keyword .TABLE => alterTable
  | .keyword .COMMENT, .keyword .ON => commentOn script start
  | .keyword .UPDATE, _ => update
  | _, _ => unmodelled script start

/-- What is left behind the semicolons in front. -/
def skipSemicolons : List Token → List Token
  | [] => []
  | token :: rest => if token.lexeme = .semicolon then skipSemicolons rest else token :: rest

/-- What one statement contributes and the tokens behind it. -/
def readStatement (script : List Char) (ts : List Token) :
    List Statement × List Diagnostic × List Token :=
  match statement script ts with
  | .ok s rest =>
    if headIs Lexeme.endsStatement rest then ([s], [], rest)
    else
      match (failExpecting "';'" : Production Unit) rest with
      | .error problem rest => ([s], [problem.diagnostic], statementEnd rest)
      | .ok _ rest => ([s], [], statementEnd rest)
  | .error problem rest => ([], [problem.diagnostic], statementEnd rest)

/-- The statements of a script and the problems met on the way. -/
def statements (script : List Char) (ts : List Token) : List Statement × List Diagnostic :=
  let begun := skipSemicolons ts
  if headIs (· = .finish) begun then ([], [])
  else
    let (found, problems, rest) := readStatement script begun
    if rest.length < ts.length then
      let (more, others) := statements script rest
      (found ++ more, problems ++ others)
    else (found, problems)
termination_by ts.length

/-- Reads a script. There is no value if nothing could be read and something should have been. -/
def readStatements (script : String) : Parsed (List Statement) :=
  let (tokens, lexical) := tokenize script
  let (found, problems) := statements script.toList tokens
  let diagnostics := lexical ++ problems
  if found.isEmpty && diagnostics.any Diagnostic.isError then .failure diagnostics
  else { value := some found, diagnostics }

end SchemaDialects.Sql
