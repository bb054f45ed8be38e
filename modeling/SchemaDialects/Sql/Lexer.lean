import SchemaDialects.Place
import SchemaDialects.Sql.Token
import SchemaDialects.Text.Escaped
import SchemaDialects.Text.Letter
import SchemaDialects.Text.Search
import SchemaDialects.Text.Tile

/-!
# From SQL text to tokens

A script is cut into pieces, each of at least one character: tokens, blanks and comments, and what
cannot be read. Cutting knows nothing of positions; they follow from the pieces before.
-/

namespace SchemaDialects.Sql

/-- What cannot be read. -/
inductive LexicalProblem
  | openComment
  | openName
  | openBracketName
  | openString
  | openDollarString
  | unexpectedChar (c : Char)
  deriving DecidableEq, Repr

def LexicalProblem.message : LexicalProblem → String
  | .openComment => "Unterminated block comment"
  | .openName => "Unterminated quoted identifier"
  | .openBracketName => "Unterminated bracket identifier"
  | .openString => "Unterminated string"
  | .openDollarString => "Unterminated dollar-quoted string"
  | .unexpectedChar c => "Unexpected character: " ++ Text.quotedChar c

def LexicalProblem.kind : LexicalProblem → DiagnosticKind
  | .unexpectedChar _ => .invalidSyntax
  | _ => .unterminatedLiteral

inductive Piece
  | token (lexeme : Lexeme)
  | gap
  | problem (p : LexicalProblem)
  deriving DecidableEq, Repr

/-! ### Single pieces

Each function looks at the characters behind the first one of a piece and says how many of them
belong to it. -/

/-- Up to the end of the line, the line break included. -/
def lineCommentLength : List Char → Nat
  | [] => 0
  | c :: cs => if c = '\n' then 1 else lineCommentLength cs + 1

/-- Up to the closing mark of a block comment; none when it is missing. -/
def blockCommentLength? : List Char → Option Nat
  | [] => none
  | '*' :: '/' :: _ => some 2
  | _ :: cs => (blockCommentLength? cs).map (· + 1)

def unescape (c : Char) : Char :=
  if c = 'n' then '\n' else if c = 't' then '\t' else if c = 'r' then '\r' else c

/-- The content behind an opening quote and its length with the closing one, which is doubled inside.
None when the text ends first. -/
def readQuoted (close : Char) (escapes : Bool) : List Char → Option (List Char × Nat)
  | [] => none
  | c :: cs =>
    if c = close then
      match cs with
      | [] => some ([], 1)
      | d :: ds =>
        if d = close then (readQuoted close escapes ds).map fun (s, n) => (close :: s, n + 2)
        else some ([], 1)
    else if c = '\\' ∧ escapes then
      match cs with
      | [] => none
      | d :: ds => (readQuoted close escapes ds).map fun (s, n) => (unescape d :: s, n + 2)
    else (readQuoted close escapes cs).map fun (s, n) => (c :: s, n + 1)

/-- The content of a string between two equal tags, and its length, behind the first dollar sign. -/
def readDollarQuoted (cs : List Char) : Option (List Char × Nat) := do
  let name := cs.takeWhile (· ≠ '$')
  let tag := '$' :: name ++ (cs.drop name.length).take 1
  let rest := cs.drop (tag.length - 1)
  let body ← Text.before? tag rest
  return (body, tag.length - 1 + body.length + tag.length)

/-- Digits with at most one point, which a digit must follow. -/
def numberLength (pointSeen : Bool) : List Char → Nat
  | [] => 0
  | c :: cs =>
    if c.isDigit then numberLength pointSeen cs + 1
    else if c = '.' ∧ !pointSeen ∧ (cs.headD ' ').isDigit then numberLength true cs + 1
    else 0

def isWordChar (c : Char) : Bool :=
  Text.isAlphanumeric c || c = '_' || c = '$'

def isOperatorChar (c : Char) : Bool :=
  "=<>!|:+-/%^~&?@$".toList.contains c

/-- Operators of two characters. -/
def isOperatorPair (a b : Char) : Bool :=
  [('<', '='), ('>', '='), ('<', '>'), ('!', '='), ('|', '|'), (':', ':')].contains (a, b)

def wordLexeme (text : String) : Lexeme :=
  match Keyword.ofWord? text with
  | some k => .keyword k
  | none => .word text

/-- A quoted piece, or the whole rest when its end is missing. -/
def cutQuoted (content : Option (List Char × Nat)) (lexeme : String → Lexeme) (p : LexicalProblem)
    (cs : List Char) : Piece × Nat :=
  match content with
  | some (s, n) => (.token (lexeme (String.ofList s)), n)
  | none => (.problem p, cs.length)

/-- The piece that begins with `c`, and how many of the characters `cs` behind `c` belong to it. -/
def cut (c : Char) (cs : List Char) : Piece × Nat :=
  let next := cs.headD ' '
  if Text.isBlank c then (.gap, 0)
  else if (c = '-' ∧ cs.head? = some '-') ∨ c = '#' then (.gap, lineCommentLength cs)
  else if c = '/' ∧ cs.head? = some '*' then
    match blockCommentLength? (cs.drop 1) with
    | some n => (.gap, n + 1)
    | none => (.problem .openComment, cs.length)
  else if c = '(' then (.token .openParen, 0)
  else if c = ')' then (.token .closeParen, 0)
  else if c = ',' then (.token .comma, 0)
  else if c = ';' then (.token .semicolon, 0)
  else if c = '.' ∧ !next.isDigit then (.token .dot, 0)
  else if c = '*' then (.token .star, 0)
  else if c = '"' ∨ c = '`' then cutQuoted (readQuoted c false cs) .quoted .openName cs
  else if c = '[' then cutQuoted (readQuoted ']' false cs) .quoted .openBracketName cs
  else if c = '\'' then cutQuoted (readQuoted '\'' true cs) .str .openString cs
  else if c = '$' ∧ (next = '$' ∨ Text.isLetter next) then
    cutQuoted (readDollarQuoted cs) .str .openDollarString cs
  else if c.isDigit ∨ c = '.' then
    let n := numberLength false (c :: cs)
    (.token (.num (String.ofList ((c :: cs).take n))), n - 1)
  else if Text.isLetter c ∨ c = '_' then
    let tail := cs.takeWhile isWordChar
    (.token (wordLexeme (String.ofList (c :: tail))), tail.length)
  else if isOperatorChar c then
    if !cs.isEmpty ∧ isOperatorPair c next then (.token (.op (String.ofList [c, next])), 1)
    else (.token (.op (String.ofList [c])), 0)
  else (.problem (.unexpectedChar c), 0)

/-! ### Whole scripts -/

/-- The tokens of a script, the end of the script last, and the problems in its text. -/
def locate (place : Place) : List (Piece × List Char) → List Token × List Diagnostic
  | [] => ([⟨.finish, "", place.upTo place⟩], [])
  | (piece, chars) :: rest =>
    let stop := place.afterAll chars
    let (tokens, diagnostics) := locate stop rest
    match piece with
    | .token lexeme => (⟨lexeme, String.ofList chars, place.upTo stop⟩ :: tokens, diagnostics)
    | .gap => (tokens, diagnostics)
    | .problem p => (tokens, ⟨.error, p.kind, p.message, place.upTo stop⟩ :: diagnostics)

def tokenize (script : String) : List Token × List Diagnostic :=
  locate {} (Text.tiles cut script.toList)

end SchemaDialects.Sql
