import SchemaDialects.Sql.Token
import SchemaDialects.Text.Blank

/-!
# Expressions

The grammar does not look inside expressions: it keeps their text, with uniform spacing, and the
columns that they mention.
-/

namespace SchemaDialects.Sql

/-! ### Spacing -/

def isCast (lexeme : Lexeme) : Bool :=
  lexeme = .op "::"

/-- Whether no blank stands between two neighbouring tokens. -/
def isGlued (before : Option Lexeme) (token : Token) : Bool :=
  match before with
  | none => true
  | some previous =>
    previous = .openParen || previous = .dot || isCast previous ||
      token.lexeme = .closeParen || token.lexeme = .comma || token.lexeme = .dot ||
      isCast token.lexeme ||
      (previous.isName && token.lexeme = .openParen) ||
      (token.lexeme = .quoted "" && token.text == "[]")

/-- The text of a token; `clean` takes the quotes from names. -/
def Token.spelling (clean : Bool) (token : Token) : String :=
  match token.lexeme with
  | .quoted name => if clean then name else token.text
  | _ => token.text

def renderFrom (clean : Bool) (before : Option Lexeme) : List Token → String
  | [] => ""
  | token :: rest =>
    (if isGlued before token then "" else " ") ++ token.spelling clean ++
      renderFrom clean (some token.lexeme) rest

/-- The tokens as text with uniform spacing. -/
def renderTokens (clean : Bool) (tokens : List Token) : String :=
  renderFrom clean none tokens

/-! ### Columns -/

/-- A column, possibly with the name of the table it belongs to. -/
structure ColumnRef where
  scope : Option String
  name : String
  deriving DecidableEq, Repr

def Lexeme.name? : Lexeme → Option String
  | .word s | .quoted s => some s
  | _ => none

/-- The names that follow a name, each behind a dot, and the tokens behind them. -/
def chain : List Token → List String × List Token
  | dot :: next :: rest =>
    if dot.lexeme = .dot then
      match next.lexeme.name? with
      | some name =>
        let (names, rest) := chain rest
        (name :: names, rest)
      | none => ([], dot :: next :: rest)
    else ([], dot :: next :: rest)
  | tokens => ([], tokens)

theorem chain_length (tokens : List Token) : (chain tokens).2.length ≤ tokens.length := by
  fun_induction chain tokens <;> grind

/-- The last name of a chain is the column, the one before it the scope. -/
def ColumnRef.ofChain (first : String) (names : List String) : ColumnRef :=
  match (first :: names).reverse with
  | name :: scope :: _ => ⟨some scope, name⟩
  | name :: [] => ⟨none, name⟩
  | [] => ⟨none, first⟩

/-- The columns among the tokens: dotted names that are not called like functions. -/
def columnsAfter (afterDot : Bool) : List Token → List ColumnRef
  | [] => []
  | token :: rest =>
    match token.lexeme.name? with
    | none => columnsAfter (token.lexeme = .dot) rest
    | some first =>
      if afterDot then columnsAfter false rest
      else
        let names := (chain rest).1
        let behind := (chain rest).2
        let isCall := (behind.head?.map (·.lexeme)) = some .openParen
        (if isCall then [] else [.ofChain first names]) ++ columnsAfter false behind
termination_by tokens => tokens.length
decreasing_by
  · simp
  · simp
  · exact Nat.lt_succ_of_le (chain_length rest)

structure Expression where
  text : String
  columns : List ColumnRef
  position : Position
  deriving DecidableEq, Repr

def tokensPosition (tokens : List Token) : Position :=
  Position.merge (tokens.map (·.position))

namespace Expression

def ofTokens (tokens : List Token) : Expression where
  text := renderTokens false tokens
  columns := columnsAfter false tokens
  position := tokensPosition tokens

/-- The column that the expression is, if it is nothing more. -/
def column? (e : Expression) : Option String :=
  match e.columns with
  | [⟨none, name⟩] =>
    if Text.stripWhile (fun c => c = '"' || c = '`') e.text.toList = name.toList then some name
    else none
  | _ => none

end Expression

end SchemaDialects.Sql
