import SchemaDialects.Diagnostic

/-!
# SQL tokens

The vocabulary of the grammar. A keyword that is not reserved may also name a table or a column.
-/

namespace SchemaDialects.Sql

inductive Keyword
  | SELECT | DISTINCT | ALL | FROM | WHERE | GROUP | BY | HAVING | ORDER | ASC | DESC | LIMIT
  | OFFSET | JOIN | INNER | LEFT | RIGHT | FULL | OUTER | CROSS | ON | USING | AS | AND | OR | NOT
  | NULL | IS | IN | LIKE | BETWEEN | EXISTS | CASE | WHEN | THEN | ELSE | END | UNION | CREATE
  | ALTER | DROP | ADD | COLUMN | TABLE | ONLY | IF | PRIMARY | KEY | FOREIGN | REFERENCES | UNIQUE
  | DEFAULT | CONSTRAINT | INDEX | CHECK | DELETE | UPDATE | SET | INSERT | INTO | VALUES | CASCADE
  | RESTRICT | NO | ACTION | COMMENT | TYPE | ENUM | GENERATED | ALWAYS | STORED | AUTO_INCREMENT
  | TEMPORARY
  deriving DecidableEq, Repr

namespace Keyword

/-- The keyword in capitals. -/
def text : Keyword → String
  | SELECT => "SELECT" | DISTINCT => "DISTINCT" | ALL => "ALL" | FROM => "FROM"
  | WHERE => "WHERE" | GROUP => "GROUP" | BY => "BY" | HAVING => "HAVING" | ORDER => "ORDER"
  | ASC => "ASC" | DESC => "DESC" | LIMIT => "LIMIT" | OFFSET => "OFFSET" | JOIN => "JOIN"
  | INNER => "INNER" | LEFT => "LEFT" | RIGHT => "RIGHT" | FULL => "FULL" | OUTER => "OUTER"
  | CROSS => "CROSS" | ON => "ON" | USING => "USING" | AS => "AS" | AND => "AND" | OR => "OR"
  | NOT => "NOT" | NULL => "NULL" | IS => "IS" | IN => "IN" | LIKE => "LIKE"
  | BETWEEN => "BETWEEN" | EXISTS => "EXISTS" | CASE => "CASE" | WHEN => "WHEN" | THEN => "THEN"
  | ELSE => "ELSE" | END => "END" | UNION => "UNION" | CREATE => "CREATE" | ALTER => "ALTER"
  | DROP => "DROP" | ADD => "ADD" | COLUMN => "COLUMN" | TABLE => "TABLE" | ONLY => "ONLY"
  | IF => "IF" | PRIMARY => "PRIMARY" | KEY => "KEY" | FOREIGN => "FOREIGN"
  | REFERENCES => "REFERENCES" | UNIQUE => "UNIQUE" | DEFAULT => "DEFAULT"
  | CONSTRAINT => "CONSTRAINT" | INDEX => "INDEX" | CHECK => "CHECK" | DELETE => "DELETE"
  | UPDATE => "UPDATE" | SET => "SET" | INSERT => "INSERT" | INTO => "INTO" | VALUES => "VALUES"
  | CASCADE => "CASCADE" | RESTRICT => "RESTRICT" | NO => "NO" | ACTION => "ACTION"
  | COMMENT => "COMMENT" | TYPE => "TYPE" | ENUM => "ENUM" | GENERATED => "GENERATED"
  | ALWAYS => "ALWAYS" | STORED => "STORED" | AUTO_INCREMENT => "AUTO_INCREMENT"
  | TEMPORARY => "TEMPORARY"

def all : List Keyword :=
  [SELECT, DISTINCT, ALL, FROM, WHERE, GROUP, BY, HAVING, ORDER, ASC, DESC, LIMIT, OFFSET, JOIN,
    INNER, LEFT, RIGHT, FULL, OUTER, CROSS, ON, USING, AS, AND, OR, NOT, NULL, IS, IN, LIKE,
    BETWEEN, EXISTS, CASE, WHEN, THEN, ELSE, END, UNION, CREATE, ALTER, DROP, ADD, COLUMN, TABLE,
    ONLY, IF, PRIMARY, KEY, FOREIGN, REFERENCES, UNIQUE, DEFAULT, CONSTRAINT, INDEX, CHECK, DELETE,
    UPDATE, SET, INSERT, INTO, VALUES, CASCADE, RESTRICT, NO, ACTION, COMMENT, TYPE, ENUM,
    GENERATED, ALWAYS, STORED, AUTO_INCREMENT, TEMPORARY]

/-- The keyword that a word spells in any mixture of cases. -/
def ofWord? (word : String) : Option Keyword :=
  all.find? (·.text == word.toUpper)

/-- Reserved keywords never name anything. -/
def isReserved : Keyword → Bool
  | KEY | NO | ACTION | COMMENT | TYPE | ENUM | COLUMN | INDEX | ALWAYS | STORED | GENERATED
  | CASCADE | RESTRICT | TEMPORARY | ONLY | ASC | DESC | OFFSET | LIMIT | ADD | DELETE | UPDATE
  | INSERT | VALUES | IF | AUTO_INCREMENT => false
  | _ => true

theorem mem_all (k : Keyword) : k ∈ all := by
  cases k <;> decide

end Keyword

/-- What a token is, with the content of quoted ones. -/
inductive Lexeme
  | keyword (k : Keyword)
  | word (text : String)
  | quoted (name : String)
  | str (value : String)
  | num (text : String)
  | op (text : String)
  | openParen
  | closeParen
  | comma
  | semicolon
  | dot
  | star
  | finish
  deriving DecidableEq, Repr

structure Token where
  lexeme : Lexeme
  /-- The text of the token with its quotes. -/
  text : String
  position : Position
  deriving DecidableEq, Repr

namespace Lexeme

def isName : Lexeme → Bool
  | .word _ | .quoted _ => true
  | _ => false

/-- Names and the keywords that can stand for one. -/
def isNameLike : Lexeme → Bool
  | .keyword k => !k.isReserved
  | lexeme => lexeme.isName

/-- Whether this is the word `text`, in any mixture of cases. -/
def isWord (text : String) : Lexeme → Bool
  | .word w => w.toLower == text
  | _ => false

def isKeyword (k : Keyword) (lexeme : Lexeme) : Bool :=
  lexeme = .keyword k

/-- Whether a statement ends here. -/
def endsStatement : Lexeme → Bool
  | .semicolon | .finish => true
  | _ => false

end Lexeme

end SchemaDialects.Sql
