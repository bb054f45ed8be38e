import SchemaDialects.Json.Value
import SchemaDialects.Text.Escaped

/-!
# JSON as text

Two layouts of one value: `compact` has no white space, `pretty` has one member or item a line
and indents by two spaces.
-/

namespace SchemaDialects.Json

/-- One character inside a string. Only quotes, backslashes and controls are escaped. -/
def escapeChar (c : Char) : List Char :=
  if c = '"' then ['\\', '"']
  else if c = '\\' then ['\\', '\\']
  else if c = '\x08' then ['\\', 'b']
  else if c = '\x0c' then ['\\', 'f']
  else if c = '\n' then ['\\', 'n']
  else if c = '\r' then ['\\', 'r']
  else if c = '\t' then ['\\', 't']
  else if c.toNat < 0x10 then ['\\', 'u', '0', '0', '0'] ++ Text.hexDigits c.toNat
  else if c.toNat < 0x20 then ['\\', 'u', '0', '0'] ++ Text.hexDigits c.toNat
  else [c]

def string (s : String) : List Char :=
  '"' :: s.toList.flatMap escapeChar ++ ['"']

/-- The text of a value without parts. -/
def atom : Json → List Char
  | .null => "null".toList
  | .bool b => (if b then "true" else "false").toList
  | .int n => (toString n).toList
  | .float x => (x.format floatLayout).toList
  | .str s => string s
  | .arr _ => "[]".toList
  | .obj _ => "\x7b\x7d".toList

mutual

def compactChars : Json → List Char
  | .arr (v :: vs) => '[' :: compactChars v ++ compactItems vs ++ [']']
  | .obj ((k, v) :: ms) =>
    '\x7b' :: string k ++ ':' :: compactChars v ++ compactMembers ms ++ ['\x7d']
  | v => atom v

def compactItems : List Json → List Char
  | [] => []
  | v :: vs => ',' :: compactChars v ++ compactItems vs

def compactMembers : List (String × Json) → List Char
  | [] => []
  | (k, v) :: ms => ',' :: string k ++ ':' :: compactChars v ++ compactMembers ms

end

/-- The text without white space. -/
def compact (v : Json) : String :=
  String.ofList (compactChars v)

/-- A line break and the indentation of the next line. -/
def newLine (depth : Nat) : List Char :=
  '\n' :: List.replicate (2 * depth) ' '

mutual

def prettyChars (depth : Nat) : Json → List Char
  | .arr (v :: vs) =>
    '[' :: newLine (depth + 1) ++ prettyChars (depth + 1) v ++ prettyItems (depth + 1) vs ++
      newLine depth ++ [']']
  | .obj ((k, v) :: ms) =>
    '\x7b' :: newLine (depth + 1) ++ string k ++ ':' :: ' ' :: prettyChars (depth + 1) v ++
      prettyMembers (depth + 1) ms ++ newLine depth ++ ['\x7d']
  | v => atom v

def prettyItems (depth : Nat) : List Json → List Char
  | [] => []
  | v :: vs => ',' :: newLine depth ++ prettyChars depth v ++ prettyItems depth vs

def prettyMembers (depth : Nat) : List (String × Json) → List Char
  | [] => []
  | (k, v) :: ms =>
    ',' :: newLine depth ++ string k ++ ':' :: ' ' :: prettyChars depth v ++ prettyMembers depth ms

end

/-- The text with one item or member a line. -/
def pretty (v : Json) : String :=
  String.ofList (prettyChars 0 v)

example : compact (.obj [("a", .arr [.int 1, .null]), ("b", .obj [])]) =
    "\x7b\"a\":[1,null],\"b\":\x7b\x7d\x7d" := by cbv

end SchemaDialects.Json
