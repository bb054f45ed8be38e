import SchemaDialects.Json.Printer

/-!
# Faults of JSON input

Why a text is not JSON, or why a value is not what a reader expects, and where that shows. Columns
count bytes, because that is the unit in which exchanged texts are addressed.
-/

namespace SchemaDialects.Json

/-- A point of a text: the line, counted from one, and the bytes of that line before it. -/
structure Mark where
  line : Nat := 1
  column : Nat := 0
  deriving DecidableEq, Repr

/-- The point behind `c`. -/
def Mark.after (m : Mark) (c : Char) : Mark :=
  if c = '\n' then ⟨m.line + 1, 0⟩ else ⟨m.line, m.column + c.utf8Size⟩

/-- The point behind the first byte of `c`. -/
def Mark.afterByte (m : Mark) (c : Char) : Mark :=
  if c = '\n' then ⟨m.line + 1, 0⟩ else ⟨m.line, m.column + 1⟩

/-- The point behind the first byte of what follows, or the end itself. -/
def Mark.peek (m : Mark) : List Char → Mark
  | [] => m
  | c :: _ => m.afterByte c

/-- The point behind all of `cs`. -/
def Mark.afterAll (m : Mark) (cs : List Char) : Mark :=
  cs.foldl Mark.after m

/-- The point `n` bytes further on, possibly inside a character. -/
def Mark.afterBytes (m : Mark) : Nat → List Char → Mark
  | _, [] => m
  | n, c :: cs =>
    if n = 0 then m
    else if c.utf8Size ≤ n then (m.after c).afterBytes (n - c.utf8Size) cs
    else ⟨m.line, m.column + n⟩

/-- What stands where something else was expected. -/
inductive Found
  | null
  | bool (value : Bool)
  | int (value : Int)
  | float (value : Binary64)
  | str (value : String)
  | list
  | record

def Found.describe : Found → String
  | .null => "null"
  | .bool b => "boolean `" ++ (if b then "true" else "false") ++ "`"
  | .int n => "integer `" ++ toString n ++ "`"
  | .float x => "floating point `" ++ x.format floatLayout ++ "`"
  | .str s => "string " ++ Text.quoted s
  | .list => "sequence"
  | .record => "map"

/-- Why reading fails. -/
inductive Cause
  | endInList
  | endInRecord
  | endInString
  | endInValue
  | expectedColon
  | expectedListSeparator
  | expectedRecordSeparator
  | misspelledWord
  | expectedValue
  | invalidEscape
  | invalidNumber
  | numberOutOfRange
  | controlCharacter
  | keyNotString
  | loneSurrogate
  | unfinishedEscape
  | trailingComma
  | trailingText
  | tooDeep
  | wrongType (found : Found) (expected : String)
  | wrongValue (found : Found) (expected : String)
  | wrongLength (length : Nat) (expected : String)
  | missingField (name : String)
  | duplicateField (name : String)
  | unknownVariant (name : String) (known : List String)

/-- The names that are allowed, as part of a sentence. -/
def describeChoice : List String → String
  | [] => "nothing"
  | [a] => "`" ++ a ++ "`"
  | [a, b] => "`" ++ a ++ "` or `" ++ b ++ "`"
  | names => "one of " ++ ", ".intercalate (names.map fun name => "`" ++ name ++ "`")

def Cause.message : Cause → String
  | .endInList => "EOF while parsing a list"
  | .endInRecord => "EOF while parsing an object"
  | .endInString => "EOF while parsing a string"
  | .endInValue => "EOF while parsing a value"
  | .expectedColon => "expected `:`"
  | .expectedListSeparator => "expected `,` or `]`"
  | .expectedRecordSeparator => "expected `,` or `\x7d`"
  | .misspelledWord => "expected ident"
  | .expectedValue => "expected value"
  | .invalidEscape => "invalid escape"
  | .invalidNumber => "invalid number"
  | .numberOutOfRange => "number out of range"
  | .controlCharacter => "control character (\\u0000-\\u001F) found while parsing a string"
  | .keyNotString => "key must be a string"
  | .loneSurrogate => "lone leading surrogate in hex escape"
  | .unfinishedEscape => "unexpected end of hex escape"
  | .trailingComma => "trailing comma"
  | .trailingText => "trailing characters"
  | .tooDeep => "recursion limit exceeded"
  | .wrongType found expected => "invalid type: " ++ found.describe ++ ", expected " ++ expected
  | .wrongValue found expected => "invalid value: " ++ found.describe ++ ", expected " ++ expected
  | .wrongLength length expected => "invalid length " ++ toString length ++ ", expected " ++ expected
  | .missingField name => "missing field `" ++ name ++ "`"
  | .duplicateField name => "duplicate field `" ++ name ++ "`"
  | .unknownVariant name known => "unknown variant `" ++ name ++ "`, expected " ++ describeChoice known

/-- A cause and, for a value that was read from text, the place. -/
structure Fault where
  cause : Cause
  place : Option Mark

def Fault.message (f : Fault) : String :=
  match f.place with
  | some m => f.cause.message ++ " at line " ++ toString m.line ++ " column " ++ toString m.column
  | none => f.cause.message

/-- The same cause at a place unknown to its author. -/
def Fault.placedAt (place : Option Mark) (f : Fault) : Fault :=
  { f with place := place }

end SchemaDialects.Json
