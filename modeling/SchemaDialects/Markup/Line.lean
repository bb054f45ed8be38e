import SchemaDialects.Diagnostic
import SchemaDialects.Place
import SchemaDialects.Text.Search
import SchemaDialects.Text.Tile

/-!
# Lines of markup

The markup language is read line by line. A line has an indentation, words, a note behind a bar and a
comment behind a hash. Quotes and parentheses keep blanks inside one word.
-/

namespace SchemaDialects.Markup

/-- A piece of a line and where it stands. -/
structure Word where
  text : String
  position : Position
  deriving DecidableEq, Repr

/-- Whether the word is `keyword`, which is written in small letters, in any case. -/
def Word.is (w : Word) (keyword : String) : Bool :=
  w.text.toLower == keyword

structure Line where
  /-- Counted from one. -/
  number : Nat
  /-- The width of the blanks in front. -/
  indent : Nat := 0
  words : List Word := []
  note : Option Word := none
  comment : Option Word := none
  deriving DecidableEq, Repr

namespace Line

/-- There is nothing on the line. -/
def isBlank (l : Line) : Bool :=
  l.words.isEmpty && l.note.isNone && l.comment.isNone

/-- There is nothing but a comment. -/
def isComment (l : Line) : Bool :=
  l.words.isEmpty && l.note.isNone && l.comment.isSome

def position (l : Line) : Position :=
  .merge ((l.words ++ l.note.toList ++ l.comment.toList).map (·.position))

end Line

/-- What is wrong with a word. -/
inductive WordProblem
  | openQuote (quote : Char)
  | openParenthesis
  deriving DecidableEq, Repr

def WordProblem.message : WordProblem → String
  | .openQuote q => "Unterminated " ++ String.singleton q ++ " quote"
  | .openParenthesis => "Unclosed parenthesis"

def WordProblem.kind : WordProblem → DiagnosticKind
  | .openQuote _ => .unterminatedLiteral
  | .openParenthesis => .invalidSyntax

def WordProblem.diagnostic (p : WordProblem) (position : Position) : Diagnostic :=
  ⟨.error, p.kind, p.message, position⟩

/-! ### Cutting -/

/-- Blanks between words. -/
def isSpacing (c : Char) : Bool := c = ' ' || c = '\t'

/-- A tab counts as two spaces. -/
def indentWidth : List Char → Nat
  | [] => 0
  | c :: cs => if c = ' ' then indentWidth cs + 1 else if c = '\t' then indentWidth cs + 2 else 0

/-- What a word leaves open so far: parentheses and a quote. -/
structure Nesting where
  depth : Nat := 0
  quote : Option Char := none
  deriving DecidableEq, Repr

namespace Nesting

/-- Inside quotes only the closing quote counts. -/
def step (s : Nesting) (c : Char) : Nesting :=
  match s.quote with
  | some q => if c = q then { s with quote := none } else s
  | none =>
    if c = '"' ∨ c = '`' then { s with quote := some c }
    else if c = '(' then { s with depth := s.depth + 1 }
    else if c = ')' then { s with depth := s.depth - 1 }
    else s

/-- Whether nothing is open. -/
def isFlat (s : Nesting) : Bool := s.quote.isNone && s.depth = 0

end Nesting

/-- How many characters still belong to a word, and what it leaves open. -/
def wordLength (s : Nesting) : List Char → Nat × Nesting
  | [] => (0, s)
  | c :: cs =>
    if s.isFlat ∧ isSpacing c then (0, s)
    else
      let (n, final) := wordLength (s.step c) cs
      (n + 1, final)

/-- How many characters belong to a note: a hash behind a blank ends it. -/
def noteLength (previous : Char) : List Char → Nat
  | [] => 0
  | c :: cs => if c = '#' ∧ Text.isBlank previous then 0 else noteLength c cs + 1

inductive Piece
  | spacing
  | word (final : Nesting)
  | note
  | comment
  deriving DecidableEq, Repr

/-- The piece that begins with `c`, and how many of the characters `cs` behind `c` belong to it. -/
def cut (c : Char) (cs : List Char) : Piece × Nat :=
  if isSpacing c then (.spacing, 0)
  else if c = '#' then (.comment, cs.length)
  else if c = '|' then (.note, noteLength c cs)
  else
    let (n, final) := wordLength (Nesting.step {} c) cs
    (.word final, n)

/-! ### Lines -/

def Word.between (start : Place) (chars : List Char) : Word :=
  ⟨String.ofList chars, start.upTo (start.afterAll chars)⟩

/-- The content of a note or comment behind its mark, without the blanks around it. -/
def Word.trimmed (start : Place) (chars : List Char) : Word :=
  .between (start.afterAll (chars.takeWhile Text.isBlank)) (Text.stripWhile Text.isBlank chars)

/-- A quote that is left open reaches from its last occurrence to the end of the line. -/
def openQuoteProblem (start : Place) (chars : List Char) (q : Char) : Diagnostic :=
  let tail := (chars.reverse.takeWhile (· ≠ q)).length + 1
  let position := (start.afterAll (chars.take (chars.length - tail))).upTo (start.afterAll chars)
  (WordProblem.openQuote q).diagnostic position

def wordProblems (start : Place) (chars : List Char) (final : Nesting) : List Diagnostic :=
  final.quote.toList.map (openQuoteProblem start chars) ++
    if final.depth = 0 then []
    else [WordProblem.openParenthesis.diagnostic (start.upTo (start.afterAll chars))]

/-- The line that the pieces behind `place` make up, without its indentation. -/
def assemble (place : Place) : List (Piece × List Char) → Line × List Diagnostic
  | [] => ({ number := place.location.line }, [])
  | (piece, chars) :: rest =>
    let (line, problems) := assemble (place.afterAll chars) rest
    match piece, chars with
    | .word final, _ =>
      ({ line with words := .between place chars :: line.words },
        wordProblems place chars final ++ problems)
    | .note, mark :: content =>
      ({ line with note := some (.trimmed (place.after mark) content) }, problems)
    | .comment, mark :: content =>
      ({ line with comment := some (.trimmed (place.after mark) content) }, problems)
    | _, _ => (line, problems)

/-- Reads one line, given without its line feed. A carriage return at its end does not count. -/
def readLine (place : Place) (chars : List Char) : Line × List Diagnostic :=
  let content := (Text.dropTail? ['\r'] chars).getD chars
  let (line, problems) := assemble place (Text.tiles cut content)
  ({ line with indent := indentWidth content }, problems)

def readLinesFrom (place : Place) : List (List Char) → List Line × List Diagnostic
  | [] => ([], [])
  | chars :: rest =>
    let (line, problems) := readLine place chars
    let (lines, more) := readLinesFrom (place.afterAll (chars ++ ['\n'])) rest
    (line :: lines, problems ++ more)

/-- The lines of a text; a line feed at its end begins one more line. -/
def readLines (text : String) : List Line × List Diagnostic :=
  readLinesFrom {} (Text.splitAt '\n' text.toList)

end SchemaDialects.Markup
