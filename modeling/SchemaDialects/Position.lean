/-!
# Positions

Where a token, a statement or a problem stands in its text: the bytes it covers and the line and
column of both ends. A position of line zero is unknown. Positions are joined into the least one
that covers them; unknown ones do not count.
-/

namespace SchemaDialects

/-- A line and a column, counted from one; zero when unknown. -/
structure Location where
  line : Nat := 0
  column : Nat := 0
  deriving DecidableEq, Repr, Inhabited

namespace Location

/-- Reading order. -/
def atMost (a b : Location) : Bool :=
  a.line < b.line || (a.line == b.line && a.column ≤ b.column)

def earlier (a b : Location) : Location :=
  if a.atMost b then a else b

def later (a b : Location) : Location :=
  if a.atMost b then b else a

end Location

/-- A range of bytes without its end. -/
structure Span where
  start : Nat := 0
  stop : Nat := 0
  deriving DecidableEq, Repr, Inhabited

structure Position where
  offset : Span := {}
  start : Location := {}
  stop : Location := {}
  deriving DecidableEq, Repr, Inhabited

namespace Position

def unknown : Position := {}

/-- Whether the position points at real text. -/
def isValid (p : Position) : Bool :=
  0 < p.start.line && 0 < p.stop.line && p.offset.start ≤ p.offset.stop

/-- The least position that covers both. -/
def join (a b : Position) : Position where
  offset := ⟨min a.offset.start b.offset.start, max a.offset.stop b.offset.stop⟩
  start := a.start.earlier b.start
  stop := a.stop.later b.stop

/-- The least position that covers every valid one; unknown if there is none. -/
def merge (positions : List Position) : Position :=
  match positions.filter isValid with
  | [] => unknown
  | p :: rest => rest.foldl join p

/-- From one position to another. -/
def upTo (a b : Position) : Position :=
  merge [a, b]

/-- Line and column of the start, or a question mark. -/
def render (p : Position) : String :=
  if p.isValid then toString p.start.line ++ ":" ++ toString p.start.column else "?"

end Position

end SchemaDialects
