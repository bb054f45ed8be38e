import SchemaDialects.Position

/-!
# Places

A place lies between two characters of a text: so many bytes from its beginning, on some line and
column. Walking over characters moves it; two places make a position.
-/

namespace SchemaDialects

structure Place where
  offset : Nat := 0
  location : Location := ⟨1, 1⟩
  deriving DecidableEq, Repr

namespace Place

def after (p : Place) (c : Char) : Place where
  offset := p.offset + c.utf8Size
  location := if c = '\n' then ⟨p.location.line + 1, 1⟩ else ⟨p.location.line, p.location.column + 1⟩

def afterAll (p : Place) (cs : List Char) : Place :=
  cs.foldl after p

def upTo (start stop : Place) : Position :=
  ⟨⟨start.offset, stop.offset⟩, start.location, stop.location⟩

end Place

end SchemaDialects
