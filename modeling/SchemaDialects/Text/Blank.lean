/-!
# Blanks

White space of any script and the trimming that goes with it. Lists of characters are the view
on which the readers work; `trim` is the same operation on strings.
-/

namespace SchemaDialects.Text

/-- Characters with the property White_Space. -/
def isBlank (c : Char) : Bool :=
  let n := c.toNat
  (0x9 ≤ n && n ≤ 0xD) || n == 0x20 || n == 0x85 || n == 0xA0 || n == 0x1680 ||
    (0x2000 ≤ n && n ≤ 0x200A) || n == 0x2028 || n == 0x2029 || n == 0x202F || n == 0x205F ||
    n == 0x3000

/-- Drops the characters at the end that satisfy `p`. -/
def dropEndWhile (p : Char → Bool) (cs : List Char) : List Char :=
  (cs.reverse.dropWhile p).reverse

/-- Drops the characters at both ends that satisfy `p`. -/
def stripWhile (p : Char → Bool) (cs : List Char) : List Char :=
  dropEndWhile p (cs.dropWhile p)

/-- The text without the blanks at its two ends. -/
def trim (s : String) : String :=
  String.ofList (stripWhile isBlank s.toList)

/-- Cuts before every character that satisfies `p` and drops that character; empty pieces stay. -/
def pieces (p : Char → Bool) : List Char → List (List Char)
  | [] => [[]]
  | c :: cs =>
    match pieces p cs with
    | [] => [[c]]
    | piece :: rest => if p c then [] :: piece :: rest else (c :: piece) :: rest

/-- The runs of characters that do not satisfy `p`. -/
def runs (p : Char → Bool) (cs : List Char) : List (List Char) :=
  (pieces p cs).filter (!·.isEmpty)

/-- The words of a text with one space between them. -/
def collapseBlanks (cs : List Char) : List Char :=
  [' '].intercalate (runs isBlank cs)

example : trim "\u3000 a b\t" = "a b" := by decide

end SchemaDialects.Text
