import SchemaDialects.Text.CaseTables

/-!
# Letter case

Upper and lower case of whole texts. A character may become several, and a capital sigma
becomes a final sigma at the end of a word.
-/

namespace SchemaDialects.Text

/-- The image of `n` under the first run that maps it. -/
def CaseRun.image? (n : Nat) : List CaseRun → Option Nat
  | [] => none
  | run :: rest =>
    if run.first ≤ n ∧ n ≤ run.last ∧ (n - run.first) % run.step = 0 then
      some (n + run.distance).toNat
    else image? n rest

/-- The lower-case form of one character taken by itself. -/
def lowerChar (c : Char) : List Char :=
  if c.toNat < 0x80 then [c.toLower]
  else match lowerExpansions.lookup c.toNat with
    | some codes => codes.map Char.ofNat
    | none => [(CaseRun.image? c.toNat lowerRuns).elim c Char.ofNat]

/-- The upper-case form of one character. -/
def upperChar (c : Char) : List Char :=
  if c.toNat < 0x80 then [c.toUpper]
  else match upperExpansions.lookup c.toNat with
    | some codes => codes.map Char.ofNat
    | none => [(CaseRun.image? c.toNat upperRuns).elim c Char.ofNat]

/-- Whether a cased character comes next, the case-ignorable ones aside. -/
def casedAhead (cs : List Char) : Bool :=
  match cs.dropWhile caseIgnorable.contains with
  | [] => false
  | c :: _ => cased.contains c

/-- Lower case of `cs` where `before` holds the characters to its left, nearest first. -/
def lowerAfter (before : List Char) : List Char → List Char
  | [] => []
  | c :: cs =>
    let form :=
      if c = 'Σ' then [if casedAhead before && !casedAhead cs then 'ς' else 'σ'] else lowerChar c
    form ++ lowerAfter (c :: before) cs

/-- The text in lower case. -/
def lowercase (s : String) : String :=
  String.ofList (lowerAfter [] s.toList)

/-- The text in upper case. -/
def uppercase (s : String) : String :=
  String.ofList (s.toList.flatMap upperChar)

end SchemaDialects.Text
