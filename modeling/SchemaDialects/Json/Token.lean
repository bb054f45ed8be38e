import SchemaDialects.Json.Fault
import SchemaDialects.Json.Value
import SchemaDialects.Text.Bytes

/-!
# Tokens of a JSON text

A text is cut into tokens without regard to their order. What goes wrong inside a token depends on
whether its value is wanted: `soft` faults (an unpaired surrogate, a number too great) concern
the reader of the value only, after the other ones nothing further can be read.
-/

namespace SchemaDialects.Json

/-- A value without parts. -/
inductive Scalar
  | null
  | bool (value : Bool)
  | int (value : Int)
  | float (value : Binary64)
  | str (value : String)

/-- What an unfinished token was going to be. -/
inductive Unfinished
  | text
  | number
  | word (value : Scalar)

inductive Lexeme
  | beginList
  | endList
  | beginRecord
  | endRecord
  | comma
  | colon
  /-- A string; its characters may be unreadable. -/
  | text (stop : Mark) (value : Except Fault String)
  /-- Any other scalar; a number may be out of range. -/
  | scalar (stop : Mark) (value : Except Fault Scalar)
  /-- An unfinished token. A reader of its value and one who skips it may see different faults. -/
  | broken (begun : Unfinished) (read skipped : Fault)
  | stray
  | finish

structure Token where
  start : Mark
  lexeme : Lexeme

/-- The point behind the first byte of a token. -/
def Token.peek (t : Token) : Mark :=
  match t.lexeme with
  | .finish => t.start
  | _ => ⟨t.start.line, t.start.column + 1⟩

/-- A token, where it ends, and the characters after it. -/
structure Scanned where
  lexeme : Lexeme
  stop : Mark
  rest : List Char

def isSpace (c : Char) : Bool :=
  c = ' ' || c = '\n' || c = '\t' || c = '\r'

/-! ### Strings -/

def hexValue? (c : Char) : Option Nat :=
  if '0' ≤ c ∧ c ≤ '9' then some (c.toNat - '0'.toNat)
  else if 'a' ≤ c ∧ c ≤ 'f' then some (c.toNat - 'a'.toNat + 10)
  else if 'A' ≤ c ∧ c ≤ 'F' then some (c.toNat - 'A'.toNat + 10)
  else none

/-- The value of four hexadecimal digits at the head of `cs`. -/
def hexCode? : List Char → Option Nat
  | a :: b :: c :: d :: _ => do
    return (((← hexValue? a) * 16 + (← hexValue? b)) * 16 + (← hexValue? c)) * 16 + (← hexValue? d)
  | _ => none

/-- The fault of an escape whose four digits, at `m`, cannot be read. -/
def hexFault (m : Mark) (cs : List Char) : Fault :=
  if Text.byteLength cs < 4 then ⟨.endInString, m.afterAll cs⟩
  else ⟨.invalidEscape, m.afterBytes 4 cs⟩

/-- The character that a one-letter escape stands for. -/
def simpleEscape? (c : Char) : Option Char :=
  if c = '"' ∨ c = '\\' ∨ c = '/' then some c
  else if c = 'b' then some '\x08'
  else if c = 'f' then some '\x0c'
  else if c = 'n' then some '\n'
  else if c = 'r' then some '\r'
  else if c = 't' then some '\t'
  else none

def isHighSurrogate (n : Nat) : Bool := 0xD800 ≤ n && n ≤ 0xDBFF

def isLowSurrogate (n : Nat) : Bool := 0xDC00 ≤ n && n ≤ 0xDFFF

/-- The characters after the closing quote, with their place; none when the string has no end. -/
def afterText (m : Mark) : List Char → Option (Mark × List Char)
  | [] => none
  | c :: cs =>
    if c = '"' then some (m.after c, cs)
    else if c = '\\' then
      match cs with
      | [] => none
      | d :: ds => afterText ((m.after c).after d) ds
    else afterText (m.after c) cs

/-- The first fault that prevents even skipping a string: a control character, an unknown escape, a
malformed one or the end of the text. -/
def hardFault? (m : Mark) : List Char → Option Fault
  | [] => some ⟨.endInString, m⟩
  | '"' :: _ => none
  | '\\' :: [] => some ⟨.endInString, m.after '\\'⟩
  | '\\' :: 'u' :: cs =>
    let m := (m.after '\\').after 'u'
    match hexCode? cs, cs with
    | some _, a :: b :: c :: d :: rest => hardFault? (m.afterAll [a, b, c, d]) rest
    | _, cs => some (hexFault m cs)
  | '\\' :: c :: cs =>
    if (simpleEscape? c).isSome then hardFault? ((m.after '\\').after c) cs
    else some ⟨.invalidEscape, (m.after '\\').afterByte c⟩
  | c :: cs => if c.toNat < 0x20 then some ⟨.controlCharacter, m⟩ else hardFault? (m.after c) cs

/-- The characters of a string up to its closing quote, or the first fault. -/
def textValue (m : Mark) : List Char → Except Fault (List Char)
  | [] => .error ⟨.endInString, m⟩
  | '"' :: _ => .ok []
  | '\\' :: [] => .error ⟨.endInString, m.after '\\'⟩
  | '\\' :: 'u' :: cs =>
    let m := (m.after '\\').after 'u'
    match hexCode? cs, cs with
    | some n, a :: b :: c :: d :: rest =>
      let m := m.afterAll [a, b, c, d]
      if isLowSurrogate n then .error ⟨.loneSurrogate, m⟩
      else if isHighSurrogate n then
        match rest with
        | [] => .error ⟨.endInString, m⟩
        | '\\' :: [] => .error ⟨.endInString, m.after '\\'⟩
        | '\\' :: 'u' :: ds =>
          let m := (m.after '\\').after 'u'
          match hexCode? ds, ds with
          | some low, e :: f :: g :: h :: rest =>
            let m := m.afterAll [e, f, g, h]
            if isLowSurrogate low then
              (textValue m rest).map
                (Char.ofNat ((n - 0xD800) * 0x400 + (low - 0xDC00) + 0x10000) :: ·)
            else .error ⟨.loneSurrogate, m⟩
          | _, ds => .error (hexFault m ds)
        | '\\' :: e :: _ => .error ⟨.unfinishedEscape, (m.after '\\').afterByte e⟩
        | e :: _ => .error ⟨.unfinishedEscape, m.afterByte e⟩
      else (textValue m rest).map (Char.ofNat n :: ·)
    | _, cs => .error (hexFault m cs)
  | '\\' :: c :: cs =>
    match simpleEscape? c with
    | some e => (textValue ((m.after '\\').after c) cs).map (e :: ·)
    | none => .error ⟨.invalidEscape, (m.after '\\').afterByte c⟩
  | c :: cs =>
    if c.toNat < 0x20 then .error ⟨.controlCharacter, m.afterByte c⟩
    else (textValue (m.after c) cs).map (c :: ·)

/-- The string whose opening quote stands before `m`. -/
def scanText (m : Mark) (cs : List Char) : Scanned :=
  let value := (textValue m cs).map String.ofList
  match hardFault? m cs, afterText m cs with
  | none, some (stop, rest) => ⟨.text stop value, stop, rest⟩
  | hard, _ =>
    let skipped := hard.getD ⟨.endInString, m⟩
    let read := match value with | .error f => f | .ok _ => skipped
    ⟨.broken .text read skipped, m, []⟩

/-! ### Numbers -/

def greatestWord : Nat := Nat.pow 2 64 - 1

/-- Appends digits to a significand as long as it fits a machine word; returns the significand, the
number of digits taken and those left over. -/
def absorb (significand : Nat) : List Char → Nat × Nat × List Char
  | [] => (significand, 0, [])
  | d :: ds =>
    let next := significand * 10 + (d.toNat - '0'.toNat)
    if greatestWord < next then (significand, 0, d :: ds)
    else
      let (s, taken, left) := absorb next ds
      (s, taken + 1, left)

/-- The digits of an exponent as a number; `stop` is the place of the digit at which it exceeds the
greatest exponent that is kept, if it does. -/
def exponentValue (m : Mark) (value : Nat) : List Char → Except Mark Nat
  | [] => .ok value
  | d :: ds =>
    let next := value * 10 + (d.toNat - '0'.toNat)
    if Nat.pow 2 31 - 1 < next then .error (m.after d) else exponentValue (m.after d) next ds

/-- The double `± significand · 10 ^ exponent`, or a fault at the end of the number. -/
def doubleAt (stop : Mark) (negative : Bool) (significand : Nat) (exponent : Int) :
    Except Fault Scalar :=
  match Binary64.ofScientific significand exponent with
  | some (m, e) => .ok (.float ⟨negative, m, e⟩)
  | none => .error ⟨.numberOutOfRange, stop⟩

/-- The exponent part, whose mark `e` stands before `m`. -/
def scanExponent (m : Mark) (negative : Bool) (significand : Nat) (exponent : Int) (cs : List Char) :
    Scanned :=
  let (sign, m, cs) : Bool × Mark × List Char :=
    match cs with
    | '+' :: rest => (false, m.after '+', rest)
    | '-' :: rest => (true, m.after '-', rest)
    | _ => (false, m, cs)
  let digits := cs.takeWhile Char.isDigit
  let rest := cs.dropWhile Char.isDigit
  let stop := m.afterAll digits
  match digits with
  | [] =>
    let skipped : Fault := ⟨.invalidNumber, m.peek cs⟩
    let read : Fault := if cs.isEmpty then ⟨.endInValue, m⟩ else skipped
    ⟨.broken .number read skipped, m, []⟩
  | _ =>
    let value :=
      match exponentValue m 0 digits with
      | .ok e => doubleAt stop negative significand (if sign then exponent - e else exponent + e)
      | .error place =>
        if significand ≠ 0 ∧ !sign then .error ⟨.numberOutOfRange, place⟩
        else .ok (.float (Binary64.zero negative))
    ⟨.scalar stop value, stop, rest⟩

/-- The part after the point, which stands before `m`. -/
def scanFraction (m : Mark) (negative : Bool) (significand : Nat) (exponent : Int) (cs : List Char) :
    Scanned :=
  let digits := cs.takeWhile Char.isDigit
  let rest := cs.dropWhile Char.isDigit
  let stop := m.afterAll digits
  match digits with
  | [] =>
    let skipped : Fault := ⟨.invalidNumber, m.peek cs⟩
    let read : Fault := if cs.isEmpty then ⟨.endInValue, m⟩ else skipped
    ⟨.broken .number read skipped, m, []⟩
  | _ =>
    let (significand, taken, _) := absorb significand digits
    let exponent := exponent - taken
    match rest with
    | c :: after =>
      if c = 'e' ∨ c = 'E' then scanExponent (stop.after c) negative significand exponent after
      else ⟨.scalar stop (doubleAt stop negative significand exponent), stop, rest⟩
    | [] => ⟨.scalar stop (doubleAt stop negative significand exponent), stop, rest⟩

/-- A number without fraction and exponent: an integer if it fits a machine word of its sign. -/
def integerAt (stop : Mark) (negative : Bool) (significand dropped : Nat) : Except Fault Scalar :=
  if dropped ≠ 0 then doubleAt stop negative significand dropped
  else if !negative then .ok (.int significand)
  else if 0 < significand ∧ significand ≤ Nat.pow 2 63 then .ok (.int (-significand))
  else doubleAt stop negative significand 0

/-- The number whose first digit is the head of `cs`; a sign stands before it. -/
def scanNumber (m : Mark) (negative : Bool) (cs : List Char) : Scanned :=
  match cs with
  | [] => ⟨.broken .number ⟨.endInValue, m⟩ ⟨.invalidNumber, m⟩, m, []⟩
  | c :: tail =>
    if !c.isDigit then
      let fault : Fault := ⟨.invalidNumber, m.afterByte c⟩
      ⟨.broken .number fault fault, m, []⟩
    else if c = '0' ∧ (tail.headD ' ').isDigit then
      let fault : Fault := ⟨.invalidNumber, (m.after c).peek tail⟩
      ⟨.broken .number fault fault, m, []⟩
    else
      let digits := cs.takeWhile Char.isDigit
      let rest := cs.dropWhile Char.isDigit
      let stop := m.afterAll digits
      let (significand, _, left) := absorb 0 digits
      let dropped := left.length
      match rest with
      | d :: after =>
        if d = '.' then scanFraction (stop.after d) negative significand dropped after
        else if d = 'e' ∨ d = 'E' then scanExponent (stop.after d) negative significand dropped after
        else ⟨.scalar stop (integerAt stop negative significand dropped), stop, rest⟩
      | [] => ⟨.scalar stop (integerAt stop negative significand dropped), stop, rest⟩

/-! ### Words and whole texts -/

/-- The rest of the word `value`, whose first letter stands before `m`. -/
def scanWord (value : Scalar) (m : Mark) : (word cs : List Char) → Scanned
  | [], cs => ⟨.scalar m (.ok value), m, cs⟩
  | _ :: _, [] => ⟨.broken (.word value) ⟨.endInValue, m⟩ ⟨.endInValue, m⟩, m, []⟩
  | w :: ws, c :: cs =>
    if w = c then scanWord value (m.after c) ws cs
    else
      let fault : Fault := ⟨.misspelledWord, m.afterByte c⟩
      ⟨.broken (.word value) fault fault, m, []⟩

/-- The tokens of one character. -/
def punctuation? (c : Char) : Option Lexeme :=
  if c = '[' then some .beginList
  else if c = ']' then some .endList
  else if c = '\x7b' then some .beginRecord
  else if c = '\x7d' then some .endRecord
  else if c = ',' then some .comma
  else if c = ':' then some .colon
  else none

/-- The token that begins with `c` at `m`. -/
def scan (m : Mark) (c : Char) (cs : List Char) : Scanned :=
  let next := m.after c
  match punctuation? c with
  | some lexeme => ⟨lexeme, next, cs⟩
  | none =>
    if c = '"' then scanText next cs
    else if c = 'n' then scanWord .null next "ull".toList cs
    else if c = 't' then scanWord (.bool true) next "rue".toList cs
    else if c = 'f' then scanWord (.bool false) next "alse".toList cs
    else if c = '-' then scanNumber next true cs
    else if c.isDigit then scanNumber m false (c :: cs)
    else ⟨.stray, next, cs⟩

/-- The number that a text is as a whole. -/
def number? (cs : List Char) : Option Scalar :=
  let scanned := match cs with
    | '-' :: rest => scanNumber {} true rest
    | _ => scanNumber {} false cs
  match scanned.lexeme, scanned.rest with
  | .scalar _ (.ok value), [] => some value
  | _, _ => none

theorem afterText_length {m : Mark} {cs : List Char} {r : Mark × List Char}
    (h : afterText m cs = some r) : r.2.length ≤ cs.length := by
  fun_induction afterText m cs with
  | case1 => simp at h
  | case2 => simp at h; subst h; simp
  | case3 => simp at h
  | case4 m c d ds ih => have := ih h; simp; omega
  | case5 m c cs hc hd ih => have := ih h; simp; omega

theorem scanText_length (m : Mark) (cs : List Char) : (scanText m cs).rest.length ≤ cs.length := by
  unfold scanText
  split
  · exact afterText_length ‹_›
  · simp

theorem scanWord_length (value : Scalar) (m : Mark) (ws cs : List Char) :
    (scanWord value m ws cs).rest.length ≤ cs.length := by
  fun_induction scanWord value m ws cs <;> grind

theorem length_dropWhile_le (p : Char → Bool) (cs : List Char) :
    (cs.dropWhile p).length ≤ cs.length :=
  (List.dropWhile_suffix p).length_le

theorem scanExponent_length (m : Mark) (negative : Bool) (significand : Nat) (exponent : Int)
    (cs : List Char) : (scanExponent m negative significand exponent cs).rest.length ≤ cs.length := by
  unfold scanExponent
  grind [length_dropWhile_le]

theorem scanFraction_length (m : Mark) (negative : Bool) (significand : Nat) (exponent : Int)
    (cs : List Char) : (scanFraction m negative significand exponent cs).rest.length ≤ cs.length := by
  unfold scanFraction
  grind [length_dropWhile_le, scanExponent_length]

/-- A number takes at least the digit it begins with. -/
theorem scanNumber_length (m : Mark) (negative : Bool) (c : Char) (cs : List Char) :
    (scanNumber m negative (c :: cs)).rest.length ≤ cs.length := by
  by_cases hd : c.isDigit = true
  · have h := length_dropWhile_le Char.isDigit cs
    simp only [scanNumber, hd, List.dropWhile_cons_of_pos, Bool.not_true, Bool.false_eq_true, if_false]
    grind [scanFraction_length, scanExponent_length]
  · simp [scanNumber, hd]

/-- Every token takes at least its first character. -/
theorem scan_length (m : Mark) (c : Char) (cs : List Char) :
    (scan m c cs).rest.length ≤ cs.length := by
  have hminus : (scanNumber (m.after c) true cs).rest.length ≤ cs.length := by
    cases cs with
    | nil => simp [scanNumber]
    | cons d ds => exact Nat.le_succ_of_le (scanNumber_length _ _ d ds)
  have hdigit := scanNumber_length m false c cs
  have htext := scanText_length (m.after c) cs
  have hword := fun v ws => scanWord_length v (m.after c) ws cs
  unfold scan
  grind

/-- The tokens of a text, the end of the text last. -/
def tokens (m : Mark) : List Char → List Token
  | [] => [⟨m, .finish⟩]
  | c :: cs =>
    if isSpace c then tokens (m.after c) cs
    else
      let s := scan m c cs
      ⟨m, s.lexeme⟩ :: tokens s.stop s.rest
termination_by cs => cs.length
decreasing_by
  · simp
  · exact Nat.lt_succ_of_le (scan_length m c cs)

end SchemaDialects.Json
