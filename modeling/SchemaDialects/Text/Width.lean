import SchemaDialects.Text.WidthTables

/-!
# Display width

How many columns of a terminal or a fixed-width font a text fills. Characters are taken from the
last to the first, because several scripts and all composed emoji merge a character with what
follows it; `Follow` is all that has to be known of the right-hand side.
-/

namespace SchemaDialects.Text

/-- What follows a character, as far as it can change the width. -/
inductive Follow
  | other
  | lineFeed
  /-- A complete emoji. -/
  | emoji
  /-- A joiner and after it an emoji. -/
  | joinedEmoji
  /-- An enclosing keycap in front of a joined emoji. -/
  | joinedKeycap
  | skinTone
  /-- A single regional indicator: half a flag. -/
  | indicator
  /-- At least two regional indicators. -/
  | flags
  /-- A single regional indicator in front of a joined emoji. -/
  | joinedIndicator
  /-- At least two of them; `even` when they pair up. -/
  | joinedFlags (even : Bool)
  /-- The end of a tag sequence with the number of its letters so far. -/
  | tagLetters (count : Nat)
  /-- The same with digits in front of the letters. -/
  | tagDigits (count : Nat)
  | alef
  | lamed (joined : Bool)
  | khmerLetter
  | bugineseYa (joined : Bool)
  | bugineseVowel
  | tifinaghConsonant (joined : Bool)
  | tifinaghJoiner
  | lisuTone
  | orkhonI (joined : Bool)
  /-- The vowel sign e of the script Kirat Rai. -/
  | kiratRaiE
  /-- The vowel sign ai of that script. -/
  | kiratRaiAi
  deriving DecidableEq

/-- The form that a variation selector asks of the character before it. -/
inductive Style
  | asIs
  | asEmoji
  | asText
  | asFullwidth
  deriving DecidableEq

namespace Follow

/-- Followers of a ligature that marks without a form and joiners do not break. -/
def keepsThroughMarks : Follow → Bool
  | .lamed _ | .bugineseYa _ | .bugineseVowel | .tifinaghConsonant _ | .tifinaghJoiner
  | .lisuTone | .orkhonI _ | .khmerLetter => true
  | _ => false

/-- What remains of a follower behind a variation selector: any ligature does. -/
def behindSelector (follow : Follow) : Follow :=
  if follow.keepsThroughMarks || follow = .alef then follow else .other

/-- The same follower behind a joiner. -/
def join : Follow → Follow
  | .lamed _ => .lamed true
  | .bugineseYa _ => .bugineseYa true
  | .tifinaghConsonant _ => .tifinaghConsonant true
  | .orkhonI _ => .orkhonI true
  | follow => follow

/-- Whether a joiner connects what stands before it with an emoji. -/
def isJoined (follow : Follow) : Bool :=
  follow = .joinedEmoji || follow = .joinedKeycap

end Follow

private def between (low high n : Nat) : Bool :=
  low ≤ n && n ≤ high

/-- Combining marks without a visible form: they do not break a ligature. -/
def isIgnorableMark (c : Char) : Bool :=
  let n := c.toNat
  n == 0x34F || between 0x17B4 0x17B5 n || between 0x180B 0x180D n || n == 0x180F || n == 0x200D ||
    between 0xFE00 0xFE0F n || between 0xE0100 0xE01EF n

def isRegionalIndicator (c : Char) : Bool :=
  between 0x1F1E6 0x1F1FF c.toNat

def isSkinTone (c : Char) : Bool :=
  between 0x1F3FB 0x1F3FF c.toNat

/-- The quotation marks that have a form as wide as an ideograph. -/
def isWideQuote (c : Char) : Bool :=
  let n := c.toNat
  between 0x2018 0x2019 n || between 0x201C 0x201D n

def isTifinaghConsonant (c : Char) : Bool :=
  between 0x2D31 0x2D65 c.toNat || c.toNat == 0x2D6F

/-- Arabic letters that form a ligature with a following alef. -/
def isLam (c : Char) : Bool :=
  let n := c.toNat
  n == 0x644 || between 0x6B5 0x6B8 n || n == 0x76A || n == 0x8A6 || n == 0x8C7

def isAlef (c : Char) : Bool :=
  let n := c.toNat
  n == 0x622 || n == 0x623 || n == 0x625 || n == 0x627 || between 0x671 0x673 n || n == 0x675 ||
    n == 0x773 || n == 0x774 || between 0x870 0x882 n

/-- Khmer letters that a coeng sign turns into a subscript. -/
def isKhmerSubscript (c : Char) : Bool :=
  let n := c.toNat
  between 0x1780 0x1782 n || between 0x1784 0x1787 n || between 0x1789 0x178C n ||
    between 0x178E 0x1793 n || between 0x1795 0x1798 n || between 0x179B 0x179D n ||
    n == 0x17A0 || n == 0x17A2 || n == 0x17A7 || between 0x17AB 0x17AC n || n == 0x17AF

/-- The width of a character by itself. -/
def charWidth (c : Char) : Nat :=
  if c.toNat ≤ 0xA0 then 1
  else if c.toNat == 0x17D8 then 3
  else if c.toNat == 0x17A4 || c.toNat == 0x115F then 2
  else if zeroWidth.contains c then 0
  else if wide.contains c then 2
  else 1

example : charWidth '漢' = 2 ∧ charWidth 'é' = 1 ∧ charWidth '\u0301' = 0 := by decide +kernel
example : charWidth '\u1160' = 0 ∧ charWidth 'ﾞ' = 1 := by decide +kernel

/-- What the character is to the one before it. -/
def roleOf (c : Char) : Follow :=
  if c = '\n' then .lineFeed
  else if c.toNat ≤ 0xA0 then .other
  else if isSkinTone c then .skinTone
  else if isRegionalIndicator c then .indicator
  else if emojiPresentation.contains c then .emoji
  else if isAlef c then .alef
  else if c.toNat == 0x5DC then .lamed false
  else if isKhmerSubscript c then .khmerLetter
  else if c.toNat == 0x1A10 then .bugineseYa false
  else if isTifinaghConsonant c then .tifinaghConsonant false
  else if between 0xA4FC 0xA4FD c.toNat then .lisuTone
  else if c.toNat == 0x10C03 then .orkhonI false
  else if c.toNat == 0x16D67 then .kiratRaiE
  else if c.toNat == 0x16D68 then .kiratRaiAi
  else .other

/-- The columns that `c` adds when it merges with `follow`, and what it is then to the next
character on the left. A later character may take back a column, hence the integer. -/
def merge? (c : Char) (follow : Follow) : Option (Int × Follow) :=
  let n := c.toNat
  match follow with
  | .lineFeed => if c = '\r' then some (0, .other) else none
  | .alef =>
    if isLam c then some (0, .other)
    else if zeroWidth.contains c && !separating.contains c then some (0, .alef)
    else none
  | .lamed true => if n == 0x5D0 then some (0, .other) else none
  | .khmerLetter => if n == 0x17D2 then some (-1, .other) else none
  | .bugineseYa true => if n == 0x1A17 then some (0, .bugineseVowel) else none
  | .bugineseVowel => if n == 0x1A15 then some (0, .other) else none
  | .tifinaghConsonant joined =>
    if n == 0x2D7F then some (1, .tifinaghJoiner)
    else if joined && isTifinaghConsonant c then some (0, .other)
    else none
  | .tifinaghJoiner => if isTifinaghConsonant c then some (-1, .other) else none
  | .lisuTone => if between 0xA4F8 0xA4FB n then some (0, .other) else none
  | .orkhonI true => if n == 0x10C32 then some (0, .other) else none
  | .kiratRaiE =>
    if n == 0x16D63 || n == 0x16D69 then some (0, .other)
    else if n == 0x16D67 then some (0, .kiratRaiAi)
    else if n == 0x16D68 then some (1, .kiratRaiE)
    else none
  | .kiratRaiAi => if n == 0x16D63 then some (0, .other) else none
  | .skinTone =>
    if modifierBase.contains c then some (0, .emoji)
    else if n == 0x200D then some (0, .joinedEmoji)
    else none
  | .indicator => if isRegionalIndicator c then some (1, .flags) else none
  | .flags =>
    if isRegionalIndicator c then some (1, .flags)
    else if n == 0x200D then some (0, .joinedEmoji)
    else none
  | .emoji => if n == 0x200D then some (0, .joinedEmoji) else none
  | .joinedEmoji =>
    if n == 0x20E3 then some (0, .joinedKeycap)
    else if isRegionalIndicator c then some (1, .joinedIndicator)
    else if isSkinTone c then some (0, .skinTone)
    else if n == 0xE007F then some (0, .tagLetters 0)
    else if emojiPresentation.contains c then some (0, .emoji)
    else none
  | .joinedIndicator => if isRegionalIndicator c then some (-1, .joinedFlags true) else none
  | .joinedFlags even =>
    if isRegionalIndicator c then
      if even then some (3, .joinedFlags false) else some (-1, .joinedFlags true)
    else if n == 0x200D then some (0, .joinedEmoji)
    else none
  | .tagLetters count =>
    if between 0xE0061 0xE007A n && count < 6 then some (0, .tagLetters (count + 1))
    else if between 0xE0030 0xE0039 n && count ≤ 4 then some (0, .tagDigits 1)
    else if n == 0x1F3F4 && 3 ≤ count then some (0, .emoji)
    else none
  | .tagDigits count =>
    if between 0xE0030 0xE0039 n && count < 3 then some (0, .tagDigits (count + 1))
    else if n == 0x1F3F4 && count == 3 then some (0, .emoji)
    else none
  | _ => none

/-- One step to the left. -/
def widthStep (c : Char) (state : Int × Follow × Style) : Int × Follow × Style :=
  let (width, follow, style) := state
  if style = .asEmoji && emojiBase.contains c then
    (width + (if follow.isJoined then 0 else 2), .emoji, .asIs)
  else
    let follow := if style = .asEmoji then follow.behindSelector else follow
    if c.toNat == 0xFE0F then
      (width, if follow.isJoined then follow else follow.behindSelector, .asEmoji)
    else if c.toNat == 0xFE01 then (width, follow.behindSelector, .asFullwidth)
    else if c.toNat == 0xFE0E then (width, follow.behindSelector, .asText)
    else if style = .asText && textVariant.contains c then (width + 1, .other, .asIs)
    else if style = .asFullwidth && isWideQuote c then (width + 2, .other, .asIs)
    else if follow.keepsThroughMarks && isIgnorableMark c then
      (width, if c.toNat == 0x200D then follow.join else follow, .asIs)
    else
      let (more, next) := (merge? c follow).getD (charWidth c, roleOf c)
      (width + more, next, .asIs)

/-- The number of columns that the text fills. -/
def displayWidth (s : String) : Nat :=
  (s.toList.foldr widthStep (0, .other, .asIs)).1.toNat

/-- A selector widens, a joiner merges, and a flag is as wide as its two halves. -/
example : (['❤', '\uFE0F'].foldr widthStep (0, .other, .asIs)).1 = 2 ∧
    (['👨', '\u200D', '👧'].foldr widthStep (0, .other, .asIs)).1 = 2 ∧
    (['🇦', '🇧'].foldr widthStep (0, .other, .asIs)).1 = 2 := by decide +kernel

end SchemaDialects.Text
