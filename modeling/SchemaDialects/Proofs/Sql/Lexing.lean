import SchemaDialects.Proofs.Sql.LexicalGrammar
import SchemaDialects.Sql.Cursor
import SchemaDialects.Sql.Flavor

/-!
# Tokens of written text

`Lexes text rest ws` says that `text` in front of `rest` is cut into the tokens `ws`, with nothing but
blanks between them. What a token is depends on where it ends: a word ends before a blank or a mark
(`Stops`), a quoted piece before anything but its quote. Positions are left open throughout: `bare`
forgets them.
-/

namespace SchemaDialects.Sql

open Text

-- ---------------------------------------------------------------------------
-- Tokens without positions
-- ---------------------------------------------------------------------------

/-- The token wherever it stands. -/
def Token.bare (t : Token) : Token := { t with position := .unknown }

def Piece.lexeme? : Piece → Option Lexeme
  | .token lexeme => some lexeme
  | _ => none

/-- The tokens among the pieces. -/
def tokensIn (ps : List (Piece × List Char)) : List Token :=
  ps.filterMap fun p => p.1.lexeme?.map fun lexeme => ⟨lexeme, String.ofList p.2, .unknown⟩

/-- Nothing among the pieces is unreadable. -/
def Readable (ps : List (Piece × List Char)) : Prop :=
  ∀ p ∈ ps, ∀ problem, p.1 ≠ .problem problem

def Lexes (text rest : List Char) (ws : List Token) : Prop :=
  ∃ ps, tiles cut (text ++ rest) = ps ++ tiles cut rest ∧ Readable ps ∧
    tokensIn ps = ws

theorem Lexes.nil : Lexes [] rest [] :=
  ⟨[], rfl, by simp [Readable], rfl⟩

theorem Lexes.append {as bs : List Char} (ha : Lexes as (bs ++ rest) ws) (hb : Lexes bs rest vs) :
    Lexes (as ++ bs) rest (ws ++ vs) := by
  obtain ⟨ps, hps, hpsr, rfl⟩ := ha
  obtain ⟨qs, hqs, hqsr, rfl⟩ := hb
  refine ⟨ps ++ qs, ?_, ?_, ?_⟩
  · rw [List.append_assoc, hps, hqs, List.append_assoc]
  · intro p hp
    rcases List.mem_append.mp hp with hp | hp
    · exact hpsr p hp
    · exact hqsr p hp
  · rw [tokensIn, List.filterMap_append]
    rfl

/-- One piece of text that is one token. -/
theorem lexes_token (text : String) (htext : text.toList = c :: tail) (h : Forms c tail rest lexeme) :
    Lexes text.toList rest [⟨lexeme, text, .unknown⟩] := by
  refine ⟨[(.token lexeme, text.toList)], ?_, by simp [Readable], ?_⟩
  · rw [htext, List.cons_append, tiles, cut_of_forms h]
    simp
  · rw [tokensIn, List.filterMap_cons, String.ofList_toList]
    rfl

theorem lexes_gap (h : isBlank c = true) : Lexes [c] rest [] := by
  refine ⟨[(.gap, [c])], ?_, by simp [Readable], rfl⟩
  have hcut : cut c rest = (.gap, 0) := by simp [cut, h]
  rw [List.singleton_append, tiles, hcut]
  simp

/-- A text that is one token is one piece. -/
theorem tiles_of_token {t : Token} (h : Lexes text.toList rest [t]) (ht : t.text = text) :
    tiles cut (text.toList ++ rest) = (.token t.lexeme, text.toList) :: tiles cut rest := by
  obtain ⟨ps, htiles, -, htokens⟩ := h
  obtain ⟨front, p, back, rfl, -, hp, -⟩ := List.filterMap_eq_cons_iff.mp htokens
  obtain ⟨piece, chars⟩ := p
  obtain ⟨lexeme, hlexeme, rfl⟩ := Option.map_eq_some_iff.mp hp
  obtain rfl : piece = .token lexeme := by
    cases piece with
    | token l => exact congrArg _ (Option.some.inj hlexeme)
    | _ => contradiction
  have hchars : chars = text.toList := by rw [← ht, String.toList_ofList]
  -- The token takes the whole text, and no piece is empty.
  have hflat := flatMap_tiles cut (text.toList ++ rest)
  have hnonempty : ∀ q ∈ front ++ (.token lexeme, chars) :: back, q.2 ≠ [] := fun q hq =>
    ne_nil_of_mem_tiles (htiles ▸ List.mem_append_left _ hq)
  rw [htiles, List.flatMap_append, flatMap_tiles] at hflat
  have hlength := congrArg List.length (List.append_cancel_right hflat)
  simp only [List.flatMap_append, List.flatMap_cons, List.length_append, hchars] at hlength
  have hfront : front = [] := by
    refine List.eq_nil_iff_forall_not_mem.mpr fun q hq => hnonempty q (by simp [hq]) ?_
    have := List.length_eq_zero_iff.mp (by omega : (front.flatMap (·.2)).length = 0)
    exact List.flatMap_eq_nil_iff.mp this q hq
  have hback : back = [] := by
    refine List.eq_nil_iff_forall_not_mem.mpr fun q hq => hnonempty q (by simp [hq]) ?_
    have := List.length_eq_zero_iff.mp (by omega : (back.flatMap (·.2)).length = 0)
    exact List.flatMap_eq_nil_iff.mp this q hq
  rw [htiles, hfront, hback, hchars]
  rfl

theorem locate_of_readable (h : Readable ps) (place : Place) :
    (locate place ps).1.map Token.bare = tokensIn ps ++ [endToken] ∧
      (locate place ps).2 = [] := by
  induction ps generalizing place with
  | nil => exact ⟨rfl, rfl⟩
  | cons p ps ih =>
    obtain ⟨piece, chars⟩ := p
    obtain ⟨htokens, hclean⟩ := ih (fun q hq => h q (List.mem_cons_of_mem _ hq)) (place.afterAll chars)
    cases piece with
    | token lexeme =>
      refine ⟨?_, hclean⟩
      simp only [locate, List.map_cons, htokens]
      rfl
    | gap =>
      refine ⟨?_, hclean⟩
      simp only [locate, htokens]
      rfl
    | problem problem => exact absurd rfl (h _ List.mem_cons_self problem)

/-- A text that lexes is read without problems. -/
theorem tokenize_of_lexes (h : Lexes text.toList [] ws) :
    ∃ ts, tokenize text = (ts, []) ∧ ts.map Token.bare = ws ++ [endToken] := by
  obtain ⟨ps, htiles, hreadable, rfl⟩ := h
  rw [List.append_nil, tiles_nil, List.append_nil] at htiles
  obtain ⟨htokens, hclean⟩ := locate_of_readable hreadable {}
  refine ⟨(locate {} ps).1, ?_, htokens⟩
  rw [tokenize, htiles]
  exact Prod.ext rfl hclean

-- ---------------------------------------------------------------------------
-- Blanks and marks
-- ---------------------------------------------------------------------------

def openToken : Token := ⟨.openParen, "(", .unknown⟩
def closeToken : Token := ⟨.closeParen, ")", .unknown⟩
def commaToken : Token := ⟨.comma, ",", .unknown⟩
def semicolonToken : Token := ⟨.semicolon, ";", .unknown⟩
def dotToken : Token := ⟨.dot, ".", .unknown⟩

theorem lexes_blank : Lexes [' '] rest [] := lexes_gap rfl

theorem lexes_feed : Lexes ['\n'] rest [] := lexes_gap rfl

theorem lexes_open : Lexes ['('] rest [openToken] := lexes_token "(" rfl .openParen

theorem lexes_close : Lexes [')'] rest [closeToken] := lexes_token ")" rfl .closeParen

theorem lexes_comma : Lexes [','] rest [commaToken] := lexes_token "," rfl .comma

theorem lexes_semicolon : Lexes [';'] rest [semicolonToken] := lexes_token ";" rfl .semicolon

theorem lexes_dot (h : ∀ c ∈ rest.head?, c.isDigit = false) : Lexes ['.'] rest [dotToken] :=
  lexes_token "." rfl (.dot h)

-- ---------------------------------------------------------------------------
-- Lists with separators
-- ---------------------------------------------------------------------------

theorem intercalate_cons_append (join item : List α) (items : List (List α)) (last : List α) :
    ∃ more, join.intercalate (item :: items) ++ last = item ++ more := by
  cases items with
  | nil => exact ⟨last, by rw [List.intercalate_singleton]⟩
  | cons next items => exact ⟨_, by rw [List.intercalate_cons_cons, List.append_assoc, List.append_assoc]⟩

/-- A list with the same separator everywhere is put together item by item. -/
theorem lexes_intercalate {join : String} {xs : List β} {text : β → String} {spell : β → List Token}
    (hjoin : ∀ x ∈ xs, ∀ rest, Lexes join.toList ((text x).toList ++ rest) [sep])
    (hitem : ∀ x ∈ xs, ∀ rest, (rest = last ∨ ∃ more, rest = join.toList ++ more) →
      Lexes (text x).toList rest (spell x)) :
    Lexes (join.intercalate (xs.map text)).toList last ([sep].intercalate (xs.map spell)) := by
  rw [String.toList_intercalate, List.map_map]
  induction xs with
  | nil => exact .nil
  | cons x xs ih =>
    cases xs with
    | nil =>
      simp only [List.map_singleton, List.intercalate_singleton]
      exact hitem x List.mem_cons_self last (.inl rfl)
    | cons y ys =>
      have htail := ih (fun z hz => hjoin z (List.mem_cons_of_mem _ hz))
        fun z hz => hitem z (List.mem_cons_of_mem _ hz)
      simp only [List.map_cons, List.intercalate_cons_cons] at htail ⊢
      refine Lexes.append (Lexes.append ?_ ?_) htail
      · exact hitem x List.mem_cons_self _ (.inr ⟨_, rfl⟩)
      · obtain ⟨more, hmore⟩ := intercalate_cons_append join.toList (text y).toList
          (ys.map (String.toList ∘ text)) last
        rw [Function.comp_apply, hmore]
        exact hjoin y (by simp) more

/-- Texts put together without a separator. `F` holds of what may follow one of them. -/
theorem lexes_join {F : List Char → Prop} {xs : List β} {text : β → String} {spell : β → List Token}
    (hlast : F last)
    (h : ∀ x ∈ xs, ∀ us, F us → Lexes (text x).toList us (spell x) ∧ F ((text x).toList ++ us)) :
    Lexes (String.join (xs.map text)).toList last (xs.flatMap spell) ∧
      F ((String.join (xs.map text)).toList ++ last) := by
  induction xs with
  | nil => exact ⟨.nil, hlast⟩
  | cons x xs ih =>
    obtain ⟨htail, hmore⟩ := ih fun y hy => h y (List.mem_cons_of_mem _ hy)
    obtain ⟨hfirst, hall⟩ := h x List.mem_cons_self _ hmore
    rw [List.map_cons, String.join_cons, String.toList_append, List.append_assoc]
    exact ⟨hfirst.append htail, hall⟩

-- ---------------------------------------------------------------------------
-- Words and keywords
-- ---------------------------------------------------------------------------

/-- What follows a name, a keyword or a text in quotes: it ends there. -/
def Stops (rest : List Char) : Prop :=
  ∀ c ∈ rest.head?, c ∈ [' ', '\n', '(', ')', ',', ';', '.']

theorem stops_cons : Stops (c :: rest) ↔ c ∈ [' ', '\n', '(', ')', ',', ';', '.'] := by
  simp [Stops]

theorem Stops.wordChar (h : Stops rest) : ∀ c ∈ rest.head?, isWordChar c = false := by
  have hall : ∀ d ∈ [' ', '\n', '(', ')', ',', ';', '.'], isWordChar d = false := forall_chars (by decide)
  exact fun c hc => hall c (h c hc)

/-- The characters with which the words of the writer begin. -/
def startsWord (c : Char) : Bool := c.isAlpha || c = '_'

theorem isDigit_of_startsWord (h : startsWord c = true) : c.isDigit = false := by
  simp only [startsWord, Bool.or_eq_true, decide_eq_true_eq, isAlpha_iff, isUpper_iff, isLower_iff] at h
  refine Bool.eq_false_iff.mpr fun hdigit => ?_
  rw [isDigit_iff] at hdigit
  rcases h with h | rfl
  · omega
  · contradiction

theorem isLetter_of_isAlpha {c : Char} (h : c.isAlpha = true) : isLetter c = true := by
  have hascii : c.toNat < 0x80 := by
    rw [isAlpha_iff, isUpper_iff, isLower_iff] at h
    omega
  simp [isLetter, hascii, h]

theorem isLetter_of_startsWord (h : startsWord c = true) : isLetter c = true ∨ c = '_' := by
  rcases Bool.or_eq_true_iff.mp h with h | h
  · exact .inl (isLetter_of_isAlpha h)
  · exact .inr (by simpa using h)

/-- A word that ends where the text does. -/
theorem lexes_word (text : String) (htext : text.toList = c :: tail) (h : startsWord c = true)
    (htail : ∀ d ∈ tail, isWordChar d = true) (hrest : Stops rest) :
    Lexes text.toList rest [⟨wordLexeme text, text, .unknown⟩] := by
  have hlex := lexes_token text htext (.word (isLetter_of_startsWord h) htail hrest.wordChar)
  rwa [← htext, String.ofList_toList] at hlex

def keyToken (k : Keyword) : Token := ⟨.keyword k, k.text, .unknown⟩

theorem ofWord?_text (k : Keyword) : Keyword.ofWord? k.text = some k := by
  rw [Keyword.ofWord?, toUpper_eq]
  cases k <;> decide

theorem lexes_key (k : Keyword) (hrest : Stops rest) : Lexes k.text.toList rest [keyToken k] := by
  have hchars : ∀ k : Keyword, ∃ c tail, k.text.toList = c :: tail ∧ startsWord c = true ∧
      tail.all isWordChar = true := by
    intro k
    cases k <;> exact ⟨_, _, rfl, by decide, by decide⟩
  obtain ⟨c, tail, htext, hc, htail⟩ := hchars k
  have hlex := lexes_word k.text htext hc (List.all_eq_true.mp htail) hrest
  rwa [wordLexeme, ofWord?_text] at hlex

/-- Keywords with a space behind each. -/
theorem lexes_phrase (ks : List Keyword) :
    Lexes (ks.flatMap fun k => k.text.toList ++ [' ']) rest (ks.map keyToken) := by
  induction ks with
  | nil => exact .nil
  | cons k ks ih =>
    rw [List.flatMap_cons, List.append_assoc]
    refine (lexes_key k ?_).append (lexes_blank.append ih)
    simp [Stops]

/-- Keywords with a space in front of each. -/
theorem lexes_spaced (ks : List Keyword) (hrest : Stops rest) :
    Lexes (ks.flatMap fun k => ' ' :: k.text.toList) rest (ks.map keyToken) := by
  induction ks with
  | nil => exact .nil
  | cons k ks ih =>
    rw [List.flatMap_cons, ← List.singleton_append, List.append_assoc]
    refine lexes_blank.append ((lexes_key k ?_).append ih)
    cases ks with
    | nil => exact hrest
    | cons k ks => simp [Stops]

-- ---------------------------------------------------------------------------
-- Names and strings
-- ---------------------------------------------------------------------------

theorem Stops.head_ne (h : Stops rest) (hc : c ∉ [' ', '\n', '(', ')', ',', ';', '.']) :
    ∀ d ∈ rest.head?, d ≠ c :=
  fun d hd heq => hc (heq ▸ h d hd)

/-- The token of a name. -/
def nameToken (name : String) : Token where
  lexeme :=
    if Flavor.isPlainName name && (Keyword.ofWord? name).isNone then .word name else .quoted name
  text := Flavor.postgres.quoteName name
  position := .unknown

theorem isAlpha_of_isLower {c : Char} (h : c.isLower = true) : c.isAlpha = true := isAlpha_iff.mpr (.inr h)

theorem isWordChar_of_isAlpha {c : Char} (h : c.isAlpha = true) : isWordChar c = true := by
  simp [isWordChar, isAlphanumeric, isLetter_of_isAlpha h]

theorem isWordChar_of_isDigit {c : Char} (h : c.isDigit = true) : isWordChar c = true := by
  have hascii : c.toNat < 0x80 := by
    simp only [Char.isDigit, Bool.and_eq_true, decide_eq_true_eq, UInt32.le_iff_toNat_le,
      Char.toNat_val, Char.reduceToNat] at h
    omega
  simp [isWordChar, isAlphanumeric, isNumeral, hascii, h]

/-- A plain name is a word. -/
theorem isPlainName_chars (h : Flavor.isPlainName name = true) :
    ∃ c tail, name.toList = c :: tail ∧ startsWord c = true ∧ ∀ d ∈ tail, isWordChar d = true := by
  rw [Flavor.isPlainName] at h
  cases hchars : name.toList with
  | nil => simp [hchars] at h
  | cons c tail =>
    simp only [hchars, Bool.and_eq_true, Bool.or_eq_true, List.all_eq_true] at h
    obtain ⟨hc, htail⟩ := h
    refine ⟨c, tail, rfl, ?_, ?_⟩
    · rcases hc with hc | hc
      · simp [startsWord, isAlpha_of_isLower hc]
      · simp [startsWord, of_decide_eq_true hc]
    · intro d hd
      rcases htail d hd with (hd | hd) | hd
      · exact isWordChar_of_isAlpha (isAlpha_of_isLower hd)
      · exact isWordChar_of_isDigit hd
      · simp [isWordChar, of_decide_eq_true hd]

theorem lexes_plain (h : Flavor.isPlainName name = true) (hkeyword : Keyword.ofWord? name = none)
    (hrest : Stops rest) : Lexes name.toList rest [⟨.word name, name, .unknown⟩] := by
  obtain ⟨c, tail, hchars, hc, htail⟩ := isPlainName_chars h
  have hlex := lexes_word name hchars hc htail hrest
  rwa [wordLexeme, hkeyword] at hlex

/-- A name in the quotes of a flavor, or without quotes where it needs none, is one token. -/
theorem lexes_quoteName (flavor : Flavor) (name : String) (hrest : Stops rest) :
    Lexes (flavor.quoteName name).toList rest [{ nameToken name with text := flavor.quoteName name }] := by
  by_cases hplain : (Flavor.isPlainName name && (Keyword.ofWord? name).isNone) = true
  · obtain ⟨hname, hkeyword⟩ := Bool.and_eq_true_iff.mp hplain
    rw [nameToken, Flavor.quoteName, if_pos hplain, if_pos hplain]
    exact lexes_plain hname (Option.isNone_iff_eq_none.mp hkeyword) hrest
  · have hquote : flavor.quoteChar = '"' ∨ flavor.quoteChar = '`' := by cases flavor <;> simp [Flavor.quoteChar]
    have hends : flavor.quoteChar ∉ [' ', '\n', '(', ')', ',', ';', '.'] := by
      rcases hquote with h | h <;> rw [h] <;> decide
    have htext : (flavor.quoteName name).toList = flavor.quoteChar ::
        (replaceChar flavor.quoteChar [flavor.quoteChar, flavor.quoteChar] name.toList ++ [flavor.quoteChar]) := by
      rw [Flavor.quoteName, if_neg hplain, String.toList_ofList]
      rfl
    have hlex := lexes_token _ htext (.name hquote (quoted_replaceChar (by simp)) (hrest.head_ne hends))
    rw [String.ofList_toList] at hlex
    rwa [nameToken, if_neg hplain]

theorem lexes_name (name : String) (hrest : Stops rest) :
    Lexes (Flavor.postgres.quoteName name).toList rest [nameToken name] := lexes_quoteName .postgres name hrest

/-- A string is one token unless it goes on with another apostrophe. -/
theorem lexes_literal (text : String) (h : '\\' ∉ text.toList) (hrest : rest.head? ≠ some '\'') :
    Lexes (stringLiteral text).toList rest [⟨.str text, stringLiteral text, .unknown⟩] := by
  have htext : (stringLiteral text).toList = '\'' :: (replaceChar '\'' ['\'', '\''] text.toList ++ ['\'']) := by
    simp [stringLiteral]
  have hlex := lexes_token _ htext (.string (quoted_replaceChar fun _ => h) fun d hd heq => hrest (heq ▸ hd))
  rwa [String.ofList_toList] at hlex

theorem lexes_stringLiteral (text : String) (h : '\\' ∉ text.toList) (hrest : Stops rest) :
    Lexes (stringLiteral text).toList rest [⟨.str text, stringLiteral text, .unknown⟩] :=
  lexes_literal text h fun heq => hrest.head_ne (by decide) _ heq rfl

-- ---------------------------------------------------------------------------
-- Numbers
-- ---------------------------------------------------------------------------

/-- What follows a number: it ends there. A point does not go on with it unless there is a digit behind. -/
structure EndsNumber (rest : List Char) : Prop where
  digit : (rest.headD ' ').isDigit = false
  point : rest.head? = some '.' → (rest.tail.headD ' ').isDigit = false

theorem endsNumber_of_head (h : ∀ c ∈ rest.head?, c.isDigit = false ∧ c ≠ '.') : EndsNumber rest := by
  cases rest with
  | nil => exact ⟨rfl, nofun⟩
  | cons c rest => exact ⟨(h c rfl).1, fun hpoint => absurd (Option.some.inj hpoint) (h c rfl).2⟩

theorem numberLength_of_ends (h : EndsNumber rest) : numberLength seen rest = 0 := by
  cases rest with
  | nil => rfl
  | cons c rest =>
    have hdigit : c.isDigit = false := h.digit
    rw [numberLength, if_neg (by simp [hdigit])]
    refine if_neg ?_
    rintro ⟨hpoint, _, hnext⟩
    have hbehind := h.point (congrArg some hpoint)
    rw [List.tail_cons, hnext] at hbehind
    contradiction

theorem numberLength_append (h : EndsNumber rest) :
    numberLength seen (cs ++ rest) = numberLength seen cs := by
  induction cs generalizing seen with
  | nil => exact numberLength_of_ends h
  | cons c cs ih =>
    have hnext : ((cs ++ rest).headD ' ').isDigit = (cs.headD ' ').isDigit := by
      cases cs with
      | nil => exact h.digit
      | cons d cs => rfl
    rw [List.cons_append, numberLength, numberLength, hnext, ih, ih]

/-- The text of one number. -/
structure IsNumeral (text : String) : Prop where
  whole : numberLength false text.toList = text.toList.length
  digit : ∃ c ∈ text.toList.head?, c.isDigit = true

instance : Decidable (IsNumeral text) :=
  decidable_of_iff (numberLength false text.toList = text.toList.length ∧
      text.toList.head?.any Char.isDigit = true)
    ⟨fun h => ⟨h.1, (Option.any_eq_true _ _).mp h.2⟩, fun h => ⟨h.whole, (Option.any_eq_true _ _).mpr h.digit⟩⟩

def numeralToken (text : String) : Token := ⟨.num text, text, .unknown⟩

theorem lexes_numeral (h : IsNumeral text) (hrest : EndsNumber rest) :
    Lexes text.toList rest [numeralToken text] := by
  obtain ⟨hwhole, d, hd, -⟩ := h
  cases hchars : text.toList with
  | nil => simp [hchars] at hd
  | cons c tail =>
    have hlength : numberLength false (c :: (tail ++ rest)) = tail.length + 1 := by
      rw [← List.cons_append, numberLength_append hrest, ← hchars, hwhole, hchars, List.length_cons]
    have hlex := lexes_token text hchars (.number hlength)
    rwa [← hchars, String.ofList_toList, hchars] at hlex

end SchemaDialects.Sql
