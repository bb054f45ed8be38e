import SchemaDialects.Proofs.TextLaws
import SchemaDialects.Sql.Lexer

/-!
# The lexical grammar

What a token is, told without the order in which `cut` asks for it: `Forms c body rest lexeme` says that `c`
and `body` are the text of a token and that nothing in `rest` goes on with it. What `cut` takes for a token is
of one of these forms, and each of them is cut (`cut_eq_token_iff`), so a law of tokens is a case analysis of
their forms.
-/

namespace SchemaDialects.Sql

open Text

-- ---------------------------------------------------------------------------
-- Between quotes
-- ---------------------------------------------------------------------------

/-- A text between quotes and what it says. A closing quote is doubled in it; where a backslash escapes, it
takes the character behind it along. -/
inductive Quoted (close : Char) (escapes : Bool) : List Char → List Char → Prop
  | nil : Quoted close escapes [] []
  | doubled (h : Quoted close escapes body content) : Quoted close escapes (close :: close :: body) (close :: content)
  | escaped (hclose : '\\' ≠ close) (hescapes : escapes = true) (h : Quoted close escapes body content) :
      Quoted close escapes ('\\' :: d :: body) (unescape d :: content)
  | plain (hclose : c ≠ close) (hescapes : ¬(c = '\\' ∧ escapes = true)) (h : Quoted close escapes body content) :
      Quoted close escapes (c :: body) (c :: content)

theorem readQuoted_singleton : readQuoted close escapes [c] =
    if c = close then some ([], 1)
    else if c = '\\' ∧ escapes = true then none
    else (readQuoted close escapes []).map fun p => (c :: p.1, p.2 + 1) := rfl

theorem readQuoted_cons_cons : readQuoted close escapes (c :: d :: cs) =
    if c = close then
      if d = close then (readQuoted close escapes cs).map fun p => (close :: p.1, p.2 + 2)
      else some ([], 1)
    else if c = '\\' ∧ escapes = true then
      (readQuoted close escapes cs).map fun p => (unescape d :: p.1, p.2 + 2)
    else (readQuoted close escapes (d :: cs)).map fun p => (c :: p.1, p.2 + 1) := rfl

theorem readQuoted_of_ne (hc : c ≠ close) (hescapes : ¬(c = '\\' ∧ escapes = true)) :
    readQuoted close escapes (c :: cs) =
      (readQuoted close escapes cs).map fun p => (c :: p.1, p.2 + 1) := by
  cases cs with
  | nil => rw [readQuoted_singleton, if_neg hc, if_neg hescapes]
  | cons d cs => rw [readQuoted_cons_cons, if_neg hc, if_neg hescapes]

theorem readQuoted_close (h : rest.head? ≠ some close) :
    readQuoted close escapes (close :: rest) = some ([], 1) := by
  cases rest with
  | nil => rw [readQuoted_singleton, if_pos rfl]
  | cons d rest =>
    have hd : d ≠ close := by simpa using h
    rw [readQuoted_cons_cons, if_pos rfl, if_neg hd]

theorem Quoted.read (h : Quoted close escapes body content) (hrest : rest.head? ≠ some close) :
    readQuoted close escapes (body ++ close :: rest) = some (content, body.length + 1) := by
  induction h with
  | nil => exact readQuoted_close hrest
  | doubled h ih => rw [List.cons_append, List.cons_append, readQuoted_cons_cons, if_pos rfl, if_pos rfl, ih]; rfl
  | escaped hclose hescapes h ih =>
    rw [List.cons_append, List.cons_append, readQuoted_cons_cons, if_neg hclose, if_pos ⟨rfl, hescapes⟩, ih]
    rfl
  | plain hclose hescapes h ih => rw [List.cons_append, readQuoted_of_ne hclose hescapes, ih]; rfl

theorem Quoted.of_read (h : readQuoted close escapes cs = some (content, n)) : ∃ body rest,
    cs = body ++ close :: rest ∧ Quoted close escapes body content ∧ rest.head? ≠ some close ∧ n = body.length + 1 := by
  induction cs using readQuoted.induct close escapes generalizing content n with
  | case1 => cases h
  | case2 =>
    rw [readQuoted_singleton, if_pos rfl] at h
    cases h
    exact ⟨[], [], rfl, .nil, nofun, rfl⟩
  | case3 cs ih =>
    rw [readQuoted_cons_cons, if_pos rfl, if_pos rfl] at h
    obtain ⟨⟨inside, k⟩, hread, heq⟩ := Option.map_eq_some_iff.mp h
    cases heq
    obtain ⟨body, rest, rfl, hbody, hrest, rfl⟩ := ih hread
    exact ⟨_, rest, rfl, hbody.doubled, hrest, rfl⟩
  | case4 d cs hd =>
    rw [readQuoted_cons_cons, if_pos rfl, if_neg hd] at h
    cases h
    exact ⟨[], d :: cs, rfl, .nil, by simpa using hd, rfl⟩
  | case5 c hc hescapes =>
    rw [readQuoted_singleton, if_neg hc, if_pos hescapes] at h
    cases h
  | case6 c hc hescapes d cs ih =>
    rw [readQuoted_cons_cons, if_neg hc, if_pos hescapes] at h
    obtain ⟨⟨inside, k⟩, hread, heq⟩ := Option.map_eq_some_iff.mp h
    cases heq
    obtain ⟨body, rest, rfl, hbody, hrest, rfl⟩ := ih hread
    obtain ⟨rfl, hescapes⟩ := hescapes
    exact ⟨_, rest, rfl, hbody.escaped hc hescapes, hrest, rfl⟩
  | case7 c cs hc hescapes ih =>
    rw [readQuoted_of_ne hc hescapes] at h
    obtain ⟨⟨inside, k⟩, hread, heq⟩ := Option.map_eq_some_iff.mp h
    cases heq
    obtain ⟨body, rest, rfl, hbody, hrest, rfl⟩ := ih hread
    exact ⟨_, rest, rfl, hbody.plain hc hescapes, hrest, rfl⟩

/-- A quoted piece ends at the first quote that is neither doubled nor escaped. -/
theorem readQuoted_eq_some_iff : readQuoted close escapes cs = some (content, n) ↔ ∃ body rest,
    cs = body ++ close :: rest ∧ Quoted close escapes body content ∧ rest.head? ≠ some close ∧ n = body.length + 1 := by
  constructor
  · exact Quoted.of_read
  · rintro ⟨body, rest, rfl, hbody, hrest, rfl⟩
    exact hbody.read hrest

/-- Any text can be said by doubling its quotes, as long as no backslash in it would escape. -/
theorem quoted_replaceChar {close : Char} (hescapes : escapes = true → '\\' ∉ cs) :
    Quoted close escapes (replaceChar close [close, close] cs) cs := by
  induction cs with
  | nil => exact .nil
  | cons c cs ih =>
    have hmore := ih fun h hmem => hescapes h (List.mem_cons_of_mem _ hmem)
    rw [replaceChar, List.flatMap_cons]
    rw [replaceChar] at hmore
    by_cases hc : c = close
    · subst hc
      rw [if_pos rfl]
      exact hmore.doubled
    · rw [if_neg hc]
      exact hmore.plain hc fun ⟨heq, h⟩ => hescapes h (heq ▸ List.mem_cons_self)

/-- Without a backslash only what stands there is said. -/
theorem Quoted.subset (h : Quoted close escapes body content) (hplain : '\\' ∉ body) : content ⊆ body := by
  induction h with
  | nil => exact List.nil_subset _
  | doubled h ih =>
    simp only [List.mem_cons, not_or] at hplain
    exact List.cons_subset_cons _ (List.subset_cons_of_subset _ (ih hplain.2.2))
  | escaped => exact absurd List.mem_cons_self hplain
  | plain hclose hescapes h ih => exact List.cons_subset_cons _ (ih fun hmem => hplain (List.mem_cons_of_mem _ hmem))

/-- Each apostrophe and each backslash that is said takes two characters, everything else at least one. -/
theorem Quoted.length_le (h : Quoted '\'' true body content) :
    content.length + content.count '\'' + content.count '\\' ≤ body.length := by
  induction h with
  | nil => exact Nat.le_refl 0
  | doubled h ih =>
    simp only [List.length_cons, List.count_cons_self, List.count_cons_of_ne (by decide : '\'' ≠ '\\')]
    omega
  | @escaped body content d hclose hescapes h ih =>
    simp only [List.length_cons, List.count_cons]
    -- One character cannot be both.
    by_cases hquote : unescape d = '\''
    · simp [hquote]
      omega
    · simp [hquote]
      split <;> omega
  | @plain c body content hclose hescapes h ih =>
    have hbackslash : c ≠ '\\' := fun heq => hescapes ⟨heq, rfl⟩
    simp only [List.length_cons, List.count_cons_of_ne hclose, List.count_cons_of_ne hbackslash]
    omega

-- ---------------------------------------------------------------------------
-- Between dollar signs
-- ---------------------------------------------------------------------------

/-- The text in front of a mark holds no part that begins another one. -/
inductive Before (mark : List Char) : List Char → Prop
  | nil : Before mark []
  | cons (h : ¬mark <+: c :: (body ++ mark)) (hbody : Before mark body) : Before mark (c :: body)

theorem isSome_dropHead? : (dropHead? mark cs).isSome = true ↔ mark <+: cs := by
  rw [Option.isSome_iff_exists]
  exact exists_congr fun rest => dropHead?_eq_some.trans eq_comm

/-- The text before the first mark: the mark stands behind it and begins nowhere in it. -/
theorem before?_eq_some_iff : before? mark cs = some body ↔ Before mark body ∧ body ++ mark <+: cs := by
  induction cs generalizing body with
  | nil =>
    simp only [before?, List.prefix_nil, List.append_eq_nil_iff, List.isEmpty_iff, Option.ite_none_right_eq_some,
      Option.some.injEq]
    constructor
    · rintro ⟨rfl, rfl⟩
      exact ⟨.nil, rfl, rfl⟩
    · rintro ⟨-, rfl, rfl⟩
      exact ⟨rfl, rfl⟩
  | cons c cs ih =>
    rw [before?]
    split
    · rename_i hhead
      have hmark : mark <+: c :: cs := isSome_dropHead?.mp hhead
      constructor
      · rintro ⟨⟩
        exact ⟨.nil, hmark⟩
      · rintro ⟨hbody, hprefix⟩
        cases hbody with
        | nil => rfl
        | cons h hbody =>
          exact absurd (List.prefix_of_prefix_length_le hmark hprefix (List.suffix_append _ _).length_le) h
    · rename_i hhead
      have hmark : ¬mark <+: c :: cs := fun h => hhead (isSome_dropHead?.mpr h)
      rw [Option.map_eq_some_iff]
      constructor
      · rintro ⟨body, hbody, rfl⟩
        obtain ⟨hbody, hprefix⟩ := ih.mp hbody
        have hcons : c :: (body ++ mark) <+: c :: cs := List.cons_prefix_cons.mpr ⟨rfl, hprefix⟩
        exact ⟨.cons (fun h => hmark (h.trans hcons)) hbody, hcons⟩
      · rintro ⟨hbody, hprefix⟩
        cases hbody with
        | nil => exact absurd hprefix hmark
        | cons h hbody =>
          obtain ⟨rfl, hmore⟩ := List.cons_prefix_cons.mp hprefix
          exact ⟨_, ih.mpr ⟨hbody, hmore⟩, rfl⟩

/-- The mark at both ends of a string between dollar signs. -/
def dollarTag (name : List Char) : List Char := '$' :: name ++ ['$']

theorem takeWhile_dollar {name : List Char} (h : '$' ∉ name) :
    (name ++ '$' :: more).takeWhile (· ≠ '$') = name := by
  have hname : ∀ c ∈ name, decide (c ≠ '$') = true := by
    intro c hc
    exact decide_eq_true fun heq => h (heq ▸ hc)
  rw [List.takeWhile_append_of_pos hname]
  simp

theorem readDollarQuoted_tagged (h : '$' ∉ name) : readDollarQuoted (name ++ '$' :: more) =
    (before? (dollarTag name) more).map fun body => (body, name.length + 1 + body.length + (name.length + 2)) := by
  have hdrop : (name ++ '$' :: more).drop (name.length + 1) = more := by
    rw [← List.drop_drop, List.drop_left]
    rfl
  simp only [readDollarQuoted, takeWhile_dollar h, List.drop_left, List.take_succ_cons, List.take_zero,
    List.length_append, List.length_cons, List.length_nil, Nat.add_one_sub_one, Nat.zero_add, hdrop, dollarTag]
  cases before? ('$' :: name ++ ['$']) more <;> rfl

/-- Without a second dollar sign nothing begins. -/
theorem readDollarQuoted_untagged (h : '$' ∉ cs) : readDollarQuoted cs = none := by
  have htake : cs.takeWhile (· ≠ '$') = cs :=
    List.takeWhile_eq_self_iff.mpr fun c hc => decide_eq_true fun heq => h (heq ▸ hc)
  have hlength : cs.drop (('$' :: cs).length - 1) = [] := by simp
  simp only [readDollarQuoted, htake, List.drop_length, List.take_nil, List.append_nil, hlength]
  rfl

/-- A string between dollar signs ends at the first tag that equals the one in front of it. -/
theorem readDollarQuoted_eq_some_iff : readDollarQuoted cs = some (content, n) ↔ ∃ name rest, '$' ∉ name ∧
    Before (dollarTag name) content ∧ cs = name ++ '$' :: content ++ dollarTag name ++ rest ∧
      n = (name ++ '$' :: content ++ dollarTag name).length := by
  have hlength : ∀ name content : List Char, name.length + 1 + content.length + (name.length + 2) =
      (name ++ '$' :: content ++ dollarTag name).length := by
    intro name content
    simp only [dollarTag, List.length_append, List.length_cons, List.length_nil]
    omega
  constructor
  · intro h
    by_cases hdollar : '$' ∈ cs
    · obtain ⟨name, more, rfl, hname⟩ := List.eq_append_cons_of_mem hdollar
      rw [readDollarQuoted_tagged hname] at h
      obtain ⟨body, hbody, heq⟩ := Option.map_eq_some_iff.mp h
      cases heq
      obtain ⟨hbefore, rest, rfl⟩ := before?_eq_some_iff.mp hbody
      exact ⟨name, rest, hname, hbefore, by simp, hlength name content⟩
    · rw [readDollarQuoted_untagged hdollar] at h
      contradiction
  · rintro ⟨name, rest, hname, hbefore, rfl, rfl⟩
    have hread : before? (dollarTag name) (content ++ dollarTag name ++ rest) = some content :=
      before?_eq_some_iff.mpr ⟨hbefore, List.prefix_append _ _⟩
    have hcs : name ++ '$' :: content ++ dollarTag name ++ rest =
        name ++ '$' :: (content ++ dollarTag name ++ rest) := by simp
    rw [hcs, readDollarQuoted_tagged hname, hread, ← hlength]
    rfl

-- ---------------------------------------------------------------------------
-- Forms of tokens
-- ---------------------------------------------------------------------------

/-- Two characters with which a comment or a string between dollar signs begins. -/
def Opens (c d : Char) : Prop :=
  c = '-' ∧ d = '-' ∨ c = '/' ∧ d = '*' ∨ c = '$' ∧ (d = '$' ∨ isLetter d = true)

/-- The forms of tokens: the first character, those of the token behind it, those behind the token. -/
inductive Forms : Char → List Char → List Char → Lexeme → Prop
  | openParen : Forms '(' [] rest .openParen
  | closeParen : Forms ')' [] rest .closeParen
  | comma : Forms ',' [] rest .comma
  | semicolon : Forms ';' [] rest .semicolon
  | star : Forms '*' [] rest .star
  | dot (hrest : ∀ d ∈ rest.head?, d.isDigit = false) : Forms '.' [] rest .dot
  | name (hquote : q = '"' ∨ q = '`') (h : Quoted q false body content) (hrest : ∀ d ∈ rest.head?, d ≠ q) :
      Forms q (body ++ [q]) rest (.quoted (String.ofList content))
  | bracketed (h : Quoted ']' false body content) (hrest : ∀ d ∈ rest.head?, d ≠ ']') :
      Forms '[' (body ++ [']']) rest (.quoted (String.ofList content))
  | string (h : Quoted '\'' true body content) (hrest : ∀ d ∈ rest.head?, d ≠ '\'') :
      Forms '\'' (body ++ ['\'']) rest (.str (String.ofList content))
  | dollar (hname : '$' ∉ name) (hletter : ∀ c ∈ name.head?, isLetter c = true)
      (h : Before (dollarTag name) content) :
      Forms '$' (name ++ '$' :: content ++ dollarTag name) rest (.str (String.ofList content))
  | number (h : numberLength false (c :: (body ++ rest)) = body.length + 1) :
      Forms c body rest (.num (String.ofList (c :: body)))
  | word (hc : isLetter c = true ∨ c = '_') (hbody : ∀ d ∈ body, isWordChar d = true)
      (hrest : ∀ d ∈ rest.head?, isWordChar d = false) : Forms c body rest (wordLexeme (String.ofList (c :: body)))
  | pair (h : isOperatorPair c d = true) : Forms c [d] rest (.op (String.ofList [c, d]))
  | operator (h : isOperatorChar c = true) (hopens : ∀ d ∈ rest.head?, ¬Opens c d)
      (hpair : ∀ d ∈ rest.head?, isOperatorPair c d = false) : Forms c [] rest (.op (String.ofList [c]))

-- ---------------------------------------------------------------------------
-- What the forms are cut to
-- ---------------------------------------------------------------------------

/-- Marks that begin pieces of other kinds than words. -/
def punctuation : List Char :=
  ['-', '#', '/', '(', ')', ',', ';', '.', '*', '"', '`', '[', '\'', '$']

theorem isDigit_of_isLetter (h : isLetter c = true) : c.isDigit = false := by
  refine Bool.eq_false_iff.mpr fun hdigit => ?_
  rw [isDigit_iff] at hdigit
  rw [isLetter, if_pos (by omega), isAlpha_iff, isUpper_iff, isLower_iff] at h
  omega

theorem ne_of_all_false {p : Char → Bool} {cs : List Char} (hall : ∀ d ∈ cs, p d = false) (h : p c = true) :
    ∀ d ∈ cs, c ≠ d := by
  rintro d hd rfl
  rw [hall c hd] at h
  exact Bool.noConfusion h

theorem takeWhile_of_head {p : α → Bool} {as : List α} (h : ∀ a ∈ as.head?, p a = false) : as.takeWhile p = [] := by
  cases as with
  | nil => rfl
  | cons a as => exact List.takeWhile_cons_of_neg (by simp [h a rfl])

theorem cut_word (h : isLetter c = true ∨ c = '_') :
    cut c cs = (.token (wordLexeme (String.ofList (c :: cs.takeWhile isWordChar))),
      (cs.takeWhile isWordChar).length) := by
  rcases h with h | rfl
  · have hpunctuation : ∀ d ∈ punctuation, c ≠ d := ne_of_all_false (forall_chars (by decide)) h
    simp only [punctuation, List.forall_mem_cons] at hpunctuation
    have hblank : isBlank c = false := isBlank_of_isAlphanumeric (by rw [isAlphanumeric, h, Bool.true_or])
    simp [cut, hblank, isDigit_of_isLetter h, hpunctuation, h]
  · simp [cut, isBlank]

/-- A point is a token of its own unless a digit stands behind it. -/
theorem cut_point (h : (cs.headD ' ').isDigit = false) : cut '.' cs = (.token .dot, 0) := by
  cases cs with
  | nil => simp [cut, isBlank]
  | cons c cs =>
    have hc : c.isDigit = false := h
    simp [cut, isBlank, hc]

theorem numberLength_le : numberLength seen cs ≤ cs.length := by
  induction cs generalizing seen with
  | nil => exact Nat.le_refl 0
  | cons c cs ih =>
    rw [numberLength, List.length_cons]
    split
    · exact Nat.succ_le_succ ih
    · split
      · exact Nat.succ_le_succ ih
      · exact Nat.zero_le _

theorem numberLength_ne_zero : numberLength false (c :: cs) ≠ 0 ↔
    c.isDigit = true ∨ c = '.' ∧ (cs.headD ' ').isDigit = true := by
  rw [numberLength]
  split_ifs with hdigit hpoint
  · simp [hdigit]
  · exact ⟨fun _ => .inr ⟨hpoint.1, hpoint.2.2⟩, fun _ => Nat.succ_ne_zero _⟩
  · simpa [hdigit] using hpoint

theorem cut_number (h : c.isDigit = true ∨ c = '.' ∧ (cs.headD ' ').isDigit = true) :
    cut c cs = (.token (.num (String.ofList ((c :: cs).take (numberLength false (c :: cs))))),
      numberLength false (c :: cs) - 1) := by
  rcases h with h | ⟨rfl, h⟩
  · have hpunctuation : ∀ d ∈ punctuation, c ≠ d := ne_of_all_false (forall_chars (by decide)) h
    simp only [punctuation, List.forall_mem_cons] at hpunctuation
    have hblank : isBlank c = false := isBlank_eq_false (p := fun c => c.isDigit = true) (by decide) h
    simp [cut, hblank, hpunctuation, h]
  · rw [List.headD_eq_head?_getD] at h
    simp [cut, isBlank, h]

/-- What begins with the character of an operator is one, of two characters if possible. -/
theorem cut_operator (h : isOperatorChar c = true) (hopens : ∀ d ∈ cs.head?, ¬Opens c d) :
    cut c cs =
      if !cs.isEmpty ∧ isOperatorPair c (cs.headD ' ') then (.token (.op (String.ofList [c, cs.headD ' '])), 1)
      else (.token (.op (String.ofList [c])), 0) := by
  have hall : ∀ c ∈ "=<>!|:+-/%^~&?@$".toList, isBlank c = false ∧ c.isDigit = false ∧ isLetter c = false :=
    forall_chars (by decide)
  obtain ⟨hblank, hdigit, hletter⟩ := hall c (by simpa [isOperatorChar] using h)
  have hmark : ∀ d ∈ ['_', '#', '(', ')', ',', ';', '.', '*', '"', '`', '[', '\''], c ≠ d :=
    ne_of_all_false (forall_chars (by decide)) h
  simp only [List.forall_mem_cons] at hmark
  cases cs with
  | nil =>
    have hspace : isLetter ' ' = false := by decide
    simp [cut, hblank, hdigit, hletter, hmark, h, hspace]
  | cons d cs =>
    have hd := hopens d rfl
    simp only [Opens, not_or] at hd
    simp [cut, hblank, hdigit, hletter, hmark, h, hd]

theorem cut_quote (h : c = '"' ∨ c = '`') : cut c cs = cutQuoted (readQuoted c false cs) .quoted .openName cs := by
  rcases h with rfl | rfl <;> simp [cut, isBlank]

theorem cut_bracket (cs : List Char) :
    cut '[' cs = cutQuoted (readQuoted ']' false cs) .quoted .openBracketName cs := by
  simp [cut, isBlank]

theorem cut_apostrophe (cs : List Char) : cut '\'' cs = cutQuoted (readQuoted '\'' true cs) .str .openString cs := by
  simp [cut, isBlank]

theorem cut_dollar (h : cs.headD ' ' = '$' ∨ isLetter (cs.headD ' ') = true) :
    cut '$' cs = cutQuoted (readDollarQuoted cs) .str .openDollarString cs := by
  rw [List.headD_eq_head?_getD] at h
  simp [cut, isBlank, h]

theorem Quoted.cutQuoted (h : Quoted close escapes body content) (hrest : ∀ d ∈ rest.head?, d ≠ close) :
    Sql.cutQuoted (readQuoted close escapes (body ++ [close] ++ rest)) form problem (body ++ [close] ++ rest) =
      (.token (form (String.ofList content)), (body ++ [close]).length) := by
  rw [List.append_assoc, List.singleton_append, h.read fun heq => hrest close heq rfl, Sql.cutQuoted,
    List.length_append, List.length_singleton]

/-- What has one of the forms is cut as it says. -/
theorem cut_of_forms (h : Forms c body rest lexeme) : cut c (body ++ rest) = (.token lexeme, body.length) := by
  cases h with
  | openParen | closeParen | comma | semicolon | star => simp [cut, isBlank]
  | dot hrest =>
    refine cut_point ?_
    cases rest with
    | nil => rfl
    | cons d rest => exact hrest d rfl
  | name hquote hbody hrest => rw [cut_quote hquote, hbody.cutQuoted hrest]
  | bracketed hbody hrest => rw [cut_bracket, hbody.cutQuoted hrest]
  | string hbody hrest => rw [cut_apostrophe, hbody.cutQuoted hrest]
  | @dollar name content rest hname hletter hbefore =>
    have hread := readDollarQuoted_eq_some_iff.mpr ⟨name, rest, hname, hbefore, rfl, rfl⟩
    rw [cut_dollar, hread, cutQuoted]
    cases name with
    | nil => exact .inl rfl
    | cons d name => exact .inr (hletter d rfl)
  | number hlength =>
    have hne : numberLength false (c :: (body ++ rest)) ≠ 0 := by omega
    rw [cut_number (numberLength_ne_zero.mp hne), hlength, List.take_succ_cons, List.take_left]
    rfl
  | word hc hbody hrest =>
    have htake : (body ++ rest).takeWhile isWordChar = body := by
      rw [List.takeWhile_append_of_pos hbody, takeWhile_of_head hrest, List.append_nil]
    rw [cut_word hc, htake]
  | @pair c d rest hpair =>
    have hoperator : isOperatorChar c = true ∧ c ≠ '-' ∧ c ≠ '/' ∧ c ≠ '$' := by
      simp only [isOperatorPair, List.contains_eq_mem, List.mem_cons, Prod.mk.injEq, List.not_mem_nil, or_false,
        decide_eq_true_eq] at hpair
      rcases hpair with ⟨rfl, -⟩ | ⟨rfl, -⟩ | ⟨rfl, -⟩ | ⟨rfl, -⟩ | ⟨rfl, -⟩ | ⟨rfl, -⟩ <;> decide
    rw [cut_operator hoperator.1 (by simp [Opens, hoperator.2]), if_pos ⟨rfl, hpair⟩]
    rfl
  | operator hoperator hopens hpair =>
    rw [List.nil_append, cut_operator hoperator hopens, if_neg]
    · rfl
    · cases rest with
      | nil => simp
      | cons d rest => simp [hpair d rfl]

-- ---------------------------------------------------------------------------
-- What is cut has a form
-- ---------------------------------------------------------------------------

/-- A piece is of one of the forms if it is a token. -/
def Fits (c : Char) (cs : List Char) : Piece × Nat → Prop
  | (.token lexeme, n) => ∃ body rest, cs = body ++ rest ∧ Forms c body rest lexeme ∧ n = body.length
  | _ => True

theorem fits_single (h : Forms c [] cs lexeme) : Fits c cs (.token lexeme, 0) := ⟨[], cs, rfl, h, rfl⟩

theorem fits_quoted (hform : ∀ body content rest, Quoted close escapes body content → (∀ d ∈ rest.head?, d ≠ close) →
      Forms c (body ++ [close]) rest (form (String.ofList content))) :
    Fits c cs (cutQuoted (readQuoted close escapes cs) form problem cs) := by
  cases hread : readQuoted close escapes cs with
  | none => trivial
  | some found =>
    obtain ⟨body, rest, rfl, hbody, hrest, hlength⟩ := readQuoted_eq_some_iff.mp hread
    exact ⟨body ++ [close], rest, by simp, hform body _ rest hbody fun d hd heq => hrest (heq ▸ hd), by simp [hlength]⟩

theorem fits_dollar (h : cs.headD ' ' = '$' ∨ isLetter (cs.headD ' ') = true) :
    Fits '$' cs (cutQuoted (readDollarQuoted cs) .str .openDollarString cs) := by
  cases hread : readDollarQuoted cs with
  | none => trivial
  | some found =>
    obtain ⟨name, rest, hname, hbefore, rfl, hlength⟩ := readDollarQuoted_eq_some_iff.mp hread
    refine ⟨_, rest, rfl, .dollar hname ?_ hbefore, hlength⟩
    cases name with
    | nil => exact nofun
    | cons d name =>
      rintro _ ⟨⟩
      exact h.resolve_left fun heq => hname (heq ▸ List.mem_cons_self)

theorem fits_number (h : c.isDigit = true ∨ c = '.' ∧ (cs.headD ' ').isDigit = true) : Fits c cs
    (.token (.num (String.ofList ((c :: cs).take (numberLength false (c :: cs))))),
      numberLength false (c :: cs) - 1) := by
  obtain ⟨k, hk⟩ := Nat.exists_eq_succ_of_ne_zero (numberLength_ne_zero.mpr h)
  have hle : k ≤ cs.length := Nat.le_of_succ_le_succ (hk ▸ numberLength_le)
  rw [hk]
  refine ⟨cs.take k, cs.drop k, (List.take_append_drop k cs).symm, .number ?_, (List.length_take_of_le hle).symm⟩
  rw [List.take_append_drop, List.length_take_of_le hle, hk]

theorem fits_word (h : isLetter c = true ∨ c = '_') : Fits c cs
    (.token (wordLexeme (String.ofList (c :: cs.takeWhile isWordChar))), (cs.takeWhile isWordChar).length) := by
  refine ⟨_, cs.dropWhile isWordChar, (List.takeWhile_append_dropWhile ..).symm, .word h ?_ ?_, rfl⟩
  · exact fun d hd => List.mem_takeWhile_imp hd
  · intro d hd
    have hstop := List.head?_dropWhile_not isWordChar cs
    rwa [Option.mem_def.mp hd] at hstop

theorem fits_operator (h : isOperatorChar c = true) (hopens : ∀ d ∈ cs.head?, ¬Opens c d) : Fits c cs
    (if !cs.isEmpty ∧ isOperatorPair c (cs.headD ' ') then (.token (.op (String.ofList [c, cs.headD ' '])), 1)
      else (.token (.op (String.ofList [c])), 0)) := by
  cases cs with
  | nil => exact fits_single (.operator h nofun nofun)
  | cons d cs =>
    by_cases hpair : isOperatorPair c d = true
    · rw [if_pos ⟨rfl, hpair⟩]
      exact ⟨[d], cs, rfl, .pair hpair, rfl⟩
    · rw [if_neg fun hc => hpair hc.2]
      exact fits_single (.operator h hopens fun _ heq => Option.some.inj heq ▸ Bool.eq_false_iff.mpr hpair)

/-- One case for each question that `cut` asks, in its order. -/
theorem fits_cut (c : Char) (cs : List Char) : Fits c cs (cut c cs) := by
  unfold cut
  extract_lets next k tail
  have hnext : ∀ d ∈ cs.head?, next = d := fun d hd => by
    rw [show next = cs.headD ' ' from rfl, List.headD_eq_head?_getD, Option.mem_def.mp hd, Option.getD_some]
  refine iteInduction (motive := Fits c cs) (fun _ => trivial) fun _ => ?_
  refine iteInduction (motive := Fits c cs) (fun _ => trivial) fun hline => ?_
  refine iteInduction (motive := Fits c cs) (fun _ => by split <;> trivial) fun hblock => ?_
  refine iteInduction (motive := Fits c cs) (by rintro rfl; exact fits_single .openParen) fun _ => ?_
  refine iteInduction (motive := Fits c cs) (by rintro rfl; exact fits_single .closeParen) fun _ => ?_
  refine iteInduction (motive := Fits c cs) (by rintro rfl; exact fits_single .comma) fun _ => ?_
  refine iteInduction (motive := Fits c cs) (by rintro rfl; exact fits_single .semicolon) fun _ => ?_
  refine iteInduction (motive := Fits c cs) ?_ fun hpoint => ?_
  · rintro ⟨rfl, hdigit⟩
    exact fits_single (.dot fun d hd => hnext d hd ▸ (Bool.not_eq_true' _).mp hdigit)
  refine iteInduction (motive := Fits c cs) (by rintro rfl; exact fits_single .star) fun _ => ?_
  refine iteInduction (motive := Fits c cs) (fun h => fits_quoted fun _ _ _ => .name h) fun _ => ?_
  refine iteInduction (motive := Fits c cs) (by rintro rfl; exact fits_quoted fun _ _ _ => .bracketed) fun _ => ?_
  refine iteInduction (motive := Fits c cs) (by rintro rfl; exact fits_quoted fun _ _ _ => .string) fun _ => ?_
  refine iteInduction (motive := Fits c cs) (by rintro ⟨rfl, h⟩; exact fits_dollar h) fun hdollar => ?_
  refine iteInduction (motive := Fits c cs) (fun h => fits_number (h.imp_right fun hc => ⟨hc, ?_⟩)) fun _ => ?_
  · simpa [hc, next] using hpoint
  refine iteInduction (motive := Fits c cs) (fun h => fits_word h) fun _ => ?_
  refine iteInduction (motive := Fits c cs) (fun h => fits_operator h ?_) fun _ => trivial
  rintro d hd (⟨hc, rfl⟩ | ⟨hc, rfl⟩ | ⟨hc, hletter⟩)
  · exact hline (.inl ⟨hc, hd⟩)
  · exact hblock ⟨hc, hd⟩
  · exact hdollar ⟨hc, by rwa [hnext d hd]⟩

/-- What is cut as a token has one of the forms. -/
theorem forms_of_cut (h : cut c cs = (.token lexeme, n)) :
    ∃ body rest, cs = body ++ rest ∧ Forms c body rest lexeme ∧ n = body.length := by
  have hfits := fits_cut c cs
  rwa [h] at hfits

/-- The tokens that are cut are those of the grammar. -/
theorem cut_eq_token_iff : cut c cs = (.token lexeme, n) ↔
    ∃ body rest, cs = body ++ rest ∧ Forms c body rest lexeme ∧ n = body.length := by
  constructor
  · exact forms_of_cut
  · rintro ⟨body, rest, rfl, hforms, rfl⟩
    exact cut_of_forms hforms

end SchemaDialects.Sql
