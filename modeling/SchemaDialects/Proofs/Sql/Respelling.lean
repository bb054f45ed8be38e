import Mathlib.Data.List.Chain
import SchemaDialects.Proofs.Sql.Expressions

/-!
# Tokens spelled again

The text that is kept of an expression is put together from its tokens, with blanks of its own. It is cut into
the same tokens again (`Separate.tokensOf`, `Separate.evenText`): a token is cut from its own text as from the
whole script (`cut_take`), and what `renderTokens` puts behind it bounds it (`follows_renderFrom`). Two pairs
of neighbours are the exception (`fuses`): a number behind a point becomes its digits, and a colon in front of
a cast moves into it.
-/

namespace SchemaDialects.Sql

open Text

-- ---------------------------------------------------------------------------
-- Tokens cut from their own text
-- ---------------------------------------------------------------------------

theorem numberLength_take (seen : Bool) (cs : List Char) :
    numberLength seen (cs.take (numberLength seen cs)) = numberLength seen cs := by
  induction cs generalizing seen with
  | nil => rfl
  | cons c cs ih =>
    rw [numberLength]
    split
    · rename_i hdigit
      rw [List.take_succ_cons, numberLength, if_pos hdigit, ih]
    split
    · rename_i hdigit hpoint
      have hnext : ((cs.take (numberLength true cs)).headD ' ') = cs.headD ' ' := by
        cases cs with
        | nil => rfl
        | cons d cs =>
          have hd : d.isDigit = true := hpoint.2.2
          rw [numberLength, if_pos hd]
          rfl
      rw [List.take_succ_cons, numberLength, if_neg hdigit, hnext, if_pos hpoint, ih]
    · rfl

/-- A token is one without what stands behind it. -/
theorem Forms.alone (h : Forms c body rest lexeme) : Forms c body [] lexeme := by
  cases h with
  | openParen => exact .openParen
  | closeParen => exact .closeParen
  | comma => exact .comma
  | semicolon => exact .semicolon
  | star => exact .star
  | dot => exact .dot nofun
  | name hquote hbody => exact .name hquote hbody nofun
  | bracketed hbody => exact .bracketed hbody nofun
  | string hbody => exact .string hbody nofun
  | dollar hname hletter hbefore => exact .dollar hname hletter hbefore
  | number hlength =>
    have htake := numberLength_take false (c :: (body ++ rest))
    rw [hlength, List.take_succ_cons, List.take_left] at htake
    exact .number (by rw [List.append_nil, htake])
  | word hc hbody => exact .word hc hbody nofun
  | pair hpair => exact .pair hpair
  | operator hoperator => exact .operator hoperator nofun nofun

/-- A token is cut from its own text as from the whole. -/
theorem cut_take (h : cut c cs = (.token lexeme, n)) : cut c (cs.take n) = (.token lexeme, n) ∧ n ≤ cs.length := by
  obtain ⟨body, rest, rfl, hforms, rfl⟩ := forms_of_cut h
  refine ⟨?_, (List.prefix_append _ _).length_le⟩
  simpa using cut_of_forms hforms.alone

-- ---------------------------------------------------------------------------
-- Tokens behind each other
-- ---------------------------------------------------------------------------

/-- A token that is cut from its own text. -/
def Token.Whole (t : Token) : Prop :=
  ∃ c cs, t.text.toList = c :: cs ∧ cut c cs = (.token t.lexeme, cs.length)

/-- The character with which a token begins, if there is only one. -/
def Lexeme.mark? : Lexeme → Option Char
  | .openParen => some '('
  | .closeParen => some ')'
  | .comma => some ','
  | .dot => some '.'
  | .op text => if text = "::" then some ':' else none
  | _ => none

/-- The first character of a token is that of its kind. -/
def Piece.StartsWith (c : Char) : Piece → Prop
  | .token lexeme => ∀ mark ∈ lexeme.mark?, c = mark
  | _ => True

theorem Forms.mark (h : Forms c body rest lexeme) : ∀ mark ∈ lexeme.mark?, c = mark := by
  -- An operator has one if it is a cast.
  have hop : ∀ more, ∀ mark ∈ (Lexeme.op (String.ofList (c :: more))).mark?, c = mark := by
    intro more mark hmark
    simp only [Lexeme.mark?] at hmark
    split at hmark
    · rename_i heq
      cases hmark
      have hchars : c :: more = ':' :: [':'] := by simpa using congrArg String.toList heq
      exact (List.cons.inj hchars).1
    · cases hmark
  cases h with
  | openParen | closeParen | comma | dot => rintro _ ⟨⟩; rfl
  | semicolon | star | name | bracketed | string | dollar | number => exact nofun
  | word =>
    unfold wordLexeme
    split <;> exact nofun
  | pair => exact hop _
  | operator => exact hop _

theorem startsWith_cut (c : Char) (cs : List Char) : (cut c cs).1.StartsWith c := by
  cases hpiece : (cut c cs).1 with
  | gap | problem => trivial
  | token lexeme =>
    obtain ⟨body, rest, -, hforms, -⟩ := forms_of_cut (Prod.ext hpiece rfl)
    exact hforms.mark

theorem Token.Whole.mark {t : Token} {m : Char} (h : t.Whole) (hmark : m ∈ t.lexeme.mark?) :
    ∃ cs, t.text.toList = m :: cs ∧ cut m cs = (.token t.lexeme, cs.length) := by
  obtain ⟨c, cs, htext, hcut⟩ := h
  have hstarts := startsWith_cut c cs
  rw [hcut] at hstarts
  obtain rfl := hstarts m hmark
  exact ⟨cs, htext, hcut⟩

theorem cut_colon (cs : List Char) : cut ':' cs =
    if cs.head? = some ':' then (.token (.op "::"), 1) else (.token (.op ":"), 0) := by
  have hblank : isBlank ':' = false := by decide
  have hletter : isLetter ':' = false := by decide
  have hoperator : isOperatorChar ':' = true := by decide
  have hdigit : ':'.isDigit = false := by decide
  cases cs with
  | nil => simp [cut, hblank, hletter, hoperator, hdigit]
  | cons c cs =>
    by_cases hc : c = ':'
    · subst hc
      simp [cut, hblank, hletter, hoperator, hdigit, isOperatorPair]
    · simp [cut, hblank, hletter, hoperator, hdigit, isOperatorPair, hc]

theorem Token.Whole.dot {t : Token} (h : t.Whole) (hdot : t.lexeme = .dot) : t.text.toList = ['.'] := by
  obtain ⟨cs, htext, hcut⟩ := h.mark (m := '.') (by rw [hdot]; rfl)
  cases cs with
  | nil => exact htext
  | cons c cs =>
    cases hc : c.isDigit with
    | false =>
      have hpoint : cut '.' (c :: cs) = (.token .dot, 0) := cut_point hc
      rw [hpoint] at hcut
      exact absurd (Prod.mk.inj hcut).2 (by simp)
    | true => simp [Sql.cut, isBlank, hc, hdot] at hcut

/-- What may follow a token in written text. -/
inductive Follows (t : Token) (rest : List Char) : Prop
  | opened (h : t.lexeme = .openParen)
  | cast (h : t.lexeme = .op "::")
  | point (h : t.lexeme = .dot) (hrest : (rest.headD ' ').isDigit = false)
  | bounded (h : ∀ c ∈ t.text.toList.head?, Bounds c rest)

theorem Token.Whole.tiles {t : Token} (h : t.Whole) (hrest : Follows t rest) :
    Text.tiles Sql.cut (t.text.toList ++ rest) = (.token t.lexeme, t.text.toList) :: Text.tiles Sql.cut rest := by
  suffices hcut : ∃ c cs, t.text.toList = c :: cs ∧ Sql.cut c (cs ++ rest) = (.token t.lexeme, cs.length) by
    obtain ⟨c, cs, htext, hcut⟩ := hcut
    rw [htext, List.cons_append, tiles_cons, hcut]
    simp
  cases hrest with
  | opened hopen =>
    obtain ⟨cs, htext, hcut⟩ := h.mark (m := '(') (by rw [hopen]; rfl)
    have hall : ∀ cs, Sql.cut '(' cs = (.token .openParen, 0) := fun cs => by simp [Sql.cut, isBlank]
    rw [hall] at hcut
    exact ⟨_, cs, htext, by rw [hall, hcut]⟩
  | cast hcast =>
    obtain ⟨cs, htext, hcut⟩ := h.mark (m := ':') (by rw [hcast]; rfl)
    rw [hcast, cut_colon] at hcut
    split at hcut
    · rename_i hcolon
      obtain ⟨d, rfl⟩ := List.length_eq_one_iff.mp (Prod.mk.inj hcut).2.symm
      obtain rfl : d = ':' := by simpa using hcolon
      exact ⟨_, _, htext, by rw [cut_colon, hcast]; rfl⟩
    · simp at hcut
  | point hdot hdigit => exact ⟨_, _, h.dot hdot, by rw [List.nil_append, cut_point hdigit, hdot]; rfl⟩
  | bounded hbounds =>
    obtain ⟨c, cs, htext, hcut⟩ := h
    have hc : Bounds c rest := hbounds c (by rw [htext]; rfl)
    exact ⟨c, cs, htext, (cut_append hcut hc).1⟩


-- ---------------------------------------------------------------------------
-- Rendered tokens
-- ---------------------------------------------------------------------------

/-- Two tokens that are not told apart when nothing stands between them. -/
def fuses (t u : Token) : Bool :=
  match t.lexeme, u.lexeme with
  | .dot, .num text => (text.toList.headD ' ').isDigit
  | .op first, .op second => first = ":" && second = "::"
  | _, _ => false

/-- No two neighbouring tokens of the script fuse. -/
def Unfused (script : String) : Prop := (tokenize script).1.IsChain fun t u => fuses t u = false

instance : DecidablePred Unfused := fun script =>
  inferInstanceAs (Decidable ((tokenize script).1.IsChain fun t u => fuses t u = false))

/-- Tokens as the lexer gives them, of which no two neighbours fuse. -/
structure Separate (ts : List Token) : Prop where
  whole : ∀ t ∈ ts, t.Whole
  apart : ts.IsChain fun t u => fuses t u = false

theorem Separate.tail (h : Separate (t :: ts)) : Separate ts :=
  ⟨fun u hu => h.whole u (List.mem_cons_of_mem _ hu), h.apart.tail⟩

/-- The pieces of the rendered tokens. -/
def piecesFrom (before : Option Lexeme) : List Token → List (Piece × List Char)
  | [] => []
  | t :: ts =>
    (if isGlued before t then [] else [(.gap, [' '])]) ++ (.token t.lexeme, t.text.toList) ::
      piecesFrom (some t.lexeme) ts

theorem spelling_false (t : Token) : t.spelling false = t.text := by
  rw [Token.spelling]
  split <;> rfl

theorem renderFrom_cons (before : Option Lexeme) (t : Token) (ts : List Token) :
    (renderFrom false before (t :: ts)).toList =
      (if isGlued before t then [] else [' ']) ++ (t.text.toList ++ (renderFrom false (some t.lexeme) ts).toList) := by
  rw [renderFrom, spelling_false, String.toList_append, String.toList_append, List.append_assoc]
  split <;> rfl

/-- No digit stands directly behind a point. -/
theorem headD_renderFrom_dot {t : Token} (h : Separate (t :: ts)) (ht : t.lexeme = .dot) (hrest : Closes rest) :
    (((renderFrom false (some .dot) ts).toList ++ rest).headD ' ').isDigit = false := by
  cases ts with
  | nil => exact hrest.endsNumber.digit
  | cons u us =>
    obtain ⟨c, cs, htext, hcut⟩ := h.whole u (List.mem_cons_of_mem _ List.mem_cons_self)
    have hglued : isGlued (some .dot) u = true := by simp [isGlued]
    rw [renderFrom_cons, if_pos hglued, htext]
    show c.isDigit = false
    refine Bool.eq_false_iff.mpr fun hdigit => ?_
    rw [cut_number (.inl hdigit)] at hcut
    have hlexeme := Piece.token.inj (Prod.mk.inj hcut).1
    have hapart := List.rel_of_isChain_cons_cons h.apart
    have hpos : numberLength false (c :: cs) = numberLength false cs + 1 := by rw [numberLength, if_pos hdigit]
    simp [fuses, ht, ← hlexeme, hpos, hdigit] at hapart

theorem bounds_of_mark (hd : d ∈ boundaries) (hpoint : d ≠ '.') (hcolon : d ≠ ':') (c : Char) (cs : List Char) :
    Bounds c (d :: cs) where
  mark := by rintro _ ⟨⟩; exact hd
  number _ := by
    have hdigit : ∀ d ∈ boundaries, d.isDigit = false := forall_chars (by decide)
    exact endsNumber_of_head (by rintro _ ⟨⟩; exact ⟨hdigit d hd, hpoint⟩)
  colon _ heq := hcolon (Option.some.inj heq)

theorem follows_renderFrom {t : Token} (h : Separate (t :: ts)) (hrest : Closes rest) :
    Follows t ((renderFrom false (some t.lexeme) ts).toList ++ rest) := by
  by_cases hopen : t.lexeme = .openParen
  · exact .opened hopen
  by_cases hcastSelf : t.lexeme = .op "::"
  · exact .cast hcastSelf
  by_cases hdot : t.lexeme = .dot
  · exact .point hdot (hdot ▸ headD_renderFrom_dot h hdot hrest)
  refine .bounded fun c hc => ?_
  cases ts with
  | nil => exact hrest.bounds c
  | cons u us =>
    have hu : u.Whole := h.whole u (List.mem_cons_of_mem _ List.mem_cons_self)
    have hmark : ∀ {m : Char}, m ∈ u.lexeme.mark? → m ∈ boundaries → m ≠ '.' → m ≠ ':' → ∀ cs,
        Bounds c (u.text.toList ++ cs) := by
      intro m hmem hmark hpoint hcolon cs
      obtain ⟨more, htext, -⟩ := hu.mark hmem
      rw [htext]
      exact bounds_of_mark hmark hpoint hcolon c _
    rw [renderFrom_cons]
    split
    · rename_i hglued
      simp only [List.nil_append, List.append_assoc]
      simp only [isGlued, Bool.or_eq_true, Bool.and_eq_true, beq_iff_eq, decide_eq_true_eq, isCast, hopen, hcastSelf, hdot,
        false_or, or_false] at hglued
      obtain ((((hclose | hcomma) | hdot) | hcast) | ⟨-, hopen⟩) | ⟨-, hbrackets⟩ := hglued
      · exact hmark (m := ')') (by rw [hclose]; rfl) (by decide) (by decide) (by decide) _
      · exact hmark (m := ',') (by rw [hcomma]; rfl) (by decide) (by decide) (by decide) _
      · rw [hu.dot hdot, hdot]
        refine ⟨by rintro _ ⟨⟩; decide, fun _ => ⟨rfl, fun _ => ?_⟩, fun _ heq => absurd heq (by simp)⟩
        exact headD_renderFrom_dot h.tail hdot hrest
      · obtain ⟨more, htext, -⟩ := hu.mark (m := ':') (by rw [hcast]; rfl)
        rw [htext]
        refine ⟨by rintro _ ⟨⟩; decide, fun _ => endsNumber_of_head (by rintro _ ⟨⟩; decide), fun hcolon _ => ?_⟩
        -- A colon in front of a cast would fuse with it.
        obtain ⟨d, cs, hd, hcut⟩ := h.whole t List.mem_cons_self
        obtain rfl : d = ':' := by
          rw [hd] at hc
          exact (Option.some.inj hc).trans hcolon
        have hapart := List.rel_of_isChain_cons_cons h.apart
        rw [cut_colon] at hcut
        split at hcut
        · exact absurd (Piece.token.inj (Prod.mk.inj hcut).1).symm hcastSelf
        · have hlexeme := (Piece.token.inj (Prod.mk.inj hcut).1).symm
          simp [fuses, hlexeme, hcast] at hapart
      · exact hmark (m := '(') (by rw [hopen]; rfl) (by decide) (by decide) (by decide) _
      · rw [hbrackets]
        exact bounds_of_mark (d := '[') (by decide) (by decide) (by decide) c _
    · exact bounds_of_mark (by decide) (by decide) (by decide) c _

theorem tiles_renderFrom (h : Separate ts) (hrest : Closes rest) (before : Option Lexeme) :
    tiles cut ((renderFrom false before ts).toList ++ rest) = piecesFrom before ts ++ tiles cut rest := by
  induction ts generalizing before with
  | nil => rfl
  | cons t ts ih =>
    have hblank : ∀ cs, tiles cut (' ' :: cs) = (.gap, [' ']) :: tiles cut cs := fun cs => by
      have hcut : ∀ cs, cut ' ' cs = (.gap, 0) := fun cs => by simp [cut, isBlank]
      rw [tiles_cons, hcut]
      rfl
    have htoken := (h.whole t List.mem_cons_self).tiles (follows_renderFrom h hrest)
    rw [ih h.tail] at htoken
    rw [renderFrom_cons, piecesFrom]
    split
    · simpa using htoken
    · simp only [List.nil_append, List.cons_append, List.append_assoc, hblank, htoken]

theorem tokensIn_piecesFrom (before : Option Lexeme) (ts : List Token) :
    tokensIn (piecesFrom before ts) = ts.map Token.bare := by
  induction ts generalizing before with
  | nil => rfl
  | cons t ts ih =>
    have htoken : (⟨t.lexeme, String.ofList t.text.toList, .unknown⟩ : Token) = t.bare := by
      rw [String.ofList_toList]
      rfl
    have hfirst : tokensIn ((.token t.lexeme, t.text.toList) :: piecesFrom (some t.lexeme) ts) =
        t.bare :: ts.map Token.bare := by
      rw [← ih, ← htoken]
      rfl
    rw [piecesFrom]
    split
    · exact hfirst
    · exact hfirst

theorem tidy_piecesFrom (before : Option Lexeme) (ts : List Token) : ∀ p ∈ piecesFrom before ts, Tidy p := by
  induction ts generalizing before with
  | nil => exact fun _ hp => absurd hp List.not_mem_nil
  | cons t ts ih =>
    rw [piecesFrom]
    refine List.forall_mem_append.mpr ⟨fun p hp => ?_, List.forall_mem_cons.mpr ⟨.inl ⟨_, rfl⟩, ih _⟩⟩
    split at hp
    · cases hp
    · exact .inr (List.mem_singleton.mp hp)

section
variable (h : Separate ts)

include h

theorem Separate.tiles : Text.tiles cut (renderTokens false ts).toList = piecesFrom none ts := by
  have hall : Text.tiles cut ((renderFrom false none ts).toList ++ []) = piecesFrom none ts ++ Text.tiles cut [] :=
    tiles_renderFrom h (show Closes [] from by simp [Closes]) none
  rwa [Text.tiles_nil, List.append_nil, List.append_nil] at hall

theorem Separate.tokensOf : tokensOf (renderTokens false ts) = ts.map Token.bare := by
  rw [Sql.tokensOf, h.tiles, tokensIn_piecesFrom]

theorem Separate.evenText : EvenText (renderTokens false ts) where
  tidy := by
    rw [h.tiles]
    exact tidy_piecesFrom none ts
  even := by rw [h.tokensOf, renderTokens, renderTokens, renderFrom_bare]

end

end SchemaDialects.Sql
