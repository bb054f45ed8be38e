import SchemaDialects.Proofs.Sql.Lexing

/-!
# Expressions in written text

The writer copies the text of an expression, and what stands behind it is a space, a comma, a closing
parenthesis or a semicolon. Such a mark, and the end of the line, changes nothing about the pieces
in front of it (`cut_append`), so a text that is evenly spaced (`EvenText`) and whose parentheses are closed
(`isClosed`) comes back as the same tokens and, spaced by `renderTokens`, as the same text.
-/

namespace SchemaDialects.Sql

open Text

-- ---------------------------------------------------------------------------
-- Pieces in front of a mark
-- ---------------------------------------------------------------------------

/-- What follows an expression: a space, a mark or the end of the line. -/
def Closes (rest : List Char) : Prop :=
  ∀ c ∈ rest.head?, c ∈ [' ', ',', ')', ';', '\n']

theorem Closes.head (h : Closes rest) {p : Char → Prop} [DecidablePred p]
    (hp : ∀ c ∈ [' ', ',', ')', ';', '\n'], p c) : ∀ c ∈ rest.head?, p c :=
  fun c hc => hp c (h c hc)

theorem Closes.stops (h : Closes rest) : Stops rest := h.head (forall_chars (by decide))

theorem Closes.endsNumber (h : Closes rest) : EndsNumber rest := endsNumber_of_head (h.head (forall_chars (by decide)))

/-- The characters with which a text goes on behind a token, be it with a blank or with a mark. -/
def boundaries : List Char := [' ', ',', ')', ';', '\n', '(', '[', '.', ':']

/-- What may follow a token that begins with `c`. -/
structure Bounds (c : Char) (rest : List Char) : Prop where
  mark : ∀ d ∈ rest.head?, d ∈ boundaries
  number : c.isDigit = true ∨ c = '.' → EndsNumber rest
  colon : c = ':' → rest.head? ≠ some ':'

theorem Closes.bounds (h : Closes rest) (c : Char) : Bounds c rest where
  mark := h.head (forall_chars (by decide))
  number _ := h.endsNumber
  colon _ hcolon := absurd (h _ hcolon) (by decide)

theorem forall_head_append {as bs : List α} {p : α → Prop} (has : ∀ a ∈ as.head?, p a) (hbs : ∀ b ∈ bs.head?, p b) :
    ∀ a ∈ (as ++ bs).head?, p a := by
  cases as with
  | nil => exact hbs
  | cons a as => exact has

theorem not_opens_boundary (hd : d ∈ boundaries) : ¬Opens c d := by
  have hall : ∀ d ∈ boundaries, d ≠ '-' ∧ d ≠ '*' ∧ d ≠ '$' ∧ isLetter d = false := forall_chars (by decide)
  simp [Opens, hall d hd]

theorem isOperatorPair_boundary (hd : d ∈ boundaries) (hcolon : ¬(c = ':' ∧ d = ':')) : isOperatorPair c d = false := by
  by_cases hd' : d = ':'
  · have hc : c ≠ ':' := fun hc => hcolon ⟨hc, hd'⟩
    simp [isOperatorPair, hd', hc]
  · have hall : ∀ d ∈ boundaries, d ≠ ':' → isOperatorPair c d = false := by simp [boundaries, isOperatorPair]
    exact hall d hd hd'

/-- A mark behind a token does not go on with it. -/
theorem Forms.append (h : Forms c body rest lexeme) (hmore : Bounds c more) : Forms c body (rest ++ more) lexeme := by
  -- What a form asks about the character behind it holds of each boundary.
  have hhead : ∀ {p : Char → Prop}, (∀ d ∈ rest.head?, p d) → (∀ d ∈ boundaries, p d) →
      ∀ d ∈ (rest ++ more).head?, p d :=
    fun hrest hall => forall_head_append hrest fun d hd => hall d (hmore.mark d hd)
  cases h with
  | openParen => exact .openParen
  | closeParen => exact .closeParen
  | comma => exact .comma
  | semicolon => exact .semicolon
  | star => exact .star
  | dot hrest => exact .dot (hhead hrest (forall_chars (by decide)))
  | name hquote hbody hrest =>
    refine .name hquote hbody (hhead hrest ?_)
    rcases hquote with rfl | rfl <;> exact forall_chars (by decide)
  | bracketed hbody hrest => exact .bracketed hbody (hhead hrest (forall_chars (by decide)))
  | string hbody hrest => exact .string hbody (hhead hrest (forall_chars (by decide)))
  | dollar hname hletter hbefore => exact .dollar hname hletter hbefore
  | number hlength =>
    have hnumber : numberLength false (c :: (body ++ rest)) ≠ 0 := by omega
    have hends := hmore.number ((numberLength_ne_zero.mp hnumber).imp_right And.left)
    refine .number ?_
    rw [← List.append_assoc, ← List.cons_append, numberLength_append hends, hlength]
  | word hc hbody hrest => exact .word hc hbody (hhead hrest (forall_chars (by decide)))
  | pair hpair => exact .pair hpair
  | operator hoperator hopens hpair =>
    refine .operator hoperator (hhead hopens fun _ => not_opens_boundary) (forall_head_append hpair fun d hd => ?_)
    exact isOperatorPair_boundary (hmore.mark d hd) fun hc => hmore.colon hc.1 (hc.2 ▸ hd)

/-- Before a mark a token ends where it ends without it. -/
theorem cut_append (h : cut c cs = (.token lexeme, n)) (hrest : Bounds c rest) :
    cut c (cs ++ rest) = (.token lexeme, n) ∧ n ≤ cs.length := by
  obtain ⟨body, behind, rfl, hforms, rfl⟩ := forms_of_cut h
  rw [List.append_assoc]
  exact ⟨cut_of_forms (hforms.append hrest), (List.prefix_append _ _).length_le⟩

-- ---------------------------------------------------------------------------
-- Evenly spaced texts
-- ---------------------------------------------------------------------------

/-- A token or a single space. -/
def Tidy (p : Piece × List Char) : Prop :=
  (∃ lexeme, p.1 = .token lexeme) ∨ p = (.gap, [' '])

instance : DecidablePred Tidy
  | (.token lexeme, _) => isTrue (.inl ⟨lexeme, rfl⟩)
  | (.gap, chars) =>
    decidable_of_iff (chars = [' ']) ⟨fun h => .inr (h ▸ rfl), fun h => by simpa [Tidy] using h⟩
  | (.problem _, _) => isFalse (by simp [Tidy])

theorem tiles_append (h : ∀ p ∈ tiles cut cs, Tidy p) (hrest : Closes rest) :
    tiles cut (cs ++ rest) = tiles cut cs ++ tiles cut rest := by
  induction cs using tiles_induction cut with
  | nil => rw [tiles_nil, List.nil_append, List.nil_append]
  | cons c cs ih =>
    rw [tiles_cons] at h ⊢
    obtain ⟨hfirst, hmore⟩ := List.forall_mem_cons.mp h
    -- The first piece is the same with and without the rest.
    have hcut : cut c (cs ++ rest) = cut c cs ∧ (cut c cs).2 ≤ cs.length := by
      rcases hfirst with ⟨lexeme, hlexeme⟩ | hgap
      · have hcut : cut c cs = (.token lexeme, (cut c cs).2) := Prod.ext hlexeme rfl
        obtain ⟨hmore, hle⟩ := cut_append hcut (hrest.bounds c)
        exact ⟨hmore.trans hcut.symm, hle⟩
      · obtain ⟨rfl, -⟩ := List.cons.inj (Prod.mk.inj hgap).2
        have hblank : ∀ cs, cut ' ' cs = (.gap, 0) := fun cs => by simp [cut, isBlank]
        rw [hblank, hblank]
        exact ⟨rfl, Nat.zero_le _⟩
    obtain ⟨heq, hle⟩ := hcut
    rw [List.cons_append, tiles_cons, heq, List.take_append_of_le_length hle,
      List.drop_append_of_le_length hle, ih hmore]
    rfl

def tokensOf (text : String) : List Token := tokensIn (tiles cut text.toList)

/-- The spacing of the text is that of `renderTokens`. -/
structure EvenText (text : String) : Prop where
  tidy : ∀ p ∈ tiles cut text.toList, Tidy p
  even : renderTokens false (tokensOf text) = text

theorem lexes_tidy {text : String} (h : ∀ p ∈ tiles cut text.toList, Tidy p) (hrest : Closes rest) :
    Lexes text.toList rest (tokensOf text) := by
  refine ⟨tiles cut text.toList, tiles_append h hrest, ?_, rfl⟩
  intro p hp problem heq
  rcases h p hp with ⟨lexeme, hlexeme⟩ | hgap
  · rw [hlexeme] at heq
    exact Piece.noConfusion heq
  · rw [hgap] at heq
    exact Piece.noConfusion heq

theorem lexes_evenText (h : EvenText text) (hrest : Closes rest) : Lexes text.toList rest (tokensOf text) :=
  lexes_tidy h.tidy hrest

-- ---------------------------------------------------------------------------
-- Where an expression ends
-- ---------------------------------------------------------------------------

/-- Whether the tokens, of which `depth` parentheses are open in front, end with all of them closed and
no token outside parentheses stops them. -/
def isClosed (stop : Lexeme → Bool) (depth : Nat) : List Token → Bool
  | [] => depth = 0
  | token :: rest =>
    match token.lexeme with
    | .finish | .semicolon => false
    | .openParen => isClosed stop (depth + 1) rest
    | .closeParen => depth ≠ 0 && isClosed stop (depth - 1) rest
    | lexeme => !(depth = 0 && stop lexeme) && isClosed stop depth rest

/-- Whether none of the tokens, of which `depth` parentheses are open in front, ends an expression. -/
def isInside (stop : Lexeme → Bool) (depth : Nat) : List Token → Bool
  | [] => true
  | token :: rest =>
    match token.lexeme with
    | .finish | .semicolon => false
    | .openParen => isInside stop (depth + 1) rest
    | .closeParen => depth ≠ 0 && isInside stop (depth - 1) rest
    | lexeme => !(depth = 0 && stop lexeme) && isInside stop depth rest

theorem isClosed_eq : isClosed stop depth ts = (isInside stop depth ts && isClosed (fun _ => false) depth ts) := by
  induction ts generalizing depth with
  | nil => rfl
  | cons t ts ih =>
    rw [isClosed, isInside, isClosed]
    split
    · rfl
    · rfl
    · exact ih
    · rw [ih]
      cases decide (depth ≠ 0) <;> rfl
    · rw [ih, Bool.and_false, Bool.not_false, Bool.true_and, Bool.and_assoc]

theorem isInside_bare : isInside stop depth (ts.map Token.bare) = isInside stop depth ts := by
  induction ts generalizing depth with
  | nil => rfl
  | cons t ts ih =>
    have hbare : t.bare.lexeme = t.lexeme := rfl
    rw [List.map_cons, isInside, isInside, hbare]
    simp only [ih]

/-- A text that is read as one expression, up to where `stop` ends it. -/
structure ExpressionText (stop : Lexeme → Bool) (text : String) : Prop extends EvenText text where
  nonempty : tokensOf text ≠ []
  closed : isClosed stop 0 (tokensOf text) = true

instance : Decidable (ExpressionText stop text) :=
  decidable_of_iff ((∀ p ∈ tiles cut text.toList, Tidy p) ∧ renderTokens false (tokensOf text) = text ∧
      tokensOf text ≠ [] ∧ isClosed stop 0 (tokensOf text) = true)
    ⟨fun h => ⟨⟨h.1, h.2.1⟩, h.2.2.1, h.2.2.2⟩, fun h => ⟨h.tidy, h.even, h.nonempty, h.closed⟩⟩

/-- A text that can be taken for an expression, though parentheses may be open at its end. -/
structure TakenText (stop : Lexeme → Bool) (text : String) : Prop extends EvenText text where
  nonempty : tokensOf text ≠ []
  inside : isInside stop 0 (tokensOf text) = true

/-- The parentheses in the text are closed. -/
def Balanced (text : String) : Prop := isClosed (fun _ => false) 0 (tokensOf text) = true

instance : DecidablePred Balanced := fun text => inferInstanceAs (Decidable (isClosed _ 0 (tokensOf text) = true))

theorem TakenText.closed (h : TakenText stop text) (hclosed : Balanced text) : ExpressionText stop text where
  toEvenText := h.toEvenText
  nonempty := h.nonempty
  closed := by
    rw [isClosed_eq, h.inside, Bool.true_and]
    exact hclosed

theorem isClosed_bare : isClosed stop depth (ts.map Token.bare) = isClosed stop depth ts := by
  induction ts generalizing depth with
  | nil => rfl
  | cons t ts ih =>
    have hbare : t.bare.lexeme = t.lexeme := rfl
    rw [List.map_cons, isClosed, isClosed, hbare]
    simp only [ih]

-- ---------------------------------------------------------------------------
-- Expressions without positions
-- ---------------------------------------------------------------------------

theorem renderFrom_bare : renderFrom clean before (ts.map Token.bare) = renderFrom clean before ts := by
  induction ts generalizing before with
  | nil => rfl
  | cons t ts ih =>
    rw [List.map_cons, renderFrom, renderFrom, ih]
    rfl

theorem chain_bare : chain (ts.map Token.bare) = ((chain ts).1, (chain ts).2.map Token.bare) := by
  fun_induction chain ts with
  | case1 dot next rest hdot name hname names rest' hrest ih =>
    have hdot' : dot.bare.lexeme = .dot := hdot
    have hname' : next.bare.lexeme.name? = some name := hname
    rw [hrest] at ih
    simp [chain, hdot', hname', ih]
  | case2 dot next rest hdot hname =>
    have hdot' : dot.bare.lexeme = .dot := hdot
    have hname' : next.bare.lexeme.name? = none := hname
    simp [chain, hdot', hname']
  | case3 dot next rest hdot =>
    have hdot' : ¬dot.bare.lexeme = .dot := hdot
    simp [chain, hdot']
  | case4 ts h =>
    match ts with
    | [] => rfl
    | [t] => rfl
    | dot :: next :: rest => exact absurd rfl (h dot next rest)

theorem columnsAfter_bare : columnsAfter afterDot (ts.map Token.bare) = columnsAfter afterDot ts := by
  fun_induction columnsAfter afterDot ts with
  | case1 => rw [List.map_nil, columnsAfter]
  | case2 afterDot token rest hname ih =>
    have hbare : token.bare.lexeme = token.lexeme := rfl
    simp only [List.map_cons, columnsAfter, hbare, hname, ih]
  | case3 token rest first hname ih =>
    have hname' : token.bare.lexeme.name? = some first := hname
    simp only [List.map_cons, columnsAfter, hname', ih, if_true]
  | case4 afterDot token rest first hname hafter names behind isCall ih =>
    have hname' : token.bare.lexeme.name? = some first := hname
    have hcall : ((behind.map Token.bare).head?.map (·.lexeme)) = behind.head?.map (·.lexeme) := by
      rw [List.head?_map, Option.map_map]
      rfl
    simp only [List.map_cons, columnsAfter, hname', if_neg hafter, chain_bare]
    rw [hcall, ih]

/-- The columns that a text mentions. -/
def columnsOf (text : String) : List ColumnRef := columnsAfter false (tokensOf text)

theorem ofTokens_bare (h : EvenText text) (hts : ts.map Token.bare = tokensOf text) :
    (Expression.ofTokens ts).text = text ∧ (Expression.ofTokens ts).columns = columnsOf text := by
  constructor
  · rw [Expression.ofTokens, renderTokens, ← renderFrom_bare, hts]
    exact h.even
  · rw [Expression.ofTokens, columnsOf, ← hts, columnsAfter_bare]

end SchemaDialects.Sql
