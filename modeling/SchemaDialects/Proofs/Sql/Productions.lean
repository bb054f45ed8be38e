import Mathlib.Data.List.Forall2
import SchemaDialects.Proofs.Sql.Expressions
import SchemaDialects.Sql.Definition

/-!
# Productions on written tokens

`Yields p before Q after` says what a production makes of the tokens `before`: a value of which `Q`
holds, with the tokens `after` left. Positions are left open on both sides, and the token that marks
the end of the script goes without saying, so that a production may always step over a token. The
primitive productions come first, then repetition and expressions.
-/

namespace SchemaDialects.Sql

open Production

/-- The tokens of a script that is written as `ws`. -/
def Spells (ts ws : List Token) : Prop :=
  ts.map Token.bare = ws ++ [endToken]

def Yields (p : Production α) (before : List Token) (Q : α → Prop) (after : List Token) : Prop :=
  ∀ ts, Spells ts before → ∃ a rest, p ts = .ok a rest ∧ Spells rest after ∧ Q a

theorem lexeme_of_bare {t w : Token} (h : t.bare = w) : t.lexeme = w.lexeme := by
  rw [← h]
  rfl

theorem Spells.cons (h : Spells ts (w :: ws)) :
    ∃ t u rest, ts = t :: u :: rest ∧ t.bare = w ∧ Spells (u :: rest) ws := by
  obtain ⟨t, ts, rfl, ht, hts⟩ := List.map_eq_cons_iff.mp h
  cases ts with
  | nil => simp at hts
  | cons u rest => exact ⟨t, u, rest, rfl, ht, hts⟩

theorem Spells.length (h : Spells ts ws) : ts.length = ws.length + 1 := by
  rw [← List.length_map (f := Token.bare), h, List.length_append]
  rfl

-- ---------------------------------------------------------------------------
-- Primitive productions
-- ---------------------------------------------------------------------------

namespace Yields

theorem pure (h : Q a) : Yields (Pure.pure a) ws Q ws :=
  fun ts hts => ⟨a, ts, rfl, hts, h⟩

theorem bind {p : Production α} {f : α → Production β} (h : Yields p ws Q vs)
    (hf : ∀ a, Q a → Yields (f a) vs R us) : Yields (p >>= f) ws R us := by
  intro ts hts
  obtain ⟨a, rest, hp, hrest, ha⟩ := h ts hts
  obtain ⟨b, more, hb, hmore, hR⟩ := hf a ha rest hrest
  refine ⟨b, more, ?_, hmore, hR⟩
  show EStateM.bind p f ts = _
  rw [EStateM.bind, hp]
  exact hb

theorem mono {p : Production α} (h : Yields p ws Q vs) (hQ : ∀ a, Q a → R a) : Yields p ws R vs := by
  intro ts hts
  obtain ⟨a, rest, hp, hrest, ha⟩ := h ts hts
  exact ⟨a, rest, hp, hrest, hQ a ha⟩

/-- A production followed by a function of its value. -/
theorem map {p : Production α} {f : α → β} (h : Yields p ws Q vs) (hf : ∀ a, Q a → R (f a)) :
    Yields (f <$> p) ws R vs := by
  have heq : f <$> p = p >>= fun a => Pure.pure (f a) := (bind_pure_comp f p).symm
  rw [heq]
  exact h.bind fun a ha => .pure (hf a ha)

end Yields

theorem get_yields : Yields get ws (fun ts => Spells ts ws) ws :=
  fun ts hts => ⟨ts, ts, rfl, hts, hts⟩

theorem set_yields (h : Spells ts vs) : Yields (set ts) ws (fun _ => True) vs :=
  fun _ _ => ⟨(), ts, rfl, h, trivial⟩

theorem tokens_yields : Yields tokens ws (fun ts => Spells ts ws) ws := get_yields

theorem current_yields : Yields current (w :: ws) (fun t => t.bare = w) (w :: ws) := by
  intro ts hts
  obtain ⟨t, u, rest, rfl, ht, -⟩ := hts.cons
  exact ⟨t, _, rfl, hts, ht⟩

theorem lexeme_yields : Yields lexeme (w :: ws) (· = w.lexeme) (w :: ws) := by
  refine current_yields.bind ?_
  rintro t rfl
  exact .pure rfl

theorem peek_yields (n : Nat) : Yields (peek n) ws (· = (ws[n]?.map (·.lexeme)).getD .finish) ws := by
  intro ts hts
  refine ⟨_, ts, rfl, hts, ?_⟩
  have hlexeme : ts[n]?.map (·.lexeme) = (ws ++ [endToken])[n]?.map (·.lexeme) := by
    rw [← hts, List.getElem?_map, Option.map_map]
    rfl
  rw [hlexeme]
  rcases Nat.lt_trichotomy n ws.length with hlt | rfl | hlt
  · rw [List.getElem?_append_left hlt]
  · simp [endToken]
  · have hout : (ws ++ [endToken]).length ≤ n := by rwa [List.length_append]
    rw [List.getElem?_eq_none hout, List.getElem?_eq_none (Nat.le_of_lt hlt)]

theorem advance_yields : Yields advance (w :: ws) (fun _ => True) ws := by
  intro ts hts
  obtain ⟨t, u, rest, rfl, -, hrest⟩ := hts.cons
  exact ⟨(), u :: rest, rfl, hrest, trivial⟩

theorem eatIf_yields (p : Lexeme → Bool) :
    Yields (eatIf p) (w :: ws) (· = p w.lexeme) (if p w.lexeme then ws else w :: ws) := by
  refine lexeme_yields.bind ?_
  rintro _ rfl
  split
  · exact advance_yields.bind fun _ _ => .pure (by simp [*])
  · exact .pure (by simp [*])

theorem eatIf_true (h : p w.lexeme = true) : Yields (eatIf p) (w :: ws) (· = true) ws := by
  have : Yields (eatIf p) (w :: ws) _ _ := eatIf_yields p
  rwa [if_pos h, h] at this

theorem eatIf_false (h : p w.lexeme = false) :
    Yields (eatIf p) (w :: ws) (· = false) (w :: ws) := by
  have : Yields (eatIf p) (w :: ws) _ _ := eatIf_yields p
  rwa [if_neg (Bool.eq_false_iff.mp h), h] at this

theorem eatKeyword_yields : Yields (eatKeyword k) (keyToken k :: ws) (· = true) ws :=
  eatIf_true (decide_eq_true rfl)

theorem eatKeyword_other (h : w.lexeme ≠ .keyword k) :
    Yields (eatKeyword k) (w :: ws) (· = false) (w :: ws) :=
  eatIf_false (decide_eq_false h)

theorem skipKeyword_other (h : w.lexeme ≠ .keyword k) :
    Yields (skipKeyword k) (w :: ws) (fun _ => True) (w :: ws) :=
  (eatKeyword_other h).bind fun _ _ => .pure trivial

theorem eat_yields (h : w.lexeme = l) : Yields (eat l) (w :: ws) (· = true) ws :=
  eatIf_true (decide_eq_true h)

theorem eat_other (h : w.lexeme ≠ l) : Yields (eat l) (w :: ws) (· = false) (w :: ws) :=
  eatIf_false (decide_eq_false h)

theorem skipWord_other (h : w.lexeme.isWord word = false) :
    Yields (skipWord word) (w :: ws) (fun _ => True) (w :: ws) := by
  have hword : Yields (eatWord word) (w :: ws) (· = false) (w :: ws) := eatIf_false h
  exact hword.bind fun _ _ => .pure trivial

theorem expectKeyword_yields : Yields (expectKeyword k) (keyToken k :: ws) (fun _ => True) ws := by
  refine eatKeyword_yields.bind ?_
  rintro _ rfl
  exact .pure trivial

theorem expect_yields (h : w.lexeme = l) : Yields (expect l what) (w :: ws) (fun _ => True) ws := by
  refine (eat_yields h).bind ?_
  rintro _ rfl
  exact .pure trivial

/-- Nothing is skipped at the end of a statement. -/
theorem skipStatement_yields :
    Yields skipStatement (semicolonToken :: ws) (fun _ => True) (semicolonToken :: ws) := by
  intro ts hts
  obtain ⟨t, u, rest, rfl, ht, -⟩ := hts.cons
  refine ⟨(), t :: u :: rest, ?_, hts, trivial⟩
  have hends : t.lexeme.endsStatement = true := by
    rw [lexeme_of_bare ht]
    rfl
  show EStateM.Result.ok () (statementEnd (t :: u :: rest)) = _
  rw [statementEnd, if_pos hends]

/-- Whatever the position is, no token is taken. -/
theorem positionSince_yields : Yields (positionSince start) ws (fun _ => True) ws := by
  have hcurrent : Yields current ws (fun _ => True) ws := fun ts hts => ⟨_, ts, rfl, hts, trivial⟩
  refine get_yields.bind fun ts _ => ?_
  dsimp only
  split
  · exact hcurrent.bind fun _ _ => .pure trivial
  · exact .pure trivial

-- ---------------------------------------------------------------------------
-- Repetition
-- ---------------------------------------------------------------------------

section
variable {item : Production (Option α)} {more : Production Bool} {P : α → Prop} {Q : List α → Prop}

theorem listed_none (h : Yields item ws (· = none) vs) :
    Yields (listed item more : Production (List α)) ws (· = []) vs := by
  intro ts hts
  obtain ⟨_, rest, hitem, hrest, rfl⟩ := h ts hts
  exact ⟨[], rest, by rw [listed, hitem], hrest, rfl⟩

theorem listed_last (h : Yields item ws (fun o => ∃ a, o = some a ∧ P a) us)
    (hmore : Yields more us (· = false) vs) :
    Yields (listed item more : Production (List α)) ws (fun l => ∃ a, l = [a] ∧ P a) vs := by
  intro ts hts
  obtain ⟨_, rest, hitem, hrest, a, rfl, ha⟩ := h ts hts
  obtain ⟨_, last, hlast, hspells, rfl⟩ := hmore rest hrest
  refine ⟨[a], last, ?_, hspells, a, rfl, ha⟩
  rw [listed, hitem]
  simp only [hlast]

theorem listed_cons (h : Yields item ws (fun o => ∃ a, o = some a ∧ P a) us)
    (hmore : Yields more us (· = true) vs) (hlt : vs.length < ws.length)
    (htail : Yields (listed item more : Production (List α)) vs Q xs) :
    Yields (listed item more : Production (List α)) ws (fun l => ∃ a as, l = a :: as ∧ P a ∧ Q as)
      xs := by
  intro ts hts
  obtain ⟨_, rest, hitem, hrest, a, rfl, ha⟩ := h ts hts
  obtain ⟨_, next, hnext, hspells, rfl⟩ := hmore rest hrest
  obtain ⟨as, last, hlisted, hlast, has⟩ := htail next hspells
  have hlength : next.length < ts.length := by
    rw [hspells.length, hts.length]
    exact Nat.succ_lt_succ hlt
  refine ⟨a :: as, last, ?_, hlast, a, as, rfl, ha, has⟩
  rw [listed, hitem]
  simp only [hnext, if_pos hlength, hlisted]

end

/-- Items with separators between them. `F` holds of what may follow an item. -/
theorem listed_yields {item : Production (Option α)} {more : Production Bool}
    {spell : β → List Token} {Means : β → α → Prop} {F : List Token → Prop} (hne : xs ≠ [])
    (hitem : ∀ x ∈ xs, ∀ us, F us →
      Yields item (spell x ++ us) (fun o => ∃ a, o = some a ∧ Means x a) us)
    (hsep : ∀ us, F (sep :: us) ∧ Yields more (sep :: us) (· = true) us)
    (hlast : F last ∧ Yields more last (· = false) after) :
    Yields (listed item more : Production (List α)) ([sep].intercalate (xs.map spell) ++ last)
      (List.Forall₂ Means xs) after := by
  induction xs with
  | nil => exact absurd rfl hne
  | cons x xs ih =>
    cases xs with
    | nil =>
      rw [List.map_singleton, List.intercalate_singleton]
      refine (listed_last (hitem x List.mem_cons_self last hlast.1) hlast.2).mono ?_
      rintro _ ⟨a, rfl, ha⟩
      exact .cons ha .nil
    | cons y ys =>
      have htail := ih (by simp) fun z hz => hitem z (List.mem_cons_of_mem _ hz)
      rw [List.map_cons, List.map_cons, List.intercalate_cons_cons, List.append_assoc,
        List.append_assoc, List.singleton_append, ← List.map_cons]
      refine (listed_cons (hitem x List.mem_cons_self _ (hsep _).1) (hsep _).2 ?_ htail).mono ?_
      · simp only [List.length_append, List.length_cons]
        omega
      · rintro _ ⟨a, as, rfl, ha, has⟩
        exact .cons ha has

/-- The same for items that are always there. -/
theorem separated_yields {item : Production α} {more : Production Bool} {spell : β → List Token}
    {Means : β → α → Prop} {F : List Token → Prop} (hne : xs ≠ [])
    (hitem : ∀ x ∈ xs, ∀ us, F us → Yields item (spell x ++ us) (Means x) us)
    (hsep : ∀ us, F (sep :: us) ∧ Yields more (sep :: us) (· = true) us)
    (hlast : F last ∧ Yields more last (· = false) after) :
    Yields (separated item more) ([sep].intercalate (xs.map spell) ++ last)
      (List.Forall₂ Means xs) after :=
  listed_yields hne (fun x hx us hus => (hitem x hx us hus).map fun a ha => ⟨a, rfl, ha⟩) hsep hlast

-- ---------------------------------------------------------------------------
-- Expressions
-- ---------------------------------------------------------------------------

/-- What follows an expression that `stop` ends. -/
def EndsExpression (stop : Lexeme → Bool) (lexeme : Lexeme) : Prop :=
  lexeme = .semicolon ∨ lexeme = .closeParen ∨ stop lexeme = true

/-- `halts` may look further than `stop` does, as long as it never halts where `stop` does not. -/
theorem splitExpression_closed {halts : List Token → Bool}
    (hhalts : ∀ u us, stop u.lexeme = false → isClosed stop 0 us = true → halts (u :: (us ++ t :: rest)) = false)
    (h : isClosed stop depth ts = true)
    (ht : t.lexeme = .semicolon ∨ t.lexeme = .closeParen ∨ halts (t :: rest) = true)
    (hopen : t.lexeme ≠ .openParen) :
    splitExpression halts depth (ts ++ t :: rest) = (ts, t :: rest) := by
  induction ts generalizing depth with
  | nil =>
    obtain rfl : depth = 0 := by simpa [isClosed] using h
    rw [List.nil_append, splitExpression]
    rcases ht with ht | ht | ht
    · simp [ht]
    · simp [ht]
    · cases hl : t.lexeme with
      | openParen => exact absurd hl hopen
      | _ => simp [ht]
  | cons u ts ih =>
    rw [isClosed] at h
    rw [List.cons_append, splitExpression]
    cases hu : u.lexeme with
    | finish => simp [hu] at h
    | semicolon => simp [hu] at h
    | openParen =>
      simp only [hu] at h ⊢
      rw [ih h]
    | closeParen =>
      simp only [hu, Bool.and_eq_true, decide_eq_true_eq] at h ⊢
      rw [if_neg h.1, ih h.2]
    | _ =>
      simp only [hu, Bool.and_eq_true, Bool.not_eq_true', Bool.and_eq_false_iff,
        decide_eq_false_iff_not] at h ⊢
      have hgo : ¬(depth = 0 ∧ halts (u :: (ts ++ t :: rest)) = true) := by
        rintro ⟨hdepth, hstop⟩
        rcases h.1 with hne | hno
        · exact hne hdepth
        · rw [hhalts u ts (by rw [hu, hno]) (hdepth ▸ h.2)] at hstop
          exact Bool.noConfusion hstop
      rw [if_neg hgo, ih h.2]

theorem Spells.append (h : Spells ts (ws ++ w :: us)) :
    ∃ front t rest, ts = front ++ t :: rest ∧ front.map Token.bare = ws ∧ t.bare = w ∧
      Spells (t :: rest) (w :: us) := by
  rw [Spells, List.append_assoc] at h
  obtain ⟨front, back, rfl, hfront, hback⟩ := List.map_eq_append_iff.mp h
  obtain ⟨t, rest, rfl, ht, -⟩ := List.map_eq_cons_iff.mp hback
  exact ⟨front, t, rest, rfl, hfront, ht, hback⟩

theorem expressionTokens_yields (h : isClosed stop 0 ws = true) (hw : EndsExpression stop w.lexeme)
    (hopen : w.lexeme ≠ .openParen) :
    Yields (expressionTokens stop) (ws ++ w :: us) (fun ts => ts.map Token.bare = ws) (w :: us) := by
  refine get_yields.bind fun ts hts => ?_
  obtain ⟨front, t, rest, rfl, hfront, ht, hrest⟩ := hts.append
  have hclosed : isClosed stop 0 front = true := by rwa [← isClosed_bare, hfront]
  rw [← lexeme_of_bare ht] at hw hopen
  have hsplit : splitExpression (headIs stop) 0 (front ++ t :: rest) = (front, t :: rest) :=
    splitExpression_closed (fun _ _ hno _ => hno) hclosed hw hopen
  rw [hsplit]
  exact (set_yields hrest).bind fun _ _ => .pure hfront

theorem expressionUntil_yields (h : ExpressionText stop text) (hw : EndsExpression stop w.lexeme)
    (hopen : w.lexeme ≠ .openParen) :
    Yields (expressionUntil stop what) (tokensOf text ++ w :: us)
      (fun e => e.text = text ∧ e.columns = columnsOf text) (w :: us) := by
  refine (expressionTokens_yields h.closed hw hopen).bind fun ts hts => ?_
  have hne : ¬ts.isEmpty = true := by
    intro hempty
    rw [List.isEmpty_iff.mp hempty] at hts
    exact h.nonempty hts.symm
  rw [if_neg hne]
  exact .pure (ofTokens_bare h.toEvenText hts)

theorem parenthesized_yields (h : ExpressionText (fun _ => false) text) :
    Yields parenthesized (openToken :: (tokensOf text ++ closeToken :: ws))
      (fun e => e.text = text ∧ e.columns = columnsOf text) ws := by
  refine (expect_yields rfl).bind fun _ _ => ?_
  refine (expressionUntil_yields h (.inr (.inl rfl)) (by simp [closeToken])).bind fun e he => ?_
  exact (expect_yields rfl).bind fun _ _ => .pure he

end SchemaDialects.Sql
