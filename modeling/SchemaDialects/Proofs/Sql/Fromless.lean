import SchemaDialects.Proofs.Sql.Locations

/-!
# Queries without FROM

`readStatements_fromless`: a query that has no FROM outside parentheses is rejected where it stands, whatever its tokens
are. Its fields are taken outside parentheses (`Outer`): what has been taken when the next production begins has all its
parentheses closed, or the statement is over. So the FROM that has to follow them is one outside parentheses.
-/

namespace SchemaDialects.Sql

open Production

-- ---------------------------------------------------------------------------
-- Outside parentheses
-- ---------------------------------------------------------------------------

/-- Whether a FROM stands outside parentheses, of which `depth` are open in front. Nothing is outside behind a closing
parenthesis that has not been opened. -/
def hasFrom (depth : Nat) : List Token → Bool
  | [] => false
  | token :: rest =>
    match token.lexeme with
    | .openParen => hasFrom (depth + 1) rest
    | .closeParen => depth ≠ 0 && hasFrom (depth - 1) rest
    | lexeme => depth = 0 && lexeme.isKeyword .FROM || hasFrom depth rest

theorem hasFrom_eq_false (h : ∀ t ∈ ts, t.lexeme ≠ .keyword .FROM) : hasFrom depth ts = false := by
  induction ts generalizing depth with
  | nil => rfl
  | cons t ts ih =>
    obtain ⟨ht, hts⟩ := List.forall_mem_cons.mp h
    rw [hasFrom]
    split
    · exact ih hts
    · rw [ih hts, Bool.and_false]
    · simp [ih hts, Lexeme.isKeyword, ht]

theorem hasFrom_append (h : ∀ t ∈ more, t.lexeme ≠ .keyword .FROM) : hasFrom depth (ts ++ more) = hasFrom depth ts := by
  induction ts generalizing depth with
  | nil => exact hasFrom_eq_false h
  | cons t ts ih =>
    rw [List.cons_append, hasFrom, hasFrom]
    split
    · exact ih
    · rw [ih]
    · rw [ih]

/-- Behind closed parentheses the next token stands outside. -/
theorem hasFrom_of_closed (h : isClosed (fun _ => false) depth taken = true) (hfrom : t.lexeme = .keyword .FROM) :
    hasFrom depth (taken ++ t :: rest) = true := by
  induction taken generalizing depth with
  | nil =>
    obtain rfl : depth = 0 := of_decide_eq_true h
    rw [List.nil_append, hasFrom, hfrom]
    rfl
  | cons u taken ih =>
    rw [isClosed] at h
    rw [List.cons_append, hasFrom]
    split at h
    · cases h
    · cases h
    · next hopen => rw [hopen]; exact ih h
    · next hclose =>
      obtain ⟨hdepth, h⟩ := Bool.and_eq_true_iff.mp h
      rw [hclose, hdepth, Bool.true_and]
      exact ih h
    · obtain ⟨-, h⟩ := Bool.and_eq_true_iff.mp h
      split <;> simp_all

theorem isClosed_append {stop : Lexeme → Bool} (h : isClosed stop depth ts = true) :
    isClosed stop depth (ts ++ more) = isClosed stop 0 more := by
  induction ts generalizing depth with
  | nil =>
    obtain rfl : depth = 0 := of_decide_eq_true h
    rfl
  | cons t ts ih =>
    rw [isClosed] at h
    rw [List.cons_append, isClosed]
    split at h <;> simp_all

/-- A token that neither opens nor closes parentheses nor ends the statement. -/
def Lexeme.isOuter (l : Lexeme) : Bool := !(l.endsStatement || l = .openParen || l = .closeParen)

/-- The tokens that are left stand outside parentheses, or at the end of the statement. -/
structure Outer (all s : List Token) : Prop where
  ended : Ended s
  place : (∃ taken, all = taken ++ s ∧ isClosed (fun _ => false) 0 taken = true) ∨ headIs Lexeme.endsStatement s = true

theorem Lexeme.isOuter_iff {l : Lexeme} :
    l.isOuter = true ↔ l.endsStatement = false ∧ l ≠ .openParen ∧ l ≠ .closeParen := by
  simp [isOuter, and_assoc]

theorem Outer.behind (h : Outer all (t :: s)) (ht : t.lexeme.isOuter = true) : Outer all s := by
  obtain ⟨hends, hopen, hclose⟩ := Lexeme.isOuter_iff.mp ht
  refine ⟨h.ended.behind fun hfinish => ?_, ?_⟩
  · rw [hfinish] at hends
    cases hends
  · rcases h.place with ⟨taken, hall, hclosed⟩ | hover
    · refine .inl ⟨taken ++ [t], by rw [hall, List.append_assoc, List.singleton_append], ?_⟩
      rw [isClosed_append hclosed, isClosed]
      split <;> simp_all [Lexeme.endsStatement, isClosed]
    · exact absurd (hends.symm.trans hover) Bool.false_ne_true

/-- Stepping over a token outside parentheses. -/
theorem Outer.advance (h : Outer all s) (hhead : headIs Lexeme.isOuter s = true) : Outer all (stepOver s) := by
  obtain ⟨t, s, rfl⟩ := List.exists_cons_of_ne_nil h.ended.ne_nil
  have hbehind := h.behind hhead
  rwa [Frame.stepOver_cons t hbehind.ended.ne_nil]

-- ---------------------------------------------------------------------------
-- Productions outside parentheses
-- ---------------------------------------------------------------------------

/-- Wherever a production that begins outside parentheses gives a value, what is left then satisfies `Q`. -/
def Reaches (all : List Token) (p : Production α) (Q : List Token → Prop) : Prop :=
  ∀ s, Outer all s → ∀ a u, p s = .ok a u → Q u

namespace Reaches

variable {all : List Token} {Q : List Token → Prop}

theorem pure (a : α) : Reaches all (Pure.pure a : Production α) (Outer all) := by
  rintro s hs _ _ ⟨⟩
  exact hs

theorem fail (what : String) : Reaches all (failExpecting what : Production α) Q := fun _ _ _ _ h => nomatch h

theorem bind {p : Production β} {k : β → Production α} (hp : Reaches all p (Outer all))
    (hk : ∀ b, Reaches all (k b) Q) : Reaches all (p >>= k) Q := by
  intro s hs a u hrun
  obtain ⟨b, v, hfirst, hrest⟩ := ok_of_bind hrun
  exact hk b v (hp s hs b v hfirst) a u hrest

theorem map {p : Production β} {k : β → α} (hp : Reaches all p (Outer all)) : Reaches all (k <$> p) (Outer all) := by
  rw [← bind_pure_comp]
  exact hp.bind fun _ => .pure _

theorem ite {p q : Production α} {c : Prop} [Decidable c] (hp : Reaches all p Q) (hq : Reaches all q Q) :
    Reaches all (if c then p else q) Q := by
  split
  · exact hp
  · exact hq

/-- A step that is taken only if `c` holds. -/
theorem step {x : Production Unit} {k : Unit → Production α} {c : Prop} [Decidable c]
    (hx : Reaches all x (Outer all)) (hk : Reaches all (k ()) Q) : Reaches all (if c then x >>= k else k ()) Q :=
  ite (hx.bind fun _ => hk) hk

/-- What never gives a value is followed by nothing. -/
theorem never {p : Production β} {k : β → Production α} (hp : Reaches all p fun _ => False) :
    Reaches all (p >>= k) Q := by
  intro s hs a u hrun
  obtain ⟨b, v, hfirst, -⟩ := ok_of_bind hrun
  exact (hp s hs b v hfirst).elim

end Reaches

section
variable {all : List Token}

theorem tokens_reaches : Reaches all tokens (Outer all) := by
  rintro s hs _ _ ⟨⟩
  exact hs

theorem current_reaches : Reaches all current (Outer all) := by
  rintro s hs _ _ ⟨⟩
  exact hs

theorem since_reaches (start : List Token) (k : Position → α) :
    Reaches all (do return k (← positionSince start)) (Outer all) :=
  .bind (tokens_reaches.bind fun _ => .ite (current_reaches.bind fun _ => .pure _) (.pure _)) fun _ => .pure _

theorem eatIf_reaches (hp : ∀ l, p l = true → l.isOuter = true) : Reaches all (eatIf p) (Outer all) := by
  intro s hs b u hrun
  obtain ⟨hb, hstays⟩ := Frame.eatIf_of_ok hrun
  cases b with
  | false => exact hstays rfl ▸ hs
  | true =>
    obtain ⟨t, s, rfl⟩ := List.exists_cons_of_ne_nil hs.ended.ne_nil
    have hbehind := hs.behind (hp t.lexeme hb.symm)
    cases hrun.symm.trans (Frame.eatIf_of_true hb.symm hbehind.ended.ne_nil)
    exact hbehind

theorem eatKeyword_reaches (k : Keyword) : Reaches all (eatKeyword k) (Outer all) := by
  refine eatIf_reaches fun l hl => ?_
  obtain rfl : l = .keyword k := of_decide_eq_true hl
  rfl

theorem comma_reaches : Reaches all (eat .comma) (Outer all) := by
  refine eatIf_reaches fun l hl => ?_
  obtain rfl : l = .comma := of_decide_eq_true hl
  rfl

theorem isOuter_of_identifier? (h : identifier? t = some name) : t.lexeme.isOuter = true := by
  rw [identifier?] at h
  split at h
  case h_4 => cases h
  all_goals next ht => rw [ht]; rfl

/-- An identifier is one token, which can be read as one. -/
theorem ok_of_ident (h : ident what s = .ok name u) :
    identifier? (s.headD endToken) = some name ∧ u = stepOver s := by
  obtain ⟨t, v, hcurrent, hrest⟩ := ok_of_bind h
  cases hcurrent
  cases hname : identifier? (s.headD endToken) with
  | none =>
    rw [hname] at hrest
    cases hrest
  | some name =>
    rw [hname] at hrest
    cases hrest
    exact ⟨rfl, rfl⟩

theorem ident_reaches (what : String) : Reaches all (ident what) (Outer all) := by
  intro s hs name u hrun
  obtain ⟨hname, rfl⟩ := ok_of_ident hrun
  exact hs.advance (isOuter_of_identifier? hname)

theorem expressionTokens_reaches (stop : Lexeme → Bool) : Reaches all (expressionTokens stop) (Outer all) := by
  rintro s hs _ _ ⟨⟩
  refine ⟨(reaches_splitExpression hs.ended (headIs stop) 0).ended hs.ended, ?_⟩
  rcases hs.place with ⟨taken, rfl, hclosed⟩ | hover
  · refine (isClosed_splitExpression (headIs stop) 0 s).imp_left fun hinside => ?_
    refine ⟨taken ++ (splitExpression (headIs stop) 0 s).1, ?_, (isClosed_append hclosed).trans hinside⟩
    rw [List.append_assoc, splitExpression_append]
  · obtain ⟨t, s, rfl⟩ := List.exists_cons_of_ne_nil hs.ended.ne_nil
    have hstays : splitExpression (headIs stop) 0 (t :: s) = ([], t :: s) := Frame.splitExpression_ends hover 0
    rw [hstays]
    exact .inr hover

theorem listed_reaches {item : Production (Option α)} {more : Production Bool} (hitem : Reaches all item (Outer all))
    (hmore : Reaches all more (Outer all)) : Reaches all (listed item more) (Outer all) := by
  intro s hs as u hrun
  have hrounds := lists_of_listed hrun
  clear hrun
  induction hrounds with
  | none hfirst => exact hitem _ hs _ _ hfirst
  | last hfirst hsep | stuck hfirst hsep => exact hmore _ (hitem _ hs _ _ hfirst) _ _ hsep
  | next hfirst hsep _ _ ih => exact ih (hmore _ (hitem _ hs _ _ hfirst) _ _ hsep)

-- ---------------------------------------------------------------------------
-- Queries
-- ---------------------------------------------------------------------------

theorem plainField_reaches (start : List Token) : Reaches all (Frame.plainField start) (Outer all) := by
  refine (expressionTokens_reaches _).bind fun field => .step (.fail _) ?_
  refine (eatKeyword_reaches _).bind fun _ => .ite ?_ ?_
  · exact (ident_reaches _).bind fun _ => since_reaches start _
  · exact since_reaches start _

/-- All columns of a table: only the table, the point and the star are stepped over. -/
theorem scopedField_reaches (start : List Token) : Reaches all (Frame.scopedField start) (Outer all) := by
  intro s hs field u hrun
  change (if headIs Lexeme.isNameLike s && (s[1]?.map (·.lexeme)).getD .finish = .dot &&
      (s[2]?.map (·.lexeme)).getD .finish = .star then do
      let scope ← ident "table name"
      advance
      advance
      return .wildcard (some scope) (← positionSince start)
    else Frame.plainField start : Production SelectField) s = .ok field u at hrun
  split at hrun
  · next hlooks =>
    rcases s with _ | ⟨t, _ | ⟨dot, _ | ⟨star, rest⟩⟩⟩
    · simp at hlooks
    · simp at hlooks
    · simp at hlooks
    · obtain ⟨-, hdot, hstar⟩ : headIs Lexeme.isNameLike (t :: dot :: star :: rest) = true ∧ dot.lexeme = .dot ∧
          star.lexeme = .star := by simpa [and_assoc] using hlooks
      obtain ⟨scope, v, hident, hrest⟩ := ok_of_bind hrun
      have hname := ident_reaches _ _ hs scope v hident
      obtain ⟨-, rfl⟩ := ok_of_ident hident
      have hlast := hname.advance (show dot.lexeme.isOuter = true by rw [hdot]; rfl)
      have hbehind := hlast.advance (show star.lexeme.isOuter = true by rw [hstar]; rfl)
      exact since_reaches start _ _ hbehind field u hrest
  · exact plainField_reaches start s hs field u hrun

theorem selectField_reaches : Reaches all selectField (Outer all) := by
  rw [Frame.selectField_eq]
  refine tokens_reaches.bind fun start s hs field u hrun => ?_
  obtain ⟨l, v, hlexeme, hrest⟩ := ok_of_bind hrun
  cases hlexeme
  split at hrest
  · next hstar =>
    cases hrest
    exact hs.advance (by rw [headIs, hstar]; rfl)
  · exact scopedField_reaches start s hs field u hrest

/-- There is no FROM behind the fields. -/
theorem from_reaches (hfrom : hasFrom 0 all = false) : Reaches all (expectKeyword .FROM) fun _ => False := by
  intro s hs a u hrun
  obtain ⟨b, v, heat, hcheck⟩ := ok_of_bind hrun
  cases b with
  | false => cases hcheck
  | true =>
    obtain ⟨t, rfl, ht⟩ := ok_of_eatIf rfl hs.ended heat
    obtain ht : t.lexeme = .keyword .FROM := of_decide_eq_true ht
    rcases hs.place with ⟨taken, rfl, hclosed⟩ | hover
    · exact absurd ((hasFrom_of_closed hclosed ht).symm.trans hfrom) (by decide)
    · rw [headIs, List.headD_cons, ht] at hover
      cases hover

/-- A query without FROM outside parentheses is not read. -/
theorem select_fromless (hts : Ended (start :: all)) (hfrom : hasFrom 0 all = false) :
    select (start :: all) ≠ .ok query rest := by
  intro hrun
  obtain ⟨t, tail, heq, htail, hrest⟩ := ok_of_expectKeyword hts hrun
  obtain ⟨rfl, rfl⟩ := List.cons.inj heq
  refine (?_ : Reaches all _ fun _ => False) all ⟨htail, .inl ⟨[], rfl, rfl⟩⟩ _ _ hrest
  refine (eatKeyword_reaches _).bind fun _ => .step ((eatKeyword_reaches _).bind fun _ => .pure _) ?_
  exact (listed_reaches selectField_reaches.map comma_reaches).bind fun _ => (from_reaches hfrom).never

theorem statement_fromless (script : List Char) (hts : Ended (start :: all)) (hstart : start.lexeme = .keyword .SELECT)
    (hfrom : hasFrom 0 all = false) : statement script (start :: all) ≠ .ok st rest := by
  intro hrun
  obtain ⟨_, _, ⟨⟩, hrun⟩ := ok_of_bind hrun
  obtain ⟨first, _, hfirst, hrun⟩ := ok_of_bind hrun
  obtain ⟨second, _, hsecond, hrun⟩ := ok_of_bind hrun
  cases hfirst
  cases hsecond
  rw [List.headD_cons, hstart] at hrun
  change (Statement.select <$> select) (start :: all) = _ at hrun
  rw [← bind_pure_comp] at hrun
  obtain ⟨query, s, hselect, -⟩ := ok_of_bind hrun
  exact select_fromless hts hfrom hselect

end

-- ---------------------------------------------------------------------------
-- Scripts
-- ---------------------------------------------------------------------------

/-- Behind the only statement of a script there is no other one. -/
theorem statements_over {s front back : List Token} {stop : Token} (script : List Char)
    (hpart : s <:+ front ++ (back ++ [stop])) (hs : Ended s) (hends : headIs Lexeme.endsStatement s = true)
    (hfront : ∀ t ∈ front, t.lexeme ≠ .semicolon) (hback : ∀ t ∈ back, t.lexeme = .semicolon)
    (hstop : stop.lexeme = .finish) : statements script s = ([], []) := by
  have hsemicolons : s <:+ back ++ [stop] → statements script s = ([], []) := by
    rintro ⟨before, hbefore⟩
    obtain ⟨more, last, rfl⟩ := (List.eq_nil_or_concat' s).resolve_left hs.ne_nil
    rw [← List.append_assoc] at hbefore
    obtain ⟨rfl, hlast⟩ := List.append_inj' hbefore rfl
    obtain rfl := List.singleton_inj.mp hlast
    exact Frame.statements_finish script more (fun t ht => hback t (List.mem_append_right _ ht)) hstop
  rcases List.suffix_or_suffix_of_suffix hpart (List.suffix_append front _) with hs | ⟨_ | ⟨t, inside⟩, rfl⟩
  · exact hsemicolons hs
  · exact hsemicolons List.suffix_rfl
  · -- The end of the script comes early.
    obtain ⟨before, hbefore⟩ := hpart
    rw [← List.append_assoc] at hbefore
    have ht : t ∈ front := List.append_cancel_right hbefore ▸ List.mem_append_right _ List.mem_cons_self
    have hfinish : t.lexeme = .finish := by
      have hlexeme : t.lexeme.endsStatement = true := hends
      cases hl : t.lexeme <;> simp_all [Lexeme.endsStatement]
    exact Frame.statements_finish script [] (List.forall_mem_nil _) hfinish

/-- A query without FROM outside parentheses is the only problem of a script that is made of it alone. -/
theorem statements_fromless (script : List Char) {front inside back : List Token} {start stop : Token}
    (hended : Ended (front ++ start :: (inside ++ (back ++ [stop]))))
    (hfront : ∀ t ∈ front, t.lexeme = .semicolon) (hstart : start.lexeme = .keyword .SELECT)
    (hinside : ∀ t ∈ inside, t.lexeme ≠ .semicolon) (hfrom : hasFrom 0 inside = false)
    (hback : ∀ t ∈ back, t.lexeme = .semicolon) :
    ∃ d, statements script (front ++ start :: (inside ++ (back ++ [stop]))) = ([], [d]) ∧ d.level = .error ∧
      ∃ t ∈ start :: (inside ++ (back ++ [stop])), d.position = t.position := by
  have hbegun : Ended (start :: (inside ++ (back ++ [stop]))) :=
    hended.suffix (List.cons_ne_nil _ _) (List.suffix_append _ _)
  have hstop : stop.lexeme = .finish := by
    obtain ⟨last, hlast, hfinish⟩ := hbegun
    rw [← List.cons_append, ← List.append_assoc, List.getLast?_concat] at hlast
    rwa [Option.some.inj hlast]
  have hnone : hasFrom 0 (inside ++ (back ++ [stop])) = false := by
    refine (hasFrom_append (List.forall_mem_append.mpr ⟨fun t ht => ?_, List.forall_mem_singleton.mpr ?_⟩)).trans hfrom
    · rw [hback t ht]
      decide
    · rw [hstop]
      decide
  have hskip : skipSemicolons (front ++ start :: (inside ++ (back ++ [stop]))) =
      start :: (inside ++ (back ++ [stop])) := by
    rw [Frame.skipSemicolons_append hfront, skipSemicolons, if_neg (by rw [hstart]; decide)]
  have hleaves := (statement_runs script hbegun (by rw [headIs, List.headD_cons, hstart]; rfl)).leaves hbegun
  cases hrun : statement script (start :: (inside ++ (back ++ [stop]))) with
  | ok st rest => exact absurd hrun (statement_fromless script hbegun hstart hnone)
  | error problem rest =>
    rw [hrun] at hleaves
    cases hleaves with
    | error hs hpart hplace =>
      have hover : statements script (statementEnd rest) = ([], []) :=
        statements_over script ((statementEnd_suffix rest).trans hpart) hs.statementEnd
          (Frame.headIs_statementEnd rest) (List.forall_mem_cons.mpr ⟨by rw [hstart]; decide, hinside⟩) hback hstop
      refine ⟨problem.diagnostic, ?_, rfl, place_of_part hs hpart hplace⟩
      rw [statements, hskip, if_neg (by rw [headIs, List.headD_cons, hstart]; decide), readStatement, hrun]
      dsimp only
      rw [hover]
      split <;> rfl

/-- A script of one query without FROM outside parentheses gives no value. Beside the problems of the lexer there is one
error, which is at a token of the query or at the end of it, not in front of its SELECT. -/
theorem readStatements_fromless {script : String} {front inside back : List Token} {start stop : Token}
    (htokens : (tokenize script).1 = front ++ start :: (inside ++ (back ++ [stop])))
    (hfront : ∀ t ∈ front, t.lexeme = .semicolon) (hstart : start.lexeme = .keyword .SELECT)
    (hinside : ∀ t ∈ inside, t.lexeme ≠ .semicolon) (hfrom : hasFrom 0 inside = false)
    (hback : ∀ t ∈ back, t.lexeme = .semicolon) :
    (readStatements script).value = none ∧
    ∃ d, (readStatements script).diagnostics = (tokenize script).2 ++ [d] ∧ d.level = .error ∧
      start.position.offset.start ≤ d.position.offset.start := by
  obtain ⟨hended, hsound, hpairwise⟩ := tokenize_ascends script
  rw [htokens] at hended hsound hpairwise
  obtain ⟨d, hread, hlevel, t, ht, hplace⟩ :=
    statements_fromless script.toList hended hfront hstart hinside hfrom hback
  have hascending : Ascending (start :: (inside ++ (back ++ [stop]))) :=
    Ascending.suffix ⟨hsound, hpairwise⟩ (List.suffix_append _ _)
  have hvalue : readStatements script = .failure ((tokenize script).2 ++ [d]) := by
    have hfails : ((tokenize script).2 ++ [d]).any Diagnostic.isError = true := by simp [Diagnostic.isError, hlevel]
    rw [← htokens] at hread
    unfold readStatements
    dsimp only
    rw [hread]
    exact if_pos hfails
  rw [hvalue]
  exact ⟨rfl, d, rfl, hlevel, hplace ▸ hascending.start_le ht⟩

/-- The FROM of the inner query stands in parentheses, so that the outer query has none. -/
def nestedScript : String := ";SELECT a.*, (SELECT b FROM u) AS c, (d;;"

theorem readStatements_fromless_nested :
    (readStatements nestedScript).value = none ∧
    ∃ d, (readStatements nestedScript).diagnostics = [d] ∧ d.level = .error ∧ 1 ≤ d.position.offset.start := by
  let token (n : Nat) : Token := (tokenize nestedScript).1.getD n endToken
  have htokens : (tokenize nestedScript).1 = [token 0] ++ token 1 ::
      (((tokenize nestedScript).1.drop 2).take 15 ++ ([token 17, token 18] ++ [token 19])) := by decide +kernel
  have hlexical : (tokenize nestedScript).2 = [] := by decide +kernel
  obtain ⟨hvalue, d, hdiagnostics, hlevel, hplace⟩ := readStatements_fromless htokens (by decide +kernel)
    (by decide +kernel) (by decide +kernel) (by decide +kernel) (by decide +kernel)
  have hstart : (token 1).position.offset.start = 1 := by decide +kernel
  rw [hlexical] at hdiagnostics
  exact ⟨hvalue, d, hdiagnostics, hlevel, hstart ▸ hplace⟩

end SchemaDialects.Sql
