import SchemaDialects.Proofs.Sql.Outcomes

/-!
# Expressions as they are taken from a script

The grammar takes tokens up to one that stops the expression, and keeps their text. This text is evenly spaced
and is cut into the same tokens again, none of which ends an expression (`Expression.Taken`). Parentheses are
open at its end only where the statement ends too (`Frame.expressionUntil_ends`), which a closing parenthesis
or a comma behind the expression rules out.
-/

namespace SchemaDialects.Sql

open Production Text

-- ---------------------------------------------------------------------------
-- Splitting off an expression
-- ---------------------------------------------------------------------------

theorem splitExpression_append (stop : List Token → Bool) (depth : Nat) (ts : List Token) :
    (splitExpression stop depth ts).1 ++ (splitExpression stop depth ts).2 = ts := by
  induction ts generalizing depth with
  | nil => rfl
  | cons t ts ih =>
    have htake : ∀ depth, (t :: (splitExpression stop depth ts).1) ++ (splitExpression stop depth ts).2 = t :: ts :=
      fun depth => by rw [List.cons_append, ih]
    rw [splitExpression]
    dsimp only
    split
    · rfl
    · rfl
    · exact htake _
    · split
      · rfl
      · exact htake _
    · split
      · rfl
      · exact htake _

theorem isInside_splitExpression (stop : Lexeme → Bool) (depth : Nat) (ts : List Token) :
    isInside stop depth (splitExpression (headIs stop) depth ts).1 = true := by
  induction ts generalizing depth with
  | nil => rfl
  | cons t ts ih =>
    rw [splitExpression]
    dsimp only
    split
    · rfl
    · rfl
    · rename_i hopen
      rw [isInside, hopen]
      exact ih _
    · rename_i hclose
      split
      · rfl
      · rename_i hdepth
        rw [isInside, hclose]
        simp [hdepth, ih]
    · split
      · rfl
      · rename_i hgo
        have hgo : (decide (depth = 0) && stop t.lexeme) = false := by simpa [headIs] using hgo
        rw [isInside]
        split
        · contradiction
        · contradiction
        · contradiction
        · contradiction
        · rw [hgo, ih]
          rfl

/-- Parentheses are open behind an expression only where the statement ends. -/
theorem isClosed_splitExpression (stop : List Token → Bool) (depth : Nat) (ts : List Token) :
    isClosed (fun _ => false) depth (splitExpression stop depth ts).1 = true ∨
      headIs Lexeme.endsStatement (splitExpression stop depth ts).2 = true := by
  induction ts generalizing depth with
  | nil => exact .inr rfl
  | cons t ts ih =>
    rw [splitExpression]
    dsimp only
    split
    · rename_i hfinish
      exact .inr (by simp [headIs, hfinish, Lexeme.endsStatement])
    · rename_i hsemicolon
      exact .inr (by simp [headIs, hsemicolon, Lexeme.endsStatement])
    · rename_i hopen
      rw [isClosed, hopen]
      exact ih _
    · rename_i hclose
      split
      · rename_i hdepth
        exact .inl (hdepth ▸ rfl)
      · rename_i hdepth
        rw [isClosed, hclose]
        simpa [hdepth] using ih (depth - 1)
    · split
      · rename_i hstop
        exact .inl (hstop.1 ▸ rfl)
      · rw [isClosed]
        split <;> simp_all

theorem ne_finish_of_isInside (h : isInside stop depth ts = true) : ∀ t ∈ ts, t.lexeme ≠ .finish := by
  induction ts generalizing depth with
  | nil => exact fun _ ht => absurd ht List.not_mem_nil
  | cons t ts ih =>
    rw [isInside] at h
    split at h
    · cases h
    · cases h
    · rename_i hopen
      exact List.forall_mem_cons.mpr ⟨by simp [hopen], ih h⟩
    · rename_i hclose
      exact List.forall_mem_cons.mpr ⟨by simp [hclose], ih (Bool.and_eq_true_iff.mp h).2⟩
    · rename_i hfinish _ _ _
      exact List.forall_mem_cons.mpr ⟨hfinish, ih (Bool.and_eq_true_iff.mp h).2⟩

/-- Fewer tokens end an expression in parentheses. -/
theorem isInside_never (h : isInside stop depth ts = true) : isInside (fun _ => false) depth ts = true := by
  induction ts generalizing depth with
  | nil => rfl
  | cons t ts ih =>
    rw [isInside] at h ⊢
    split at h <;> simp_all

-- ---------------------------------------------------------------------------
-- Expressions that are taken
-- ---------------------------------------------------------------------------

/-- An expression that is taken from a script: it has the columns that its text mentions. -/
structure Expression.Taken (stop : Lexeme → Bool) (e : Expression) : Prop where
  text : TakenText stop e.text
  columns : e.columns = columnsOf e.text

/-- An expression with its parentheses closed. -/
structure Expression.Closed (stop : Lexeme → Bool) (e : Expression) : Prop extends e.Taken stop where
  balanced : Balanced e.text

theorem Expression.Closed.expressionText {e : Expression} (h : e.Closed stop) : ExpressionText stop e.text := h.text.closed h.balanced

/-- The text of a default value that is taken from a script. -/
structure TakenDefault (text : String) : Prop extends EvenText text where
  value : (tokensOf text).map (·.lexeme) = [.keyword .NULL] ∨
    tokensOf text ≠ [] ∧ isInside endsDefault 0 (tokensOf text) = true

theorem taken_ofTokens (hne : ts ≠ []) (h : Separate ts) (hinside : isInside stop 0 ts = true) :
    (Expression.ofTokens ts).Taken stop := by
  obtain ⟨htext, hcolumns⟩ := ofTokens_bare h.evenText h.tokensOf.symm
  rw [← htext] at hcolumns
  refine ⟨⟨htext ▸ h.evenText, ?_, ?_⟩, hcolumns⟩
  · rw [htext, h.tokensOf]
    simpa using hne
  · rw [htext, h.tokensOf, isInside_bare]
    exact hinside

theorem balanced_ofTokens (h : Separate ts) (hclosed : isClosed (fun _ => false) 0 ts = true) :
    Balanced (Expression.ofTokens ts).text := by
  rw [(ofTokens_bare h.evenText h.tokensOf.symm).1, Balanced, h.tokensOf, isClosed_bare]
  exact hclosed

namespace Frame

variable {F : Frame}

theorem Left.separate (h : F.Left ts) (hpart : inside <+: ts) (hinside : isInside stop 0 inside = true) :
    Separate inside where
  whole t ht := h.whole t (hpart.subset ht) (ne_finish_of_isInside hinside t ht)
  apart := h.apart.prefix hpart

/-- The tokens of an expression. If parentheses are open at its end, the statement ends there. -/
theorem expressionTokens_ends (hstop : Inside stop) : F.Ends (expressionTokens stop) fun inside s =>
    (Separate inside ∧ isInside stop 0 inside = true) ∧
      (isClosed (fun _ => false) 0 inside = true ∨ headIs Lexeme.endsStatement s = true) := by
  intro ts hts inside s hrun
  have hleft := (Gives.of_sim (expressionTokens_sim hstop) ts hts inside s hrun).2
  have hsplit : expressionTokens stop ts =
      .ok (splitExpression (headIs stop) 0 ts).1 (splitExpression (headIs stop) 0 ts).2 := rfl
  rw [hsplit] at hrun
  cases hrun
  have hinside := isInside_splitExpression stop 0 ts
  have hpart : (splitExpression (headIs stop) 0 ts).1 <+: ts := ⟨_, splitExpression_append _ 0 ts⟩
  exact ⟨⟨⟨hts.separate hpart hinside, hinside⟩, isClosed_splitExpression _ 0 ts⟩, hleft⟩

theorem expressionUntil_ends (hstop : Inside stop) (what : String) : F.Ends (expressionUntil stop what) fun e s =>
    e.Taken stop ∧ (Balanced e.text ∨ headIs Lexeme.endsStatement s = true) := by
  refine (expressionTokens_ends hstop).bind ?_
  rintro inside s hs ⟨⟨hseparate, hinside⟩, hclosed⟩ e u hrun
  split at hrun
  · cases hrun
  · rename_i hne
    cases hrun
    have htaken := taken_ofTokens (fun hnil => hne (List.isEmpty_iff.mpr hnil)) hseparate hinside
    exact ⟨⟨htaken, hclosed.imp_left (balanced_ofTokens hseparate)⟩, hs⟩

theorem expressionUntil_gives (hstop : Inside stop) (what : String) :
    F.Gives (expressionUntil stop what) (Expression.Taken stop) :=
  (expressionUntil_ends hstop what).mono fun _ _ h => h.1

-- ---------------------------------------------------------------------------
-- What closes an expression
-- ---------------------------------------------------------------------------

theorem expect_of_ok (h : expect l what s = .ok a u) : (s.headD endToken).lexeme = l := by
  by_contra hne
  have hno : eat l s = .ok false s := eatIf_of_false (by simpa [headIs] using hne)
  have hrun : expect l what s = failExpecting what s := by
    show EStateM.bind (eat l) _ s = _
    rw [EStateM.bind, hno]
    rfl
  rw [hrun] at h
  cases h

/-- A token that is expected does not stand where the statement ends. -/
theorem Ends.expect {P : α → Prop} {p : Production α} {k : α → Production β} (hl : l.endsStatement = false)
    (hp : F.Ends p fun a s => P a ∨ headIs Lexeme.endsStatement s = true) (hk : ∀ a, P a → F.Gives (k a) Q) :
    F.Gives (p >>= fun a => Production.expect l what >>= fun _ => k a) Q := by
  refine hp.bind fun a s hs ha b u hrun => ?_
  have hP : P a := by
    refine ha.resolve_right fun hended => ?_
    change EStateM.bind (Production.expect l what) _ s = .ok b u at hrun
    unfold EStateM.bind at hrun
    split at hrun
    · rename_i hexpect
      rw [headIs, expect_of_ok hexpect, hl] at hended
      cases hended
    · cases hrun
  exact Gives.behind (expect_sim hl what) (fun _ => hk a hP) s hs b u hrun

theorem parenthesized_gives : F.Gives parenthesized (Expression.Closed fun _ => false) := by
  have hinside : F.Ends (expressionUntil (fun _ => false) "expression") fun e s =>
      e.Closed (fun _ => false) ∨ headIs Lexeme.endsStatement s = true :=
    (expressionUntil_ends ⟨rfl, rfl⟩ _).mono fun _ _ h => h.2.imp_left fun hbalanced => ⟨h.1, hbalanced⟩
  exact .behind (expect_sim rfl _) fun _ => Ends.expect rfl hinside fun _ h => .pure h

theorem defaultValue_gives : F.Gives defaultValue fun e => TakenDefault e.text := by
  have hother : F.Gives (expressionUntil endsDefault "default value") fun e => TakenDefault e.text :=
    (expressionUntil_gives ⟨rfl, rfl⟩ _).mono fun e he =>
      { he.text with value := .inr ⟨he.text.nonempty, he.text.inside⟩ }
  intro ts hts e s hrun
  change (if headIs (·.isKeyword .NULL) ts = true then
      (do let token ← current; advance; return .ofTokens [token] : Production Expression)
    else expressionUntil endsDefault "default value") ts = .ok e s at hrun
  split at hrun
  · rename_i hnull
    cases ts with
    | nil => cases hnull
    | cons t ts =>
      have hnull : t.lexeme = .keyword .NULL := by simpa [headIs, Lexeme.isKeyword] using hnull
      have hseparate : Separate [t] :=
        ⟨List.forall_mem_singleton.mpr (hts.whole t List.mem_cons_self (by simp [hnull])), .singleton t⟩
      obtain ⟨htext, -⟩ := ofTokens_bare hseparate.evenText hseparate.tokensOf.symm
      have hdefault : TakenDefault (Expression.ofTokens [t]).text :=
        { htext ▸ hseparate.evenText with
          value := .inl (by rw [htext, hseparate.tokensOf]; simp [Token.bare, hnull]) }
      have hgives : F.Gives (do advance; return Expression.ofTokens [t]) fun e => TakenDefault e.text :=
        .advance (.pure hdefault)
      exact hgives _ hts e s hrun
  · exact hother ts hts e s hrun

/-- Where the statement ends, nothing is passed over behind a column of an index. -/
theorem sorting_ended (h : headIs Lexeme.endsStatement s = true) (e : Expression) :
    (do
      if !(← eatKeyword .ASC) then skipKeyword .DESC
      if ← eatWord "nulls" then advance
      return e : Production Expression) s = .ok e s := by
  have hno : ∀ {p : Lexeme → Bool}, Inside p → eatIf p s = .ok false s := fun hp => eatIf_of_false (hp.ends h)
  have hasc : eatKeyword .ASC s = .ok false s := hno (inside_keyword .ASC)
  have hdesc : eatKeyword .DESC s = .ok false s := hno (inside_keyword .DESC)
  have hnulls : eatWord "nulls" s = .ok false s := hno (inside_word "nulls")
  simp [bind, EStateM.bind, hasc, skipKeyword, hdesc, hnulls, Pure.pure, EStateM.pure]

theorem indexColumn_ends : F.Ends indexColumn fun e s =>
    e.Closed endsIndexColumn ∨ headIs Lexeme.endsStatement s = true := by
  refine (expressionUntil_ends ⟨rfl, rfl⟩ _).bind fun e s hs he b u hrun => ?_
  rcases he.2 with hbalanced | hended
  · have hclosed : e.Closed endsIndexColumn := ⟨he.1, hbalanced⟩
    have hrest : F.Gives (do
        if !(← eatKeyword .ASC) then skipKeyword .DESC
        if ← eatWord "nulls" then advance
        return e) fun e => e.Closed endsIndexColumn := by
      refine .behind (eatKeyword_sim _) fun b => .step (skipKeyword_sim _) (.behind (eatWord_sim _) fun b => ?_)
      exact .ite (.advance (.pure hclosed)) (.pure hclosed)
    exact (hrest s hs b u hrun).imp_left .inl
  · rw [sorting_ended hended] at hrun
    cases hrun
    exact ⟨.inr hended, hs⟩

theorem eatIf_of_ok (h : eatIf p s = .ok b u) : b = headIs p s ∧ (b = false → u = s) := by
  change (if headIs p s then do advance; return true else return false : Production Bool) s = .ok b u at h
  split at h
  · rename_i hhead
    cases h
    exact ⟨hhead.symm, nofun⟩
  · rename_i hhead
    cases h
    exact ⟨(Bool.eq_false_iff.mpr hhead).symm, fun _ => rfl⟩

theorem indexColumns_ends : F.Ends (commaSeparated indexColumn) fun es s =>
    (∀ e ∈ es, e.Closed endsIndexColumn) ∨ headIs Lexeme.endsStatement s = true := by
  have hitem : F.Ends (some <$> indexColumn) fun found s =>
      ∀ e ∈ found, e.Closed endsIndexColumn ∨ headIs Lexeme.endsStatement s = true := by
    rw [← bind_pure_comp]
    refine indexColumn_ends.bind fun e s hs he found u hrun => ?_
    cases hrun
    exact ⟨by rintro _ ⟨⟩; exact he, hs⟩
  refine (Ends.listed hitem (.of_sim (eat_sim rfl)) (fun e s s' he hno => ?_) fun e s s' he hyes u => ?_).mono ?_
  · exact (eatIf_of_ok hno).2 rfl ▸ he
  · -- A comma does not end the statement.
    have hcomma : (s.headD endToken).lexeme = .comma := of_decide_eq_true (eatIf_of_ok hyes).1.symm
    refine .inl (he.resolve_right fun hended => ?_)
    rw [headIs, hcomma] at hended
    cases hended
  · intro es s h
    cases hended : headIs Lexeme.endsStatement s with
    | false => exact .inl fun e he => (h e he).resolve_right (Bool.eq_false_iff.mp hended)
    | true => exact .inr rfl

end Frame

end SchemaDialects.Sql
