import SchemaDialects.Proofs.Sql.FrameDefinitions
import SchemaDialects.Proofs.Sql.FrameQueries
import SchemaDialects.Sql.Script

/-!
# Statements inside another script

A statement is the same in both scripts of a frame, and what is left behind it begins at the same place
(`readStatement_related`). Each statement takes at least one token, so that the statements of the shorter
script are those in front of its end in the longer one (`statements_related`).
-/

namespace SchemaDialects.Sql

open Production

namespace Frame

variable {F : Frame}

-- ---------------------------------------------------------------------------
-- One statement
-- ---------------------------------------------------------------------------

theorem statement_sim : F.Sim Statement.bare (statement F.script) (statement F.whole) := by
  refine .tokens fun start start' hstart => .look rfl ?_ fun t t' s s' ht h hs => .peek ?_ hs fun next _ => ?_
  · exact fun ts ts' h => unmodelled_sim hstart ts ts' h
  · cases t.lexeme with
    | keyword k => cases k <;> rfl
    | _ => rfl
  · generalize t.lexeme = l
    split
    · have hselect : F.Sim Statement.bare (Statement.select <$> select) (Statement.select <$> select) :=
        select_sim.map fun _ _ h => congrArg Statement.select h
      exact hselect _ _ h
    · exact create_sim hstart _ _ h
    · exact alterTable_sim _ _ h
    · exact commentOn_sim hstart _ _ h
    · exact update_sim _ _ h
    · exact unmodelled_sim hstart _ _ h

theorem headIs_ends (h : F.Related ts ts') :
    headIs Lexeme.endsStatement ts = headIs Lexeme.endsStatement ts' := by
  cases h with
  | ended =>
    show F.last.lexeme.endsStatement = F.next.lexeme.endsStatement
    rw [F.last_ends, F.next_ends]
  | token ht => exact congrArg Lexeme.endsStatement ht.lexeme

theorem readStatement_related (h : F.Related ts ts') :
    (readStatement F.script ts).1.map Statement.bare = (readStatement F.whole ts').1.map Statement.bare ∧
      F.Related (readStatement F.script ts).2.2 (readStatement F.whole ts').2.2 ∧
      (readStatement F.script ts).2.2 <:+ ts ∧
      headIs Lexeme.endsStatement (readStatement F.script ts).2.2 = true := by
  have hread := statement_sim ts ts' h
  unfold readStatement
  generalize statement F.script ts = r at hread ⊢
  generalize statement F.whole ts' = r' at hread ⊢
  cases hread with
  | error hs hpart =>
    obtain ⟨hend, hleft⟩ := statementEnd_related hs
    exact ⟨rfl, hend, hleft.trans hpart, headIs_statementEnd _⟩
  | @ok a a' s s' ha hs hpart =>
    have hone : [a].map Statement.bare = [a'].map Statement.bare := by simp [ha]
    dsimp only
    rw [← headIs_ends hs]
    split
    · next hends => exact ⟨hone, hs, hpart, hends⟩
    · obtain ⟨hend, hleft⟩ := statementEnd_related hs
      exact ⟨hone, hend, hleft.trans hpart, headIs_statementEnd _⟩

/-- A statement takes tokens. -/
theorem readStatement_shrinks (h : F.Related ts ts') (hbegins : headIs Lexeme.endsStatement ts = false) :
    (readStatement F.script ts).2.2.length < ts.length := by
  obtain ⟨-, -, hleft, hends⟩ := readStatement_related h
  refine Nat.lt_of_le_of_ne hleft.length_le fun hlength => ?_
  rw [hleft.eq_of_length hlength, hbegins] at hends
  contradiction

-- ---------------------------------------------------------------------------
-- Whole scripts
-- ---------------------------------------------------------------------------

theorem skipSemicolons_related (h : F.Related ts ts') :
    (∃ s', F.Related (skipSemicolons ts) s') ∧ skipSemicolons ts <:+ ts ∧
      headIs (· = .semicolon) (skipSemicolons ts) = false := by
  induction h with
  | ended =>
    have hlast : F.last.lexeme ≠ .semicolon := by simp [F.last_finish]
    rw [skipSemicolons, if_neg hlast]
    exact ⟨⟨_, .ended⟩, List.suffix_rfl, decide_eq_false hlast⟩
  | token ht hfinish hnext hs ih =>
    rw [skipSemicolons]
    split
    · exact ⟨ih.1, ih.2.1.trans (List.suffix_cons _ _), ih.2.2⟩
    · next hsemicolon => exact ⟨⟨_, .token ht hfinish hnext hs⟩, List.suffix_rfl, decide_eq_false hsemicolon⟩

theorem headIs_endsStatement (ts : List Token) : headIs Lexeme.endsStatement ts =
    (headIs (· = .semicolon) ts || headIs (· = .finish) ts) := by
  unfold headIs
  generalize (ts.headD endToken).lexeme = l
  cases l <;> rfl

theorem skipSemicolons_append (hsemicolons : ∀ t ∈ semicolons, t.lexeme = .semicolon) :
    skipSemicolons (semicolons ++ ts) = skipSemicolons ts := by
  induction semicolons with
  | nil => rfl
  | cons t semicolons ih =>
    obtain ⟨ht, hmore⟩ := List.forall_mem_cons.mp hsemicolons
    rw [List.cons_append, skipSemicolons, if_pos ht, ih hmore]

/-- Where only semicolons stand there are no statements. -/
theorem statements_finish (script : List Char) (semicolons : List Token)
    (hsemicolons : ∀ t ∈ semicolons, t.lexeme = .semicolon) (ht : t.lexeme = .finish) :
    statements script (semicolons ++ t :: ts) = ([], []) := by
  have hsemicolon : t.lexeme ≠ .semicolon := by simp [ht]
  rw [statements, skipSemicolons_append hsemicolons, skipSemicolons, if_neg hsemicolon]
  exact if_pos (decide_eq_true ht)

theorem statements_step {script : List Char} (hskip : skipSemicolons ts = begun)
    (hfinish : headIs (· = .finish) begun = false)
    (hless : (readStatement script begun).2.2.length < ts.length) :
    (statements script ts).1 =
      (readStatement script begun).1 ++ (statements script (readStatement script begun).2.2).1 := by
  have hall : statements script ts = ((readStatement script begun).1 ++
      (statements script (readStatement script begun).2.2).1, (readStatement script begun).2.1 ++
      (statements script (readStatement script begun).2.2).2) := by
    rw [statements, hskip]
    exact (if_neg (Bool.eq_false_iff.mp hfinish)).trans (if_pos hless)
  rw [hall]

/-- A semicolon in front contributes nothing. -/
theorem statements_semicolon (h : F.Related ts ts') (ht : t.lexeme = .semicolon) :
    (statements F.script (t :: ts)).1 = (statements F.script ts).1 := by
  obtain ⟨⟨s', hs⟩, hleft, hbegins⟩ := skipSemicolons_related h
  have hskip : skipSemicolons (t :: ts) = skipSemicolons ts := by rw [skipSemicolons, if_pos ht]
  cases hfinish : headIs (· = .finish) (skipSemicolons ts) with
  | true =>
    rw [statements, statements, hskip, if_pos hfinish, if_pos hfinish]
  | false =>
    have hinside : headIs Lexeme.endsStatement (skipSemicolons ts) = false := by
      rw [headIs_endsStatement, hbegins, hfinish]
      rfl
    have hless := Nat.lt_of_lt_of_le (readStatement_shrinks hs hinside) hleft.length_le
    rw [statements_step hskip hfinish (Nat.lt_succ_of_lt hless), statements_step rfl hfinish hless]

/-- Statements in front of the end of the shorter script, which `found` follow. -/
theorem statements_related (found : List Statement) (h : F.Related ts ts')
    (hfound : ∀ semicolons : List Token, (∀ t ∈ semicolons, t.lexeme = .semicolon) →
      (statements F.whole (semicolons ++ F.next :: F.rest)).1.map Statement.bare = found)
    (semicolons : List Token) (hsemicolons : ∀ t ∈ semicolons, t.lexeme = .semicolon) :
    (statements F.whole (semicolons ++ ts')).1.map Statement.bare =
      (statements F.script ts).1.map Statement.bare ++ found := by
  induction hn : ts.length using Nat.strongRecOn generalizing ts ts' semicolons with
  | ind n ih =>
    subst hn
    have hall := h
    cases h with
    | ended =>
      have hnone : statements F.script ([] ++ [F.last]) = ([], []) :=
        statements_finish F.script [] (by simp) F.last_finish
      rw [List.nil_append] at hnone
      rw [hnone]
      exact hfound semicolons hsemicolons
    | @token t t' ts ts' ht hfinish hnext hs =>
      by_cases hsemicolon : t.lexeme = .semicolon
      · -- One more semicolon stands in front of what is left.
        have hmore : ∀ u ∈ semicolons ++ [t'], u.lexeme = .semicolon := by
          intro u hu
          rcases List.mem_append.mp hu with hu | hu
          · exact hsemicolons u hu
          · rw [List.mem_singleton.mp hu, ← ht.lexeme, hsemicolon]
        rw [statements_semicolon hs hsemicolon, List.append_cons]
        exact ih ts.length (Nat.lt_succ_self _) hs _ hmore rfl
      · have hsame : t'.lexeme ≠ .semicolon := ht.lexeme ▸ hsemicolon
        have hinside : headIs Lexeme.endsStatement (t :: ts) = false := by
          rw [headIs_endsStatement]
          exact Bool.or_eq_false_iff.mpr ⟨decide_eq_false hsemicolon, decide_eq_false hfinish⟩
        obtain ⟨hfirst, hrest, -, -⟩ := readStatement_related hall
        have hless := readStatement_shrinks hall hinside
        have hothers := ih _ hless hrest [] (by simp) rfl
        have hskip : skipSemicolons (t :: ts) = t :: ts := by rw [skipSemicolons, if_neg hsemicolon]
        have hskip' : skipSemicolons (semicolons ++ t' :: ts') = t' :: ts' := by
          rw [skipSemicolons_append hsemicolons, skipSemicolons, if_neg hsame]
        have hmore : (readStatement F.whole (t' :: ts')).2.2.length < (semicolons ++ t' :: ts').length := by
          have := hrest.length
          have := hall.length
          rw [List.length_append]
          omega
        rw [statements_step hskip (decide_eq_false hfinish) hless,
          statements_step hskip' (decide_eq_false (ht.lexeme ▸ hfinish)) hmore, List.map_append,
          List.map_append, List.append_assoc, ← hothers, hfirst]
        rfl

end Frame

end SchemaDialects.Sql
