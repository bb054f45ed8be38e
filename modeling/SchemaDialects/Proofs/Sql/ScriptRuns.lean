import SchemaDialects.Proofs.Sql.Locations
import SchemaDialects.Proofs.Sql.Separation

/-!
# Scripts are read to their end

`readStatements_runs`: reading a script comes to an end without leaving its tokens. A statement that is begun runs over
the tokens that there are (`Runs`), and what is left behind it is shorter (`ScriptRuns`). `listed` and `statements` have
a guard against rounds that take no token; neither the loops of the grammar (`Loop.rounds`) nor the loop over the
statements (`statements_run`) need it.
-/

namespace SchemaDialects.Sql

open Production

-- ---------------------------------------------------------------------------
-- The loops of the grammar
-- ---------------------------------------------------------------------------

/-- The loops of the grammar: what is repeated, and whether it goes on. -/
inductive Loop : {α : Type} → Production (Option α) → Production Bool → Prop
  | nameParts (what : String) : Loop (some <$> ident what) (eat .dot)
  | identifiers : Loop (some <$> identList.column) anotherPart
  | fields : Loop (some <$> selectField) (eat .comma)
  | tables : Loop (some <$> tableRef) (eat .comma)
  | joins : Loop join (pure true)
  | grouping (stop : Lexeme → Bool) (what : String) : Loop (some <$> expressionUntil stop what) (eat .comma)
  | ordering : Loop (some <$> orderItem) (eat .comma)
  | assignments : Loop (some <$> assignment) (eat .comma)
  | referenceClauses : Loop referenceClause (pure true)
  | columnConstraints : Loop columnConstraint (pure true)
  | tableParts : Loop (some <$> tablePart) anotherPart
  | indexColumns : Loop (some <$> indexColumn) (eat .comma)
  | enumValues : Loop enumValue (eat .comma)
  | typeFields : Loop compositeField (eat .comma)
  | actions : Loop (some <$> alterAction) (eat .comma)

theorem Loop.rounds {item : Production (Option α)} (h : Loop item more) : Rounds item more := by
  cases h with
  | nameParts what => exact separates_dot.items (ident_runs what)
  | identifiers => exact separates_anotherPart.items listedColumn_runs
  | fields => exact separates_comma.items selectField_runs
  | tables => exact separates_comma.items tableRef_runs
  | joins => exact Consumes.rounds join_consumes
  | grouping stop what => exact separates_comma.items (expressionUntil_runs stop what)
  | ordering => exact separates_comma.items orderItem_runs
  | assignments => exact separates_comma.items assignment_runs
  | referenceClauses => exact Consumes.rounds referenceClause_consumes
  | columnConstraints => exact Consumes.rounds columnConstraint_consumes
  | tableParts => exact separates_anotherPart.items tablePart_runs
  | indexColumns => exact separates_comma.items indexColumn_runs
  | enumValues => exact separates_comma.rounds enumValue_runs
  | typeFields => exact separates_comma.rounds compositeField_runs
  | actions => exact separates_comma.items alterAction_runs

/-- How the loops of the grammar proceed from some tokens on: each round takes a token, so that the loop is the same
without a guard. -/
structure Proceeds (item : Production (Option α)) (more : Production Bool) (ts : List Token) : Prop where
  advances : Advances item more ts
  unrolls : listed item more ts = unrolled item more ts
  runs : Runs (listed item more) ts

theorem Rounds.proceeds {item : Production (Option α)} (h : Rounds item more) (hts : Ended ts) :
    Proceeds item more ts where
  advances := h.advances hts
  unrolls := listed_eq (h.advances hts)
  runs := h.runs ts hts List.suffix_rfl

/-- The loops that pass over single tokens, from some tokens on. -/
structure PassesOver (ts : List Token) : Prop where
  statement : Scanner.statement.Reaches () ts (statementEnd ts)
  semicolons : Scanner.semicolons.Reaches () ts (skipSemicolons ts)
  group : Scanner.group.Reaches (some 0) ts (groupEnd 0 ts)
  expression (stop : List Token → Bool) : ∃ taken s, splitExpression stop 0 ts = (taken, s) ∧
    (Scanner.expression stop).Reaches 0 ts s ∧ taken ++ s = ts

theorem passesOver (hts : Ended ts) : PassesOver ts where
  statement := reaches_statementEnd hts
  semicolons := reaches_skipSemicolons hts
  group := reaches_groupEnd hts 0
  expression stop := ⟨_, _, rfl, reaches_splitExpression hts stop 0, splitExpression_append stop 0 ts⟩

-- ---------------------------------------------------------------------------
-- Positions
-- ---------------------------------------------------------------------------

/-- The productions inside statements that keep in mind where they begin, and cut off what they have taken since. -/
inductive Marked : {α : Type} → Production α → Prop
  | field : Marked selectField
  | table : Marked tableRef
  | join : Marked join
  | type : Marked dataType
  | columnConstraint : Marked columnConstraint
  | column : Marked columnDef
  | tableConstraint : Marked tableConstraint
  | action : Marked alterAction

theorem Marked.runs {p : Production α} (h : Marked p) : RunsFrom start p := by
  cases h with
  | field => exact selectField_runs
  | table => exact tableRef_runs
  | join => exact join_consumes.runs
  | type => exact dataType_runs
  | columnConstraint => exact columnConstraint_consumes.runs
  | column => exact columnDef_runs
  | tableConstraint => exact tableConstraint_runs
  | action => exact alterAction_runs

/-- A production leaves off where it began or later, so that the tokens between can be cut off. -/
structure CutsOff (p : Production α) (ts : List Token) : Prop where
  runs : Runs p ts
  leaves : Leaves ts (p ts)
  slice : ∀ a s, p ts = .ok a s → between ts s ++ s = ts

theorem Marked.cutsOff {p : Production α} (h : Marked p) (hts : Ended ts) : CutsOff p ts where
  runs := h.runs ts hts List.suffix_rfl
  leaves := (h.runs ts hts List.suffix_rfl).leaves hts
  slice _ _ hrun := between_append (h.runs.left hts List.suffix_rfl hrun).2

-- ---------------------------------------------------------------------------
-- The loop over the statements
-- ---------------------------------------------------------------------------

/-- What is left by a production, whether it gives a value or not. -/
def leftBy : EStateM.Result Problem (List Token) α → List Token
  | .ok _ s | .error _ s => s

theorem Leaves.ended {r : EStateM.Result Problem (List Token) α} (h : Leaves ts r) : Ended (leftBy r) := by
  cases h with
  | ok hs => exact hs
  | error hs => exact hs

/-- How a script is read, one statement after the other. Each of them runs over tokens that there are, and stands where
the tokens do that it covers. What is left of it is passed over. The next round begins at its end, which is later. -/
inductive ScriptRuns (script : List Char) : List Token → List Statement → List Diagnostic → Prop
  | finished (hskip : Scanner.semicolons.Reaches () ts begun) (hfinish : headIs (· = .finish) begun = true) :
      ScriptRuns script ts [] []
  | round (hskip : Scanner.semicolons.Reaches () ts begun) (hgo : headIs (· = .finish) begun = false)
      (hrun : Runs (statement script) begun) (hread : readStatement script begun = (found, problems, rest))
      (hlies : ∀ st ∈ found, ∃ left, statement script begun = .ok st left ∧ st.Lies script begun left)
      (hover : Scanner.statement.Reaches () (leftBy (statement script begun)) rest) (hpart : rest <:+ begun)
      (hless : rest.length < begun.length) (hmore : ScriptRuns script rest more others) :
      ScriptRuns script ts (found ++ more) (problems ++ others)

theorem statementEnd_of_ends (h : headIs Lexeme.endsStatement ts = true) : statementEnd ts = ts := by
  cases ts with
  | nil => rfl
  | cons t ts => exact if_pos h

theorem readStatement_over (script : List Char) (ts : List Token) :
    (readStatement script ts).2.2 = statementEnd (leftBy (statement script ts)) := by
  unfold readStatement
  cases statement script ts with
  | error problem rest => rfl
  | ok st rest =>
    dsimp only
    split
    · next h => exact (statementEnd_of_ends h).symm
    · rfl

theorem readStatement_single (script : List Char) (ts : List Token) : (readStatement script ts).1.length ≤ 1 := by
  unfold readStatement
  split
  · split
    · exact Nat.le_refl 1
    · exact Nat.le_refl 1
  · exact Nat.zero_le 1

/-- The loop needs no guard. -/
theorem statements_run (script : List Char) (hts : Ended ts) :
    ScriptRuns script ts (statements script ts).1 (statements script ts).2 := by
  induction hn : ts.length using Nat.strongRecOn generalizing ts with
  | ind n ih =>
    subst hn
    have hskip := reaches_skipSemicolons hts
    rw [statements]
    dsimp only
    split
    · next hfinish => exact .finished hskip hfinish
    next hgo =>
    have hgo := Bool.eq_false_iff.mpr hgo
    obtain ⟨hbegun, -, hstarts⟩ := begins_skipSemicolons hts ⟨List.suffix_rfl, .inl rfl⟩ hgo
    have hrun := statement_runs script hbegun hstarts
    have hover := reaches_statementEnd (hrun.leaves hbegun).ended
    rw [← readStatement_over] at hover
    have hreads : Reads script _ _ _ _ := readStatement_reads hbegun hstarts
    have hlies (st : Statement) (hst : st ∈ (readStatement script (skipSemicolons ts)).1) :
        ∃ left, statement script (skipSemicolons ts) = .ok st left ∧ st.Lies script (skipSemicolons ts) left := by
      obtain ⟨left, hread, hcovers, -⟩ := hreads.lies st hst
      exact ⟨left, hread, hcovers⟩
    -- The statement has begun at a token that does not end it.
    have hless : (readStatement script (skipSemicolons ts)).2.2.length < (skipSemicolons ts).length := by
      refine Nat.lt_of_le_of_ne hreads.part.length_le fun hlength => ?_
      have hends := hreads.ends
      rw [hreads.part.eq_of_length hlength, hstarts] at hends
      contradiction
    have hlater := Nat.lt_of_lt_of_le hless hskip.suffix.length_le
    rw [if_pos hlater]
    exact .round hskip hgo hrun rfl hlies hover hreads.part hless (ih _ hlater hreads.ended rfl)

/-- There are fewer statements than tokens. -/
theorem ScriptRuns.length_lt (h : ScriptRuns script ts found problems) : found.length < ts.length := by
  induction h with
  | @finished ts begun hskip _ =>
    cases hskip with
    | halt => exact Nat.succ_pos _
    | round => exact Nat.succ_pos _
  | @round ts begun found problems rest more others hskip _ _ hread _ _ _ hless _ ih =>
    have hsingle := readStatement_single script begun
    rw [hread] at hsingle
    have hbegun := hskip.suffix.length_le
    rw [List.length_append]
    dsimp only at hsingle
    omega

-- ---------------------------------------------------------------------------
-- Whole scripts
-- ---------------------------------------------------------------------------

theorem diagnostics_readStatements (script : String) : (readStatements script).diagnostics =
    (tokenize script).2 ++ (statements script.toList (tokenize script).1).2 := by
  unfold readStatements
  dsimp only
  split
  · rfl
  · rfl

/-- Reading a script comes to an end among its tokens, and finds fewer statements than these are. Whatever runs over
tokens moves on among them, if at all, and never passes the last one. No loop stands still, and what is cut off begins
where a production has been and ends where it stands. -/
theorem readStatements_runs (script : String) :
    (∃ found problems, (readStatements script).value.getD [] = found ∧
      (readStatements script).diagnostics = (tokenize script).2 ++ problems ∧ Ended (tokenize script).1 ∧
      ScriptRuns script.toList (tokenize script).1 found problems ∧ found.length < (tokenize script).1.length) ∧
    (∀ {α : Type} (p : Production α) (ts : List Token), Ended ts → Runs p ts → Leaves ts (p ts)) ∧
    (∀ {α : Type} (item : Production (Option α)) (more : Production Bool), Loop item more →
      ∀ ts, Ended ts → Proceeds item more ts) ∧
    (∀ {α : Type} (p : Production α), Marked p → ∀ ts, Ended ts → CutsOff p ts) ∧
    ∀ ts, Ended ts → PassesOver ts := by
  have hended := (tokenize_ascends script).1
  have hruns := statements_run script.toList hended
  refine ⟨⟨_, _, getD_readStatements script, diagnostics_readStatements script, hended, hruns, ?_⟩, ?_, ?_, ?_, ?_⟩
  · exact hruns.length_lt
  · exact fun p ts hts hrun => hrun.leaves hts
  · exact fun item more hloop ts hts => hloop.rounds.proceeds hts
  · exact fun p hp ts hts => hp.cutsOff hts
  · exact fun ts hts => passesOver hts

end SchemaDialects.Sql
