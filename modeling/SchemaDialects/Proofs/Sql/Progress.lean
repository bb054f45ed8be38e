import SchemaDialects.Proofs.Sql.FrameDefinitions
import SchemaDialects.Proofs.Sql.FrameQueries
import SchemaDialects.Proofs.Sql.Rounds

/-!
# Every production runs

The productions of the grammar run over the tokens of a script, from wherever they begin. A statement that is kept as
text takes a token, so that it has to begin at one that does not end it (`statement_runs`). What runs also moves on
among the tokens, if at all (`Runs.leaves`).
-/

namespace SchemaDialects.Sql

open Production

-- ---------------------------------------------------------------------------
-- Names
-- ---------------------------------------------------------------------------

theorem ident_runs (what : String) : RunsFrom start (ident what) := by
  refine current_runs.bind fun t => ?_
  split
  · exact advance_runs.bind fun _ => .pure _
  · exact failExpecting_runs _

theorem qualifiedName_runs (what : String) : RunsFrom start (qualifiedName what) :=
  (separates_dot.items (ident_runs what)).runs.bind fun _ => .pure _

theorem ifNotExists_runs : RunsFrom start ifNotExists :=
  (eatKeyword_runs _).bind fun _ => .ite
    ((expectKeyword_runs _).bind fun _ => (expectKeyword_runs _).bind fun _ => .pure _) (.pure _)

theorem listedColumn_runs : RunsFrom start identList.column := by
  refine (ident_runs _).bind fun _ => lexeme_runs.bind fun _ => .step skipGroup_runs ?_
  exact (eatKeyword_runs _).bind fun _ => .step (skipKeyword_runs _) (.pure _)

theorem identList_runs : RunsFrom start identList :=
  (expect_runs _ _).bind fun _ => (separates_anotherPart.items listedColumn_runs).runs

-- ---------------------------------------------------------------------------
-- Expressions
-- ---------------------------------------------------------------------------

theorem expressionTokens_runs (stop : Lexeme → Bool) : RunsFrom start (expressionTokens stop) :=
  splitOff_runs _

theorem expressionUntil_runs (stop : Lexeme → Bool) (what : String) : RunsFrom start (expressionUntil stop what) :=
  (expressionTokens_runs stop).bind fun _ => .ite (failExpecting_runs _) (.pure _)

theorem parenthesized_runs : RunsFrom start parenthesized :=
  (expect_runs _ _).bind fun _ => (expressionUntil_runs _ _).bind fun _ =>
    (expect_runs _ _).bind fun _ => .pure _

-- ---------------------------------------------------------------------------
-- Queries and updates
-- ---------------------------------------------------------------------------

theorem tableRef_runs : RunsFrom start tableRef := by
  refine RunsFrom.mark fun start => lexeme_runs.bind fun l => .ite (throw_runs _ fun _ => rfl) ?_
  refine (qualifiedName_runs _).bind fun name => (eatKeyword_runs _).bind fun _ => ?_
  refine .ite (((ident_runs _).map _).bind fun _ => since_runs _) ?_
  refine lexeme_runs.bind fun l => .ite (((ident_runs _).map _).bind fun _ => since_runs _) ?_
  exact (RunsFrom.pure _).bind fun _ => since_runs _

theorem plainField_runs : RunsFrom start (Frame.plainField start) := by
  refine (expressionTokens_runs _).bind fun field => .step (failExpecting_runs _) ?_
  exact (eatKeyword_runs _).bind fun _ => .ite ((ident_runs _).bind fun _ => since_runs _)
    (since_runs _)

theorem selectField_runs : RunsFrom start selectField := by
  rw [Frame.selectField_eq]
  refine RunsFrom.mark fun start => lexeme_runs.bind fun l => .ite ?_ ?_
  · exact current_runs.bind fun _ => advance_runs.bind fun _ => .pure _
  · refine lexeme_runs.bind fun _ => (peek_runs 1).bind fun _ => (peek_runs 2).bind fun _ => .ite ?_ ?_
    · refine (ident_runs _).bind fun _ => advance_runs.bind fun _ => advance_runs.bind fun _ => ?_
      exact since_runs _
    · exact plainField_runs

theorem joinKind_runs : RunsFrom start joinKind := by
  have houter (kind : JoinKind) : RunsFrom start (joinKind.outer kind) :=
    advance_runs.bind fun _ => (skipKeyword_runs _).bind fun _ => .pure _
  refine lexeme_runs.bind fun l => ?_
  split
  · exact .pure _
  · exact advance_runs.bind fun _ => .pure _
  · exact houter _
  · exact houter _
  · exact houter _
  · exact advance_runs.bind fun _ => .pure _
  · exact .pure _

theorem join_consumes : Consumes start (fun _ => True) (·.isSome) join := by
  refine .mark fun start => .behind joinKind_runs fun o => ?_
  cases o with
  | none => exact .pure (by simp)
  | some kind =>
    refine .expectKeyword _ fun _ => tableRef_runs.bind fun _ => ?_
    refine (introduced_runs _ (expressionUntil_runs _ _)).bind fun _ => ?_
    exact (introduced_runs _ identList_runs).bind fun _ => since_runs _

theorem orderItem_runs : RunsFrom start orderItem := by
  refine (expressionUntil_runs _ _).bind fun _ => (eatKeyword_runs _).bind fun _ => ?_
  refine .step (skipKeyword_runs _) ((eatWord_runs _).bind fun _ => ?_)
  exact .step advance_runs (.pure _)

theorem limitClause_runs : RunsFrom start limitClause := by
  refine (eatKeyword_runs _).bind fun _ => .ite ?_ (.pure _)
  refine (expressionUntil_runs _ _).bind fun _ => (eat_runs _).bind fun _ => .ite ?_ (.pure _)
  exact (expressionUntil_runs _ _).bind fun _ => .pure _

theorem offsetClause_runs : RunsFrom start offsetClause := by
  refine introduced_runs _ ((expressionUntil_runs _ _).bind fun _ => (eatWord_runs _).bind fun _ => ?_)
  exact .step (skipWord_runs _) (.pure _)

theorem listClause_runs {item : Production α} (first : Keyword) (hitem : ∀ {start}, RunsFrom start item) :
    RunsFrom start (listClause first item) :=
  (introduced_runs _ ((expectKeyword_runs _).bind fun _ => commaSeparated_runs hitem)).bind
    fun _ => .pure _

theorem select_runs : RunsFrom start select := by
  refine RunsFrom.mark fun start => (expectKeyword_runs _).bind fun _ => ?_
  refine (eatKeyword_runs _).bind fun _ => .step (skipKeyword_runs _) ?_
  refine (commaSeparated_runs selectField_runs).bind fun _ => (expectKeyword_runs _).bind fun _ => ?_
  refine (commaSeparated_runs tableRef_runs).bind fun _ => (repeated_runs join_consumes).bind fun _ => ?_
  refine (introduced_runs _ (expressionUntil_runs _ _)).bind fun _ => ?_
  refine (listClause_runs _ (expressionUntil_runs _ _)).bind fun _ => ?_
  refine (introduced_runs _ (expressionUntil_runs _ _)).bind fun _ => ?_
  refine (listClause_runs _ orderItem_runs).bind fun _ => limitClause_runs.bind fun _ => ?_
  refine offsetClause_runs.bind fun _ => lexeme_runs.bind fun _ => .ite (throw_runs _ fun _ => rfl) ?_
  exact since_runs _

theorem assignment_runs : RunsFrom start assignment := by
  refine (qualifiedName_runs _).bind fun target => ?_
  split
  · exact failExpecting_runs _
  · exact (expect_runs _ _).bind fun _ => (expressionUntil_runs _ _).bind fun _ => .pure _

theorem updateEnd_runs (table : TableRef) (assignments : List Assignment) :
    RunsFrom start (Frame.updateEnd start table assignments) :=
  (introduced_runs _ (expressionUntil_runs _ _)).bind fun _ => positionSince_runs.bind fun _ =>
    skipStatement_runs.bind fun _ => .pure _

theorem update_runs : RunsFrom start update := by
  refine RunsFrom.mark fun start => (expectKeyword_runs _).bind fun _ => ?_
  refine (skipKeyword_runs _).bind fun _ => tableRef_runs.bind fun table => ?_
  refine (expectKeyword_runs _).bind fun _ => (commaSeparated_runs assignment_runs).bind fun assignments => ?_
  have hend : RunsFrom start (Frame.updateEnd start table assignments) := updateEnd_runs table assignments
  exact (eatKeyword_runs _).bind fun _ => .ite ((expressionTokens_runs _).bind fun _ => hend) hend

-- ---------------------------------------------------------------------------
-- Columns
-- ---------------------------------------------------------------------------

theorem referentialAction_runs : RunsFrom start referentialAction := by
  rw [Frame.referentialAction_eq]
  refine lexeme_runs.bind fun _ => (peek_runs 1).bind fun _ => ?_
  split
  · exact failExpecting_runs _
  · refine advance_runs.bind fun _ => ?_
    split
    · exact .pure _
    · exact .pure _
    · exact advance_runs.bind fun _ => .pure _

theorem clauseAt_consumes (l second : Lexeme) : Consumes start (· = l) (·.isSome) (Frame.clauseAt l second) := by
  rcases eq_or_ne l .finish with rfl | hl
  · exact .pure (by simp)
  have hfirst {k : Unit → Production (Option ReferenceClause)} (h : ∀ a, RunsFrom start (k a)) :
      Consumes start (· = l) (·.isSome) (advance >>= k) := .advance (fun _ hfirst => hfirst ▸ hl) h
  have haction (clause : ReferentialAction → ReferenceClause) :
      RunsFrom start (do return some (clause (← referentialAction))) := referentialAction_runs.bind fun _ => .pure _
  refine .ite (hfirst fun _ => advance_runs.bind fun _ => haction .onDelete) ?_
  refine .ite (hfirst fun _ => advance_runs.bind fun _ => haction .onUpdate) ?_
  refine .ite (hfirst fun _ => advance_runs.bind fun _ => .pure _) (.ite (hfirst fun _ => .pure _) ?_)
  exact .ite (hfirst fun _ => advance_runs.bind fun _ => .pure _) (.pure (by simp))

theorem referenceClause_consumes : Consumes start (fun _ => True) (·.isSome) referenceClause := by
  rw [Frame.referenceClause_eq]
  exact .look fun l => .peek 1 fun second => (clauseAt_consumes l second).mono fun _ h => h.1

theorem references_consumes {P : Lexeme → Prop} {Q : ForeignKeyRef → Prop} : Consumes start P Q references := by
  refine .expectKeyword _ fun _ => (qualifiedName_runs _).bind fun table => ?_
  have hend (columns : List Identifier) : RunsFrom start (Frame.referenceEnd table columns) :=
    (repeated_runs referenceClause_consumes).bind fun _ => .pure _
  exact lexeme_runs.bind fun _ => .ite (identList_runs.bind hend) ((RunsFrom.pure _).bind hend)

theorem references_runs : RunsFrom start references :=
  (references_consumes (P := fun _ => True) (Q := fun _ => True)).runs

theorem dataType_runs : RunsFrom start dataType := by
  rw [Frame.dataType_eq]
  exact .mark fun _ => (splitOff_runs _).bind fun _ => .step (failExpecting_runs _) (.pure _)

theorem defaultValue_runs : RunsFrom start defaultValue :=
  lexeme_runs.bind fun _ => .ite (current_runs.bind fun _ => advance_runs.bind fun _ => .pure _)
    (expressionUntil_runs _ _)

theorem computed_runs : RunsFrom start computed :=
  parenthesized_runs.bind fun _ => (eatKeyword_runs _).bind fun _ => .step (skipWord_runs _) (.pure _)

theorem generatedEnd_runs : RunsFrom start Frame.generatedEnd := by
  refine (expectKeyword_runs _).bind fun _ => (eatWord_runs _).bind fun _ => .ite ?_ ?_
  · exact lexeme_runs.bind fun _ => .step skipGroup_runs (.pure _)
  · exact computed_runs.bind fun _ => .pure _

/-- Every rule takes a token, and so does what is passed over. -/
theorem columnRule_consumes (named : Bool) : Consumes start (· ≠ .finish) (fun _ => True) (columnRule named) := by
  refine .look fun l => ?_
  split
  · exact .advance (fun _ h => h.2) fun _ => (expectKeyword_runs _).bind fun _ => .pure _
  · exact .advance (fun _ h => h.2) fun _ => .pure _
  · refine .advance (fun _ h => h.2) fun _ => (expectKeyword_runs _).bind fun _ => (eatKeyword_runs _).bind fun _ => ?_
    exact .step (skipKeyword_runs _) (.pure _)
  · exact .advance (fun _ h => h.2) fun _ => (skipKeyword_runs _).bind fun _ => .pure _
  · exact .advance (fun _ h => h.2) fun _ => .pure _
  · exact .advance (fun _ h => h.2) fun _ => defaultValue_runs.bind fun _ => .pure _
  · exact .advance (fun _ h => h.2) fun _ => parenthesized_runs.bind fun _ => .pure _
  · exact references_consumes.bind fun _ => .pure _
  · refine .advance (fun _ h => h.2) fun _ => (eatKeyword_runs _).bind fun _ => .ite ?_ ?_
    · exact (expectKeyword_runs _).bind fun _ => generatedEnd_runs
    · exact (expectKeyword_runs _).bind fun _ => generatedEnd_runs
  · exact .advance (fun _ h => h.2) fun _ => computed_runs.bind fun _ => .pure _
  · refine .advance (fun _ h => h.2) fun _ => lexeme_runs.bind fun l => ?_
    split
    · exact advance_runs.bind fun _ => .pure _
    · exact failExpecting_runs _
  · refine .advance (fun _ h => h.2) fun _ => advance_runs.bind fun _ => ?_
    exact (expressionTokens_runs _).bind fun _ => .pure _
  · split
    · exact .advance (fun _ h => h.2) fun _ => .pure _
    split
    · exact .fail _
    · exact .advance (fun _ h => h.2) fun _ => .pure _

theorem constraintName_runs : RunsFrom start constraintName := introduced_runs _ (ident_runs _)

theorem columnConstraint_consumes : Consumes start (fun _ => True) (·.isSome) columnConstraint := by
  refine .look fun l => ?_
  split
  · exact .pure (by simp)
  next hgo =>
  have hl : l ≠ .finish := by
    rintro rfl
    exact hgo rfl
  refine .mark fun start => ?_
  have hend (name : Option Identifier) (found : Option ColumnRule) :
      RunsFrom start (Frame.constraintEnd start name found) := by
    cases found with
    | none => exact .pure _
    | some rule => exact since_runs _
  have hrule : Consumes start (fun first => first = l ∧ True) (fun _ => True) (columnRule false) :=
    (columnRule_consumes false).mono fun _ hfirst => hfirst.1 ▸ hl
  exact .introduced _ (ident_runs _) (hrule.bind (hend none)) fun name => (columnRule_consumes _).runs.bind (hend name)

theorem columnDef_runs : RunsFrom start columnDef :=
  RunsFrom.mark fun _ => (ident_runs _).bind fun _ => dataType_runs.bind fun _ =>
    (repeated_runs columnConstraint_consumes).bind fun _ => since_runs _

-- ---------------------------------------------------------------------------
-- Definitions
-- ---------------------------------------------------------------------------

theorem optionalIndexName_runs : RunsFrom start optionalIndexName :=
  lexeme_runs.bind fun _ => .ite (.pure _) ((ident_runs _).bind fun _ => .pure _)

theorem looksLikeIndex_runs : RunsFrom start looksLikeIndex :=
  (peek_runs _).bind fun _ => (peek_runs _).bind fun _ => (peek_runs _).bind fun _ => .pure _

theorem indexRule_runs : RunsFrom start Frame.indexRule :=
  optionalIndexName_runs.bind fun _ => identList_runs.bind fun _ => .pure _

theorem tableRule_runs (named : Bool) : RunsFrom start (tableRule named) := by
  refine lexeme_runs.bind fun l => ?_
  split
  · exact advance_runs.bind fun _ => (expectKeyword_runs _).bind fun _ => identList_runs.bind fun _ => .pure _
  · refine advance_runs.bind fun _ => (eatKeyword_runs _).bind fun _ => .step (skipKeyword_runs _) ?_
    exact optionalIndexName_runs.bind fun _ => identList_runs.bind fun _ => .pure _
  · refine advance_runs.bind fun _ => (expectKeyword_runs _).bind fun _ => ?_
    refine optionalIndexName_runs.bind fun _ => identList_runs.bind fun _ => ?_
    exact references_runs.bind fun _ => .pure _
  · exact advance_runs.bind fun _ => parenthesized_runs.bind fun _ => .pure _
  · refine (peek_runs _).bind fun _ => looksLikeIndex_runs.bind fun _ => ?_
    refine .ite (advance_runs.bind fun _ => indexRule_runs) (.ite ?_ ?_)
    · exact advance_runs.bind fun _ => advance_runs.bind fun _ => indexRule_runs
    · exact .ite (failExpecting_runs _) (.pure _)

theorem tableConstraint_runs : RunsFrom start tableConstraint := by
  refine RunsFrom.mark fun start => constraintName_runs.bind fun _ => (tableRule_runs _).bind fun found => ?_
  cases found with
  | none => exact .pure _
  | some found => exact since_runs _

theorem tablePart_runs : RunsFrom start tablePart := by
  refine tableConstraint_runs.bind fun found => ?_
  cases found with
  | none => exact columnDef_runs.bind fun _ => .pure _
  | some constraint => exact .pure _

theorem tableEnd_runs (ifNotExists : Bool) (name : QualifiedName)
    (parts : List (TableConstraint ⊕ ColumnDef)) : RunsFrom start (Frame.tableEnd start ifNotExists name parts) :=
  positionSince_runs.bind fun _ => skipStatement_runs.bind fun _ => .pure _

theorem createTable_runs (script : List Char) (hstart : headIs Lexeme.endsStatement start = false) :
    RunsFrom start (createTable script start) := by
  refine (expectKeyword_runs _).bind fun _ => ifNotExists_runs.bind fun lenient => ?_
  refine (qualifiedName_runs _).bind fun name => (eat_runs _).bind fun _ => ?_
  refine .ite ((unmodelled_runs script hstart).bind fun _ => .pure _) ((eat_runs _).bind fun _ => ?_)
  have hend (parts) : RunsFrom start (Frame.tableEnd start lenient name parts) := tableEnd_runs lenient name parts
  exact .ite ((RunsFrom.pure _).bind hend) ((separates_anotherPart.items tablePart_runs).runs.bind hend)

theorem indexColumn_runs : RunsFrom start indexColumn := by
  refine (expressionUntil_runs _ _).bind fun _ => (eatKeyword_runs _).bind fun _ => ?_
  refine .step (skipKeyword_runs _) ((eatWord_runs _).bind fun _ => ?_)
  exact .step advance_runs (.pure _)

theorem indexEnd_runs (unique : Bool) (name : Option Identifier) :
    RunsFrom start (Frame.indexEnd start unique name) := by
  refine (expectKeyword_runs _).bind fun _ => (skipKeyword_runs _).bind fun _ => ?_
  refine (qualifiedName_runs _).bind fun table => (eatKeyword_runs _).bind fun _ => .step advance_runs ?_
  refine (expect_runs _ _).bind fun _ => (commaSeparated_runs indexColumn_runs).bind fun columns => ?_
  have hcondition : RunsFrom start (Frame.conditionEnd start unique name table columns) :=
    (introduced_runs _ (expressionUntil_runs _ _)).bind fun _ => since_runs _
  refine (expect_runs _ _).bind fun _ => (eatWord_runs _).bind fun _ => .ite ?_ hcondition
  exact lexeme_runs.bind fun _ => .step skipGroup_runs hcondition

theorem createIndex_runs : RunsFrom start (createIndex start) := by
  refine (eatKeyword_runs _).bind fun unique => (expectKeyword_runs _).bind fun _ => ?_
  refine (skipWord_runs _).bind fun _ => ifNotExists_runs.bind fun _ => lexeme_runs.bind fun _ => ?_
  have hend (name) : RunsFrom start (Frame.indexEnd start unique name) := indexEnd_runs unique name
  exact .ite ((RunsFrom.pure _).bind hend) (((ident_runs _).map _).bind hend)

theorem enumValue_runs : RunsFrom start enumValue := by
  refine lexeme_runs.bind fun l => ?_
  split
  · exact advance_runs.bind fun _ => .pure _
  · exact .pure _

theorem compositeField_runs : RunsFrom start compositeField :=
  lexeme_runs.bind fun _ => .ite (.pure _) (columnDef_runs.bind fun _ => .pure _)

theorem createType_runs (script : List Char) (hstart : headIs Lexeme.endsStatement start = false) :
    RunsFrom start (createType script start) := by
  refine (expectKeyword_runs _).bind fun _ => (qualifiedName_runs _).bind fun _ => ?_
  refine lexeme_runs.bind fun _ => .ite (since_runs _) ((eatKeyword_runs _).bind fun _ => ?_)
  refine .ite ((unmodelled_runs script hstart).bind fun _ => .pure _) ((eatKeyword_runs _).bind fun _ => .ite ?_ ?_)
  · refine (expect_runs _ _).bind fun _ => (separates_comma.rounds enumValue_runs).runs.bind fun _ => ?_
    exact (expect_runs _ _).bind fun _ => since_runs _
  · refine (eat_runs _).bind fun _ => .ite ?_ (unmodelled_runs script hstart)
    refine (separates_comma.rounds compositeField_runs).runs.bind fun _ => ?_
    exact (expect_runs _ _).bind fun _ => since_runs _

theorem create_runs (script : List Char) (hstart : headIs Lexeme.endsStatement start = false) :
    RunsFrom start (create script start) := by
  refine (expectKeyword_runs _).bind fun _ => (eatKeyword_runs _).bind fun _ => ?_
  refine .step (skipWord_runs _) (lexeme_runs.bind fun l => ?_)
  split
  · exact createTable_runs script hstart
  · exact createIndex_runs
  · exact createIndex_runs
  · exact createType_runs script hstart
  · exact unmodelled_runs script hstart

theorem alterAction_runs : RunsFrom start alterAction := by
  refine RunsFrom.mark fun start => (eatKeyword_runs _).bind fun _ => .ite ?_ ?_
  · refine tableConstraint_runs.bind fun found => ?_
    cases found with
    | none =>
      refine (skipKeyword_runs _).bind fun _ => ifNotExists_runs.bind fun _ => ?_
      exact columnDef_runs.bind fun _ => .pure _
    | some constraint => exact .pure _
  · exact (expressionTokens_runs _).bind fun _ => .step (failExpecting_runs _) (since_runs _)

theorem alterTable_runs : RunsFrom start alterTable := by
  refine RunsFrom.mark fun start => (expectKeyword_runs _).bind fun _ => ?_
  refine (expectKeyword_runs _).bind fun _ => (eatKeyword_runs _).bind fun _ => ?_
  refine .step (expectKeyword_runs _) ((skipKeyword_runs _).bind fun _ => ?_)
  refine (qualifiedName_runs _).bind fun _ => (commaSeparated_runs alterAction_runs).bind fun _ => ?_
  exact since_runs _

theorem commentEnd_runs (script : List Char) (hstart : headIs Lexeme.endsStatement start = false)
    (target : Option CommentTarget) :
    RunsFrom start (Frame.commentEnd script start target) := by
  cases target with
  | none => exact unmodelled_runs script hstart
  | some target =>
    refine (expectKeyword_runs _).bind fun _ => lexeme_runs.bind fun l => ?_
    split
    · exact (RunsFrom.pure _).bind fun _ => advance_runs.bind fun _ => since_runs _
    · exact (RunsFrom.pure _).bind fun _ => advance_runs.bind fun _ => since_runs _
    · exact (failExpecting_runs _).bind fun _ => advance_runs.bind fun _ => since_runs _

theorem commentOn_runs (script : List Char) (hstart : headIs Lexeme.endsStatement start = false) :
    RunsFrom start (commentOn script start) := by
  have hend := commentEnd_runs script hstart
  have hname (what : String) (kind : QualifiedName → CommentTarget) :
      RunsFrom start (some <$> kind <$> qualifiedName what) := ((qualifiedName_runs what).map _).map _
  refine (expectKeyword_runs _).bind fun _ => (expectKeyword_runs _).bind fun _ => ?_
  refine (eatKeyword_runs _).bind fun _ => .ite ((hname _ _).bind hend) ((eatKeyword_runs _).bind fun _ => ?_)
  exact .ite ((hname _ _).bind hend) ((RunsFrom.pure _).bind hend)

theorem statement_runs (script : List Char) (hts : Ended ts) (hstart : headIs Lexeme.endsStatement ts = false) :
    Runs (statement script) ts := by
  refine .bind (.tokens ts) fun start s hrun => ?_
  cases hrun
  refine (lexeme_runs.bind fun l => (peek_runs 1).bind fun next => ?_ : RunsFrom ts _) ts hts List.suffix_rfl
  split
  · exact select_runs.map _
  · exact create_runs script hstart
  · exact alterTable_runs
  · exact commentOn_runs script hstart
  · exact update_runs
  · exact unmodelled_runs script hstart

end SchemaDialects.Sql
