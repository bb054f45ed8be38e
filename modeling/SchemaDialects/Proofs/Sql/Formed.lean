import SchemaDialects.Proofs.Sql.Taken

/-!
# What the grammar guarantees

The statements of a script without a backslash, whatever the script is (`formed_readStatements`): keys,
indexes and foreign keys have columns, and comments and the values of enumerations can be written as string
literals.
-/

namespace SchemaDialects.Sql

open Production

-- ---------------------------------------------------------------------------
-- Statements
-- ---------------------------------------------------------------------------

/-- A comment can be written as a string literal. Expressions are as they are taken from the script. -/
def ColumnRule.Formed : ColumnRule → Prop
  | .comment text => Literal text
  | .default e => TakenDefault e.text
  | .check e | .generated e => e.Closed fun _ => false
  | _ => True

/-- The lists of columns are not empty. -/
def TableRule.Formed : TableRule → Prop
  | .primaryKey columns | .unique columns | .foreignKey columns _ | .index columns => columns ≠ []
  | .check e => e.Closed fun _ => false

def ColumnDef.Formed (column : ColumnDef) : Prop := ∀ c ∈ column.constraints, c.rule.Formed

def AlterAction.Formed : AlterAction → Prop
  | .addColumn column => column.Formed
  | .addConstraint c => c.rule.Formed
  | .other _ _ => True

def TypeDefinition.Formed : TypeDefinition → Prop
  | .enumeration values => ∀ value ∈ values, Literal value
  | _ => True

/-- The columns of an index end in front of their order, its condition with the statement. -/
structure CreateIndex.Formed (c : CreateIndex) : Prop where
  nonempty : c.columns ≠ []
  columns : ∀ e ∈ c.columns, e.Closed endsIndexColumn
  condition : ∀ e ∈ c.condition, e.Taken fun _ => false

/-- What every statement of a script without a backslash satisfies. -/
def Statement.Formed : Statement → Prop
  | .createTable c => (∀ column ∈ c.columns, column.Formed) ∧ ∀ k ∈ c.constraints, k.rule.Formed
  | .alterTable a => ∀ action ∈ a.actions, action.Formed
  | .createIndex c => c.Formed
  | .createType c => c.definition.Formed
  | .commentOn c => ∀ text ∈ c.text, Literal text
  | .select _ | .update _ | .unmodelled _ => True

namespace Frame

variable {F : Frame}

-- ---------------------------------------------------------------------------
-- Columns
-- ---------------------------------------------------------------------------

theorem identList_gives : F.Gives identList (· ≠ []) := by
  refine .behind (expect_sim rfl _) fun _ => ?_
  refine (Gives.separated (P := fun _ => True) ?_ ?_).mono fun _ h => h.1
  · refine .behind (ident_sim _) fun id => .lexeme fun l _ => .step skipGroup_sim ?_
    exact .behind (eatKeyword_sim _) fun _ => .step (skipKeyword_sim _) (.pure trivial)
  · refine .lexeme fun l _ => ?_
    split
    · exact .advance (.pure trivial)
    · exact .advance (.pure trivial)
    · exact .fail _

theorem columnRule_gives (named : Bool) : F.Gives (columnRule named) fun r => ∀ rule ∈ r, rule.Formed := by
  have hrule : ∀ {rule : ColumnRule}, rule.Formed →
      F.Gives (pure (some rule)) fun r => ∀ rule ∈ r, ColumnRule.Formed rule :=
    fun h => .pure (by rintro _ ⟨⟩; exact h)
  have hnone : F.Gives (pure none) fun r => ∀ rule ∈ r, ColumnRule.Formed rule := .pure nofun
  have hcomputed : F.Gives (do return some (← computed)) fun r => ∀ rule ∈ r, ColumnRule.Formed rule := by
    refine Gives.bind (P := ColumnRule.Formed) ?_ fun _ => hrule
    refine parenthesized_gives.bind fun e he => .behind (eatKeyword_sim _) fun b => ?_
    exact .step (skipWord_sim _) (.pure he)
  have hgenerated : F.Gives generatedEnd fun r => ∀ rule ∈ r, ColumnRule.Formed rule := by
    refine .behind (expectKeyword_sim _) fun _ => .behind (eatWord_sim _) fun b => .ite ?_ hcomputed
    exact .lexeme fun l _ => .step skipGroup_sim (hrule trivial)
  refine .lexeme fun l _ => ?_
  split
  · exact .advance (.behind (expectKeyword_sim _) fun _ => hrule trivial)
  · exact .advance (hrule trivial)
  · refine .advance (.behind (expectKeyword_sim _) fun _ => .behind (eatKeyword_sim _) fun b => ?_)
    exact .step (skipKeyword_sim _) (hrule trivial)
  · exact .advance (.behind (skipKeyword_sim _) fun _ => hrule trivial)
  · exact .advance (hrule trivial)
  · exact .advance (defaultValue_gives.bind fun _ he => hrule he)
  · exact .advance (parenthesized_gives.bind fun _ he => hrule he)
  · exact .behind references_sim fun _ => hrule trivial
  · refine .advance (.behind (eatKeyword_sim _) fun b => .ite ?_ ?_)
    · exact .behind (expectKeyword_sim _) fun _ => hgenerated
    · exact .behind (expectKeyword_sim _) fun _ => hgenerated
  · exact .advance hcomputed
  · refine .advance (.lexeme fun u hu => ?_)
    split
    · exact .advance (hrule hu)
    · exact .fail _
  · have hstop : Inside endsDefault := ⟨rfl, rfl⟩
    exact .advance (.advance (.behind (expressionTokens_sim hstop) fun _ => hnone))
  · split
    · exact .advance (hrule trivial)
    split
    · exact .fail _
    · exact .advance hnone

theorem columnConstraint_gives :
    F.Gives columnConstraint fun c => ∀ found ∈ c, ∀ constraint ∈ found, constraint.rule.Formed := by
  refine .lexeme fun l _ => .ite (.pure nofun) (.tokens fun start _ => ?_)
  refine .behind constraintName_sim fun name => (columnRule_gives _).bind fun r hr => ?_
  cases r with
  | none => exact .pure (by rintro _ ⟨⟩; nofun)
  | some rule =>
    refine .behind (positionSince_sim start start) fun position => .pure ?_
    rintro _ ⟨⟩ _ ⟨⟩
    exact hr rule rfl

theorem columnDef_gives : F.Gives columnDef ColumnDef.Formed := by
  refine .tokens fun start _ => .behind (ident_sim _) fun name => .behind dataType_sim fun type => ?_
  refine (Gives.repeated columnConstraint_gives).bind fun constraints hconstraints => ?_
  refine .behind (positionSince_sim start start) fun position => .pure fun c hc => ?_
  obtain ⟨found, hfound, hc⟩ := List.mem_filterMap.mp hc
  exact hconstraints found hfound c hc

-- ---------------------------------------------------------------------------
-- Tables
-- ---------------------------------------------------------------------------

theorem looksLikeIndex_gives : F.Gives looksLikeIndex fun _ => True :=
  .peek 1 fun _ => .peek 2 fun _ => .peek 3 fun _ => .pure trivial

theorem tableRule_gives (named : Bool) : F.Gives (tableRule named) fun r => ∀ p ∈ r, p.1.Formed := by
  have hrule : ∀ {rule : TableRule} {name : Option Identifier}, rule.Formed →
      F.Gives (pure (some (rule, name))) fun r => ∀ p ∈ r, TableRule.Formed p.1 :=
    fun h => .pure (by rintro _ ⟨⟩; exact h)
  have hindex : F.Gives indexRule fun r => ∀ p ∈ r, TableRule.Formed p.1 :=
    .behind optionalIndexName_sim fun name => identList_gives.bind fun columns hcolumns => hrule hcolumns
  refine .lexeme fun l _ => ?_
  split
  · refine .advance (.behind (expectKeyword_sim _) fun _ => ?_)
    exact identList_gives.bind fun columns hcolumns => hrule hcolumns
  · refine .advance (.behind (eatKeyword_sim _) fun b => .step (skipKeyword_sim _) ?_)
    exact .behind optionalIndexName_sim fun name => identList_gives.bind fun columns hcolumns => hrule hcolumns
  · refine .advance (.behind (expectKeyword_sim _) fun _ => .behind optionalIndexName_sim fun name => ?_)
    exact identList_gives.bind fun columns hcolumns => .behind references_sim fun target => hrule hcolumns
  · exact .advance (parenthesized_gives.bind fun _ he => hrule he)
  · refine .peek 1 fun next => looksLikeIndex_gives.bind fun b _ => .ite (.advance hindex) ?_
    exact .ite (.advance (.advance hindex)) (.ite (.fail _) (.pure nofun))

theorem tableConstraint_gives : F.Gives tableConstraint fun c => ∀ constraint ∈ c, constraint.rule.Formed := by
  refine .tokens fun start _ => .behind constraintName_sim fun name => (tableRule_gives _).bind fun found hfound => ?_
  cases found with
  | none => exact .pure nofun
  | some p =>
    refine .behind (positionSince_sim start start) fun position => .pure ?_
    rintro _ ⟨⟩
    exact hfound p rfl

/-- A constraint or a column. -/
def FormedPart : TableConstraint ⊕ ColumnDef → Prop
  | .inl constraint => constraint.rule.Formed
  | .inr column => column.Formed

theorem tablePart_gives : F.Gives tablePart FormedPart := by
  refine tableConstraint_gives.bind fun found hfound => ?_
  cases found with
  | none => exact columnDef_gives.map fun _ h => h
  | some constraint => exact .pure (hfound constraint rfl)

theorem unmodelled_gives (hstart : ∃ start', F.Related start start') :
    F.Gives (unmodelled F.script start) Statement.Formed := by
  obtain ⟨start', hstart⟩ := hstart
  refine .behind skipStatement_sim fun _ => .tokens fun ts _ => .pure trivial

theorem createTable_gives (hstart : ∃ start', F.Related start start') :
    F.Gives (createTable F.script start) Statement.Formed := by
  refine .behind (expectKeyword_sim _) fun _ => .behind ifNotExists_sim fun lenient => ?_
  refine .behind (qualifiedName_sim _) fun name => .behind (eat_sim rfl) fun b => ?_
  refine .ite ((unmodelled_gives hstart).map fun _ h => h) ?_
  have hend : ∀ parts : List (TableConstraint ⊕ ColumnDef), (∀ part ∈ parts, FormedPart part) →
      F.Gives (tableEnd start lenient name parts) Statement.Formed := by
    intro parts hparts
    refine .behind (positionSince_sim start start) fun _ => .behind skipStatement_sim fun _ => .pure ⟨?_, ?_⟩
    · intro column hcolumn
      obtain ⟨part, hpart, hsome⟩ := List.mem_filterMap.mp hcolumn
      cases part with
      | inl constraint => cases hsome
      | inr column =>
        cases hsome
        exact hparts _ hpart
    · intro constraint hconstraint
      obtain ⟨part, hpart, hsome⟩ := List.mem_filterMap.mp hconstraint
      cases part with
      | inl constraint =>
        cases hsome
        exact hparts _ hpart
      | inr column => cases hsome
  refine .behind (eat_sim rfl) fun b => .ite ?_ ?_
  · exact Gives.bind (P := fun parts => ∀ part ∈ parts, FormedPart part) (.pure nofun) hend
  · exact (Gives.separated tablePart_gives (.of_sim anotherPart_sim)).bind fun parts hparts => hend parts hparts.2

-- ---------------------------------------------------------------------------
-- Indexes and types
-- ---------------------------------------------------------------------------

theorem createIndex_gives : F.Gives (createIndex start) Statement.Formed := by
  have hcondition : ∀ {unique name table columns}, columns ≠ [] ∧ (∀ e ∈ columns, e.Closed endsIndexColumn) →
      F.Gives (conditionEnd start unique name table columns) Statement.Formed := by
    intro unique name table columns h
    refine (Gives.introduced (expressionUntil_gives ⟨rfl, rfl⟩ _) .WHERE).bind fun condition hcondition => ?_
    exact .behind (positionSince_sim start start) fun _ => .pure ⟨h.1, h.2, hcondition⟩
  have hcolumns : F.Ends (commaSeparated indexColumn) fun columns s =>
      columns ≠ [] ∧ (∀ e ∈ columns, e.Closed endsIndexColumn) ∨ headIs Lexeme.endsStatement s = true := by
    have hnonempty : F.Gives (commaSeparated indexColumn) fun columns => columns ≠ [] ∧ ∀ e ∈ columns, True :=
      .commaSeparated (.of_sim indexColumn_sim)
    exact (hnonempty.and indexColumns_ends).mono fun _ _ h => h.2.imp_left fun hclosed => ⟨h.1.1, hclosed⟩
  have hend : ∀ unique name, F.Gives (indexEnd start unique name) Statement.Formed := by
    intro unique name
    refine .behind (expectKeyword_sim _) fun _ => .behind (skipKeyword_sim _) fun _ => ?_
    refine .behind (qualifiedName_sim _) fun table => .behind (eatKeyword_sim _) fun b => .ite (.advance ?_) ?_
    all_goals
      refine .behind (expect_sim rfl _) fun _ => Ends.expect rfl hcolumns fun columns h => ?_
      refine .behind (eatWord_sim _) fun b => .ite (.lexeme fun l _ => ?_) ?_
      · exact .step skipGroup_sim (hcondition h)
      · exact hcondition h
  refine .behind (eatKeyword_sim _) fun unique => .behind (expectKeyword_sim _) fun _ => ?_
  refine .behind (skipWord_sim _) fun _ => .behind ifNotExists_sim fun _ => .lexeme fun l _ => .ite ?_ ?_
  · exact .behind (Sim.pure (f := id) rfl) fun name => hend unique name
  · exact .behind (someIdent_sim _) fun name => hend unique name

theorem createType_gives (hstart : ∃ start', F.Related start start') :
    F.Gives (createType F.script start) Statement.Formed := by
  have hdone : ∀ {name : QualifiedName} {definition : TypeDefinition}, definition.Formed →
      F.Gives (do return .createType { name, definition, position := ← positionSince start }) Statement.Formed :=
    fun h => .behind (positionSince_sim start start) fun _ => .pure h
  have hvalue : F.Gives enumValue fun value => ∀ text ∈ value, Literal text := by
    refine .lexeme fun l hl => ?_
    split
    · exact .advance (.pure (by rintro _ ⟨⟩; exact hl))
    · exact .pure nofun
  refine .behind (expectKeyword_sim _) fun _ => .behind (qualifiedName_sim _) fun name => ?_
  refine .lexeme fun l _ => .ite (hdone trivial) ?_
  refine .behind (eatKeyword_sim _) fun b => .ite ((unmodelled_gives hstart).map fun _ h => h) ?_
  refine .behind (eatKeyword_sim _) fun b => .ite ?_ (.behind (eat_sim rfl) fun b => .ite ?_ (unmodelled_gives hstart))
  · refine .behind (expect_sim rfl _) fun _ => ?_
    refine (Gives.listed hvalue (.of_sim (eat_sim rfl))).bind fun values hvalues => ?_
    exact .behind (expect_sim rfl _) fun _ => hdone hvalues
  · refine .behind (listed_sim compositeField_sim (eat_sim rfl)) fun columns => ?_
    exact .behind (expect_sim rfl _) fun _ => hdone trivial

theorem create_gives (hstart : ∃ start', F.Related start start') :
    F.Gives (create F.script start) Statement.Formed := by
  refine .behind (expectKeyword_sim _) fun _ => .behind (eatKeyword_sim _) fun b => ?_
  refine .step (skipWord_sim _) (.lexeme fun l _ => ?_)
  split
  · exact createTable_gives hstart
  · exact createIndex_gives
  · exact createIndex_gives
  · exact createType_gives hstart
  · exact unmodelled_gives hstart

-- ---------------------------------------------------------------------------
-- Statements
-- ---------------------------------------------------------------------------

theorem alterAction_gives : F.Gives alterAction AlterAction.Formed := by
  refine .tokens fun start _ => .behind (eatKeyword_sim _) fun b => .ite ?_ ?_
  · refine tableConstraint_gives.bind fun found hfound => ?_
    cases found with
    | none =>
      refine .behind (skipKeyword_sim _) fun _ => .behind ifNotExists_sim fun _ => ?_
      exact columnDef_gives.map fun _ h => h
    | some constraint => exact .pure (hfound constraint rfl)
  · refine .behind (expressionTokens_sim ⟨rfl, rfl⟩) fun taken => ?_
    exact .step (failExpecting_sim id _) (.behind (positionSince_sim start start) fun _ => .pure trivial)

theorem alterTable_gives : F.Gives alterTable Statement.Formed := by
  refine .tokens fun start _ => .behind (expectKeyword_sim _) fun _ => ?_
  refine .behind (expectKeyword_sim _) fun _ => .behind (eatKeyword_sim _) fun b => ?_
  refine .step (expectKeyword_sim _) (.behind (skipKeyword_sim _) fun _ => .behind (qualifiedName_sim _) fun table => ?_)
  refine (Gives.commaSeparated alterAction_gives).bind fun actions hactions => ?_
  exact .behind (positionSince_sim start start) fun _ => .pure hactions.2

theorem commentOn_gives (hstart : ∃ start', F.Related start start') :
    F.Gives (commentOn F.script start) Statement.Formed := by
  have hend : ∀ target, F.Gives (commentEnd F.script start target) Statement.Formed := by
    intro target
    cases target with
    | none => exact unmodelled_gives hstart
    | some target =>
      have htext : ∀ {text : Option String}, (∀ doc ∈ text, Literal doc) → F.Gives (do
          advance
          return .commentOn { target, text, position := ← positionSince start }) Statement.Formed :=
        fun h => .advance (.behind (positionSince_sim start start) fun _ => .pure h)
      refine .behind (expectKeyword_sim _) fun _ => .lexeme fun l hl => ?_
      split
      · exact htext (by rintro _ ⟨⟩; exact hl)
      · exact htext nofun
      · exact .fail _
  refine .behind (expectKeyword_sim _) fun _ => .behind (expectKeyword_sim _) fun _ => ?_
  have hname : ∀ (what : String) (kind : QualifiedName → CommentTarget),
      F.Gives ((some <$> kind <$> qualifiedName what) >>= commentEnd F.script start) Statement.Formed :=
    fun what kind => Gives.bind (P := fun _ => True)
      (((Gives.of_sim (qualifiedName_sim what)).map (P := fun _ => True) fun _ h => h).map fun _ h => h) fun a _ => hend a
  refine .behind (eatKeyword_sim _) fun b => .ite (hname _ _) (.behind (eatKeyword_sim _) fun b => .ite (hname _ _) ?_)
  exact .behind (Sim.pure (f := id) rfl) hend

theorem update_gives : F.Gives update Statement.Formed := by
  refine .tokens fun start _ => .behind (expectKeyword_sim _) fun _ => .behind (skipKeyword_sim _) fun _ => ?_
  refine .behind tableRef_sim fun table => .behind (expectKeyword_sim _) fun _ => ?_
  refine .behind (commaSeparated_sim assignment_sim) fun assignments => ?_
  have hend : F.Gives (updateEnd start table assignments) Statement.Formed := by
    refine .behind (introduced_sim .WHERE (expressionUntil_sim ⟨rfl, rfl⟩ _)) fun condition => ?_
    exact .behind (positionSince_sim start start) fun _ => .behind skipStatement_sim fun _ => .pure trivial
  refine .behind (eatKeyword_sim _) fun b => .ite ?_ hend
  exact .behind (expressionTokens_sim (inside_keyword .WHERE)) fun _ => hend

theorem statement_gives : F.Gives (statement F.script) Statement.Formed := by
  refine .tokens fun start hstart => .lexeme fun l _ => .peek 1 fun next => ?_
  split
  · exact (Gives.of_sim select_sim).map fun _ _ => trivial
  · exact create_gives hstart
  · exact alterTable_gives
  · exact commentOn_gives hstart
  · exact update_gives
  · exact unmodelled_gives hstart

theorem formed_readStatement (h : F.Left ts) : ∀ st ∈ (readStatement F.script ts).1, st.Formed := by
  unfold readStatement
  split
  · rename_i st rest hst
    have hone : ∀ a ∈ [st], a.Formed := List.forall_mem_singleton.mpr (statement_gives ts h st rest hst).1
    split
    · exact hone
    · split
      · exact hone
      · exact hone
  · exact fun _ hst => absurd hst List.not_mem_nil

theorem formed_statements (h : F.Left ts) : ∀ st ∈ (statements F.script ts).1, st.Formed := by
  induction hn : ts.length using Nat.strongRecOn generalizing ts with
  | ind n ih =>
    subst hn
    obtain ⟨ts', hrelated⟩ := h.related
    obtain ⟨⟨s', hs⟩, hpart, -⟩ := skipSemicolons_related hrelated
    have hbegun := h.suffix hs hpart
    obtain ⟨-, hrest, hbehind, -⟩ := readStatement_related hs
    rw [statements]
    split
    · exact fun _ hst => absurd hst List.not_mem_nil
    · dsimp only
      split
      · rename_i hless
        refine List.forall_mem_append.mpr ⟨formed_readStatement hbegun, ih _ hless ?_ rfl⟩
        exact hbegun.suffix hrest hbehind
      · exact formed_readStatement hbegun

end Frame

/-- A script behind nothing but a separator is left as a whole. -/
theorem left_tokenize {script : String} (hplain : '\\' ∉ script.toList) (hapart : Unfused script) :
    (secondFrame [] script.toList).Left (tokenize script).1 where
  related := by
    have hrelated := second_related [] script.toList
    rw [← tokenize_placed] at hrelated
    exact ⟨_, hrelated⟩
  formed := by
    rw [tokenize_placed]
    refine List.forall_mem_append.mpr ⟨fun t ht => formed_of_mem_placed hplain ht, ?_⟩
    exact List.forall_mem_singleton.mpr trivial
  whole := by
    rw [tokenize_placed]
    refine List.forall_mem_append.mpr ⟨fun t ht _ => whole_of_mem_placed ht, ?_⟩
    exact List.forall_mem_singleton.mpr fun hother => absurd rfl hother
  apart := hapart

theorem formed_readStatements {script : String} (hplain : '\\' ∉ script.toList) (hapart : Unfused script) :
    ∀ st ∈ (readStatements script).value.getD [], st.Formed := by
  rw [getD_readStatements]
  exact Frame.formed_statements (left_tokenize hplain hapart)

end SchemaDialects.Sql
