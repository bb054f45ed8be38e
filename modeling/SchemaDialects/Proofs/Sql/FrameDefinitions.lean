import SchemaDialects.Proofs.Sql.FrameColumns

/-!
# Definitions inside another script

Every production of CREATE, ALTER TABLE and COMMENT ON does the same in both scripts of a frame.
-/

namespace SchemaDialects.Sql

open Production

namespace Frame

variable {F : Frame}

-- ---------------------------------------------------------------------------
-- Table constraints
-- ---------------------------------------------------------------------------

/-- What tells an index from a column, for the tokens behind its first word. -/
def namesColumns (ts : List Token) : Bool :=
  begins [(· = .openParen), Lexeme.isNameLike] ts ||
    begins [Lexeme.isNameLike, (· = .openParen), Lexeme.isNameLike] ts

theorem looksLikeIndex_eq (t : Token) (s : List Token) :
    looksLikeIndex (t :: s) = .ok (namesColumns s) (t :: s) := by
  have hpeek : ∀ (p : Lexeme → Bool) n, headIs p (s.drop n) =
      p (((t :: s)[n + 1]?.map (·.lexeme)).getD .finish) := fun p n => headIs_drop p n s
  have hbegins : namesColumns s =
      (headIs (· = .openParen) (s.drop 0) && headIs Lexeme.isNameLike (s.drop 1) ||
        headIs Lexeme.isNameLike (s.drop 0) && headIs (· = .openParen) (s.drop 1) &&
          headIs Lexeme.isNameLike (s.drop 2)) := by
    simp only [namesColumns, begins, ← List.drop_one, List.drop_drop, List.drop_zero, Bool.and_true,
      Bool.and_assoc]
  rw [hbegins]
  simp only [hpeek]
  rfl

theorem looksLikeIndex_bind (k : Bool → Production α) (t : Token) (s : List Token) :
    (looksLikeIndex >>= k) (t :: s) = k (namesColumns s) (t :: s) := by
  show EStateM.bind looksLikeIndex k (t :: s) = _
  rw [EStateM.bind, looksLikeIndex_eq]

theorem namesColumns_related (h : F.Related s s') : namesColumns s = namesColumns s' := by
  have hname : Inside Lexeme.isNameLike := ⟨rfl, rfl⟩
  have hparen : Inside (· = .openParen) := ⟨rfl, rfl⟩
  unfold namesColumns
  rw [begins_eq (by simp [hname, hparen]) h, begins_eq (by simp [hname, hparen]) h]

theorem optionalIndexName_sim :
    F.Sim (Option.map Identifier.bare) optionalIndexName optionalIndexName :=
  .lexeme rfl rfl fun _ => .ite (.pure rfl) ((ident_sim _).bind fun _ _ h => .pure (congrArg some h))

/-- The rule of an index whose first words are gone. -/
def indexRule : Production (Option (TableRule × Option Identifier)) := do
  let name ← optionalIndexName
  return some (.index (← identList), name)

theorem indexRule_sim :
    F.Sim (Option.map (Prod.map TableRule.bare (Option.map Identifier.bare))) indexRule indexRule := by
  refine optionalIndexName_sim.bind fun name name' hname => identList_sim.bind
    fun columns columns' hcolumns => .pure ?_
  simp only [Option.map_some, Prod.map_apply, TableRule.bare, hname, hcolumns]

theorem tableRule_sim (named : Bool) :
    F.Sim (Option.map (Prod.map TableRule.bare (Option.map Identifier.bare))) (tableRule named)
      (tableRule named) := by
  have hnone : F.Sim (Option.map (Prod.map TableRule.bare (Option.map Identifier.bare)))
      (if named then failExpecting "constraint" else return none)
      (if named then failExpecting "constraint" else return none) :=
    .ite (failExpecting_sim _ _) (.pure rfl)
  refine .look rfl (fun ts ts' h => hnone ts ts' h) fun t t' s s' ht h hs => ?_
  generalize t.lexeme = l
  split
  · refine .over hs ((expectKeyword_sim _).bindSame fun _ => identList_sim.bind
      fun columns columns' hcolumns => .pure ?_)
    simp only [Option.map_some, Prod.map_apply, TableRule.bare, hcolumns, Option.map_none]
  · refine .over hs ((eatKeyword_sim _).bindSame fun b => .step (skipKeyword_sim _) ?_)
    refine optionalIndexName_sim.bind fun name name' hname => identList_sim.bind
      fun columns columns' hcolumns => .pure ?_
    simp only [Option.map_some, Prod.map_apply, TableRule.bare, hcolumns, hname]
  · refine .over hs ((expectKeyword_sim _).bindSame fun _ => ?_)
    refine optionalIndexName_sim.bind fun name name' hname => ?_
    refine identList_sim.bind fun columns columns' hcolumns => references_sim.bind
      fun target target' htarget => .pure ?_
    simp only [Option.map_some, Prod.map_apply, TableRule.bare, hcolumns, hname, htarget]
  · refine .over hs (parenthesized_sim.bind fun _ _ hcondition => .pure ?_)
    simp only [Option.map_some, Prod.map_apply, TableRule.bare, hcondition, Option.map_none]
  · refine .peek rfl hs fun next hnext => ?_
    rw [looksLikeIndex_bind, looksLikeIndex_bind, namesColumns_related hs]
    split
    · exact .over hs indexRule_sim
    split
    · next hwords =>
      refine .advanceBoth hs (hnext ?_) indexRule_sim
      rintro rfl
      exact absurd (Bool.and_eq_true_iff.mp hwords).2 nofun
    · exact hnone _ _ h

/-- The name of a constraint: an index may have one of its own. -/
def ruleName (rule : TableRule) (name own : Option Identifier) : Option Identifier :=
  match rule with
  | .index _ => own
  | _ => name <|> own

theorem ruleName_bare (rule : TableRule) (name own : Option Identifier) :
    (ruleName rule name own).map Identifier.bare =
      ruleName rule.bare (name.map Identifier.bare) (own.map Identifier.bare) := by
  cases rule <;> first | rfl | (cases name <;> rfl)

theorem tableConstraint_sim :
    F.Sim (Option.map TableConstraint.bare) tableConstraint tableConstraint := by
  refine .tokens fun start start' _ => constraintName_sim.bind fun name name' hname => ?_
  have hnamed : name.isSome = name'.isSome := by
    simpa using congrArg Option.isSome hname
  rw [hnamed]
  refine (tableRule_sim _).bind fun found found' hfound => ?_
  obtain ⟨rfl, rfl⟩ | ⟨⟨rule, own⟩, ⟨rule', own'⟩, rfl, rfl, hboth⟩ := option_cases hfound
  · exact .pure rfl
  · obtain ⟨hrule, hown⟩ := Prod.mk.inj hboth
    refine (positionSince_sim start start').bind fun _ _ _ => .pure ?_
    simp only [Option.map_some, TableConstraint.bare, hrule, Option.some.injEq, TableConstraint.mk.injEq,
      and_true]
    have hleft := ruleName_bare rule name own
    rw [hrule, hname, hown] at hleft
    exact hleft.trans (ruleName_bare rule' name' own').symm

-- ---------------------------------------------------------------------------
-- CREATE TABLE
-- ---------------------------------------------------------------------------

theorem tablePart_sim : F.Sim (Sum.map TableConstraint.bare ColumnDef.bare) tablePart tablePart := by
  refine tableConstraint_sim.bind fun found found' hfound => ?_
  obtain ⟨rfl, rfl⟩ | ⟨constraint, constraint', rfl, rfl, hsame⟩ := option_cases hfound
  · exact columnDef_sim.bind fun _ _ h => .pure (congrArg Sum.inr h)
  · exact .pure (congrArg Sum.inl hsame)

theorem tableColumns_bare (parts : List (TableConstraint ⊕ ColumnDef)) :
    (parts.filterMap fun | .inr column => some column | .inl _ => none).map ColumnDef.bare =
      (parts.map (Sum.map TableConstraint.bare ColumnDef.bare)).filterMap Sum.getRight? := by
  rw [List.map_filterMap, List.filterMap_map]
  refine List.filterMap_congr fun part _ => ?_
  cases part <;> rfl

theorem tableConstraints_bare (parts : List (TableConstraint ⊕ ColumnDef)) :
    (parts.filterMap fun | .inl constraint => some constraint | .inr _ => none).map TableConstraint.bare =
      (parts.map (Sum.map TableConstraint.bare ColumnDef.bare)).filterMap Sum.getLeft? := by
  rw [List.map_filterMap, List.filterMap_map]
  refine List.filterMap_congr fun part _ => ?_
  cases part <;> rfl

theorem anotherPart_sim : F.Sim id anotherPart anotherPart := by
  refine .look rfl (failExpecting_sim id _) fun t t' s s' ht h hs => ?_
  generalize t.lexeme = l
  split
  · exact .over hs (.pure rfl)
  · exact .over hs (.pure rfl)
  · exact failExpecting_sim id _ _ _ h

/-- What stands behind the parts of a table. -/
def tableEnd (start : List Token) (ifNotExists : Bool) (name : QualifiedName)
    (parts : List (TableConstraint ⊕ ColumnDef)) : Production Statement := do
  let position ← positionSince start
  skipStatement
  return .createTable {
    ifNotExists, name
    columns := parts.filterMap fun | .inr column => some column | .inl _ => none
    constraints := parts.filterMap fun | .inl constraint => some constraint | .inr _ => none
    position }

theorem tableEnd_sim (start start' : List Token) (ifNotExists : Bool) {name name' : QualifiedName}
    (hname : name.bare = name'.bare) (parts parts' : List (TableConstraint ⊕ ColumnDef))
    (hparts : parts.map (Sum.map TableConstraint.bare ColumnDef.bare) =
      parts'.map (Sum.map TableConstraint.bare ColumnDef.bare)) :
    F.Sim Statement.bare (tableEnd start ifNotExists name parts)
      (tableEnd start' ifNotExists name' parts') := by
  refine (positionSince_sim _ _).bind fun _ _ _ => skipStatement_sim.bindSame fun _ => .pure ?_
  simp only [Statement.bare, CreateTable.bare, hname, Statement.createTable.injEq, CreateTable.mk.injEq,
    true_and, and_true]
  have hcolumns := tableColumns_bare parts
  have hconstraints := tableConstraints_bare parts
  rw [hparts] at hcolumns hconstraints
  exact ⟨hcolumns.trans (tableColumns_bare parts').symm,
    hconstraints.trans (tableConstraints_bare parts').symm⟩

theorem createTable_sim (hstart : F.Related start start') :
    F.Sim Statement.bare (createTable F.script start) (createTable F.whole start') := by
  refine (expectKeyword_sim _).bindSame fun _ => ifNotExists_sim.bindSame fun lenient => ?_
  refine (qualifiedName_sim _).bind fun name name' hname => (eat_sim rfl).bindSame fun b => ?_
  refine .ite ((unmodelled_sim hstart).bind fun _ _ h => .pure h) ?_
  have hend := tableEnd_sim (F := F) start start' lenient hname
  exact (eat_sim rfl).bindSame fun b => .ite (.bind (.pure rfl) hend)
    ((separated_sim tablePart_sim anotherPart_sim).bind hend)

-- ---------------------------------------------------------------------------
-- CREATE INDEX
-- ---------------------------------------------------------------------------

theorem indexColumn_sim : F.Sim Expression.bare indexColumn indexColumn := by
  refine (expressionUntil_sim ⟨rfl, rfl⟩ _).bind fun e e' he => (eatKeyword_sim .ASC).bindSame fun b => ?_
  refine .step (skipKeyword_sim .DESC) (eatIf_takes (inside_word _) (fun l hl => ?_) (.pure he))
  simp [Lexeme.takesNext, hl]

/-- What stands behind the columns of an index. -/
def conditionEnd (start : List Token) (unique : Bool) (name : Option Identifier) (table : QualifiedName)
    (columns : List Expression) : Production Statement := do
  let condition ← introduced .WHERE (expressionUntil (fun _ => false) "index predicate")
  return .createIndex { unique, name, table, columns, condition, position := ← positionSince start }

/-- What stands behind the name of an index. -/
def indexEnd (start : List Token) (unique : Bool) (name : Option Identifier) : Production Statement := do
  expectKeyword .ON
  skipKeyword .ONLY
  let table ← qualifiedName "table name"
  if ← eatKeyword .USING then advance
  expect .openParen "'('"
  let columns ← commaSeparated indexColumn
  expect .closeParen "')'"
  if (← eatWord "include") then
    if (← lexeme) = .openParen then skipGroup
  conditionEnd start unique name table columns

theorem indexEnd_sim (start start' : List Token) (unique : Bool) (name name' : Option Identifier)
    (hname : name.map Identifier.bare = name'.map Identifier.bare) :
    F.Sim Statement.bare (indexEnd start unique name) (indexEnd start' unique name') := by
  refine (expectKeyword_sim _).bindSame fun _ => (skipKeyword_sim _).bindSame fun _ => ?_
  refine (qualifiedName_sim _).bind fun table table' htable => ?_
  refine eatIf_takes (inside_keyword _) (fun l hl => by simp [Lexeme.takesNext, hl]) ?_
  refine (expect_sim rfl _).bindSame fun _ => (commaSeparated_sim indexColumn_sim).bind
    fun columns columns' hcolumns => (expect_sim rfl _).bindSame fun _ => ?_
  have hcondition : F.Sim Statement.bare (conditionEnd start unique name table columns)
      (conditionEnd start' unique name' table' columns') := by
    refine (introduced_sim _ (expressionUntil_sim ⟨rfl, rfl⟩ _)).bind fun condition condition' hsame => ?_
    refine (positionSince_sim _ _).bind fun _ _ _ => .pure ?_
    simp only [Statement.bare, CreateIndex.bare, hname, htable, hcolumns, hsame]
  exact (eatWord_sim _).bindSame fun b => .ite
    (.lexeme rfl rfl fun l => .step skipGroup_sim hcondition) hcondition

theorem createIndex_sim :
    F.Sim Statement.bare (createIndex start) (createIndex start') := by
  refine (eatKeyword_sim _).bindSame fun unique => (expectKeyword_sim _).bindSame fun _ => ?_
  refine (skipWord_sim _).bindSame fun _ => ifNotExists_sim.bindSame fun _ => .lexeme rfl rfl fun l => ?_
  have hend := indexEnd_sim (F := F) start start' unique
  exact .ite (.bind (.pure rfl) hend) ((someIdent_sim _).bind hend)

-- ---------------------------------------------------------------------------
-- CREATE TYPE
-- ---------------------------------------------------------------------------

theorem enumValue_sim : F.Sim id enumValue enumValue := by
  refine .look rfl (.pure rfl) fun t t' s s' ht h hs => ?_
  generalize t.lexeme = l
  split
  · exact .over hs (.pure rfl)
  · exact .ok rfl h List.suffix_rfl

theorem compositeField_sim : F.Sim (Option.map ColumnDef.bare) compositeField compositeField :=
  .lexeme rfl rfl fun _ => .ite (.pure rfl) (columnDef_sim.bind fun _ _ h => .pure (congrArg some h))

theorem createType_sim (hstart : F.Related start start') :
    F.Sim Statement.bare (createType F.script start) (createType F.whole start') := by
  refine (expectKeyword_sim _).bindSame fun _ => (qualifiedName_sim _).bind fun name name' hname => ?_
  have hdone : ∀ definition definition' : TypeDefinition, definition.bare = definition'.bare →
      F.Sim Statement.bare
        (do return .createType { name, definition, position := ← positionSince start })
        (do return .createType {
              name := name', definition := definition', position := ← positionSince start' }) := by
    intro definition definition' hdefinition
    refine (positionSince_sim _ _).bind fun _ _ _ => .pure ?_
    simp only [Statement.bare, CreateType.bare, hname, hdefinition]
  refine .lexeme rfl rfl fun l => .ite (hdone _ _ rfl) ?_
  refine (eatKeyword_sim _).bindSame fun b => .ite ((unmodelled_sim hstart).bind fun _ _ h => .pure h) ?_
  refine (eatKeyword_sim _).bindSame fun b => .ite ?_ ?_
  · refine (expect_sim rfl _).bindSame fun _ => ?_
    refine Sim.bind (f := List.map id) (listed_sim ?_ (eat_sim rfl)) fun values values' hvalues => ?_
    · rw [Option.map_id]
      exact enumValue_sim
    · obtain rfl : values = values' := by simpa using hvalues
      exact (expect_sim rfl _).bindSame fun _ => hdone _ _ rfl
  · refine (eat_sim rfl).bindSame fun b => .ite ?_ (unmodelled_sim hstart)
    refine (listed_sim compositeField_sim (eat_sim rfl)).bind fun columns columns' hcolumns => ?_
    exact (expect_sim rfl _).bindSame fun _ => hdone _ _ (congrArg TypeDefinition.composite hcolumns)

theorem create_sim (hstart : F.Related start start') :
    F.Sim Statement.bare (create F.script start) (create F.whole start') := by
  refine (expectKeyword_sim _).bindSame fun _ => (eatKeyword_sim _).bindSame fun b => ?_
  refine .step (skipWord_sim _) (.lexeme rfl rfl fun l => ?_)
  split
  · exact createTable_sim hstart
  · exact createIndex_sim
  · exact createIndex_sim
  · exact createType_sim hstart
  · exact unmodelled_sim hstart

-- ---------------------------------------------------------------------------
-- ALTER TABLE and COMMENT ON
-- ---------------------------------------------------------------------------

theorem alterAction_sim : F.Sim AlterAction.bare alterAction alterAction := by
  refine .tokens fun start start' _ => (eatKeyword_sim _).bindSame fun b => .ite ?_ ?_
  · refine tableConstraint_sim.bind fun found found' hfound => ?_
    obtain ⟨rfl, rfl⟩ | ⟨constraint, constraint', rfl, rfl, hsame⟩ := option_cases hfound
    · refine (skipKeyword_sim _).bindSame fun _ => ifNotExists_sim.bindSame fun _ => ?_
      exact columnDef_sim.bind fun _ _ h => .pure (congrArg AlterAction.addColumn h)
    · exact .pure (congrArg AlterAction.addConstraint hsame)
  · refine (expressionTokens_sim ⟨rfl, rfl⟩).bind fun taken taken' htaken => ?_
    rw [isEmpty_congr htaken]
    refine .step (failExpecting_sim id _) ((positionSince_sim _ _).bind fun _ _ _ => .pure ?_)
    simp only [AlterAction.bare, renderTokens_congr htaken]

theorem alterTable_sim : F.Sim Statement.bare alterTable alterTable := by
  refine .tokens fun start start' _ => (expectKeyword_sim _).bindSame fun _ => ?_
  refine (expectKeyword_sim _).bindSame fun _ => (eatKeyword_sim _).bindSame fun b => ?_
  refine .step (expectKeyword_sim _) ((skipKeyword_sim _).bindSame fun _ => ?_)
  refine (qualifiedName_sim _).bind fun table table' htable => ?_
  refine (commaSeparated_sim alterAction_sim).bind fun actions actions' hactions => ?_
  refine (positionSince_sim _ _).bind fun _ _ _ => .pure ?_
  simp only [Statement.bare, AlterTable.bare, htable, hactions]

/-- What stands behind the target of a comment. -/
def commentEnd (script : List Char) (start : List Token) : Option CommentTarget → Production Statement
  | none => unmodelled script start
  | some target => do
    expectKeyword .IS
    let text ← match ← lexeme with
      | .str text => pure (some text)
      | .keyword .NULL => pure none
      | _ => failExpecting "comment string"
    advance
    return .commentOn { target, text, position := ← positionSince start }

theorem commentEnd_sim (hstart : F.Related start start') (target target' : Option CommentTarget)
    (h : target.map CommentTarget.bare = target'.map CommentTarget.bare) :
    F.Sim Statement.bare (commentEnd F.script start target) (commentEnd F.whole start' target') := by
  obtain ⟨rfl, rfl⟩ | ⟨target, target', rfl, rfl, htarget⟩ := option_cases h
  · exact unmodelled_sim hstart
  have htext : ∀ (text : Option String) {t t' : Token} {s s' : List Token}, F.Related s s' →
      F.Agree Statement.bare (t :: s)
        ((do
          advance
          return .commentOn { target, text, position := ← positionSince start } :
            Production Statement) (t :: s))
        ((do
          advance
          return .commentOn { target := target', text, position := ← positionSince start' } :
            Production Statement) (t' :: s')) := by
    intro text t t' s s' hs
    refine .over hs ?_
    refine (positionSince_sim _ _).bind fun _ _ _ => .pure ?_
    simp only [Statement.bare, CommentOn.bare, htarget]
  refine (expectKeyword_sim _).bindSame fun _ => .look rfl (failExpecting_sim _ _) fun t t' s s' ht h hs => ?_
  generalize t.lexeme = l
  split
  · exact htext _ hs
  · exact htext _ hs
  · exact failExpecting_sim _ _ _ _ h

theorem commentOn_sim (hstart : F.Related start start') :
    F.Sim Statement.bare (commentOn F.script start) (commentOn F.whole start') := by
  refine (expectKeyword_sim _).bindSame fun _ => (expectKeyword_sim _).bindSame fun _ => ?_
  have hname : ∀ (what : String) (kind : QualifiedName → CommentTarget),
      (∀ name, (kind name).bare = kind name.bare) →
      F.Sim (Option.map CommentTarget.bare) (some <$> kind <$> qualifiedName what)
        (some <$> kind <$> qualifiedName what) := by
    intro what kind hkind
    refine Sim.map (f := CommentTarget.bare) ((qualifiedName_sim what).map fun name name' h => ?_)
      fun _ _ h => congrArg some h
    rw [hkind, hkind, h]
  have hend := commentEnd_sim hstart
  refine (eatKeyword_sim _).bindSame fun b => .ite ?_ ((eatKeyword_sim _).bindSame fun b => .ite ?_ ?_)
  · exact (hname _ _ fun _ => rfl).bind hend
  · exact (hname _ _ fun _ => rfl).bind hend
  · exact .bind (.pure rfl) hend

end Frame

end SchemaDialects.Sql
