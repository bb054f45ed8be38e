import SchemaDialects.Proofs.Sql.Frames
import SchemaDialects.Sql.Query

/-!
# Queries and updates inside another script

Every production of SELECT and UPDATE does the same in both scripts of a frame.
-/

namespace SchemaDialects.Sql

open Production

namespace Frame

variable {F : Frame}

theorem tableRef_sim : F.Sim TableRef.bare tableRef tableRef := by
  refine .tokens fun start start' _ => .lexeme rfl rfl fun l =>
    .ite (fun _ _ h => .error h List.suffix_rfl) ?_
  refine (qualifiedName_sim _).bind fun name name' hname => ?_
  have hend : ∀ asName asName', asName.map Identifier.bare = asName'.map Identifier.bare →
      F.Sim TableRef.bare (do return ⟨name, asName, ← positionSince start⟩)
        (do return ⟨name', asName', ← positionSince start'⟩) := fun _ _ h =>
    (positionSince_sim start start').bind fun _ _ _ => .pure (by simp only [TableRef.bare, hname, h])
  refine (eatKeyword_sim .AS).bindSame fun b => .ite ((someIdent_sim _).bind hend) ?_
  exact .lexeme rfl rfl fun l => .ite ((someIdent_sim _).bind hend) (.bind (.pure rfl) hend)

-- ---------------------------------------------------------------------------
-- Fields
-- ---------------------------------------------------------------------------

theorem splitAlias_bare (ts : List Token) : splitAlias (ts.map Token.bare) =
    ((splitAlias ts).1.map Token.bare, (splitAlias ts).2.map Identifier.bare) := by
  unfold splitAlias
  rw [← List.map_reverse]
  rcases ts.reverse with _ | ⟨last, _ | ⟨before, more⟩⟩
  · rfl
  · rfl
  · simp only [List.map_cons, identifier?_bare]
    show (if last.lexeme.isName && endsOperand before.lexeme then _ else _) = _
    split
    · simp
    · rfl

theorem splitScope_bare (ts : List Token) : splitScope (ts.map Token.bare) =
    ((splitScope ts).1.map Identifier.bare, (splitScope ts).2.map Token.bare) := by
  unfold splitScope
  rcases ts with _ | ⟨table, _ | ⟨dot, _ | ⟨column, _ | ⟨more, rest⟩⟩⟩⟩
  · rfl
  · rfl
  · rfl
  · simp only [List.map_cons, List.map_nil, identifier?_bare]
    show (if table.lexeme.isName && dot.lexeme = .dot && column.lexeme.isName then _ else _) = _
    split
    · rfl
    · rfl
  · rfl

/-- A field with its alias apart. -/
def aliasedField (start body : List Token) (asName : Option Identifier) : Production SelectField := do
  let (scope, rest) := splitScope body
  let name := (asName.map (·.value)).getD (renderTokens true rest)
  return .expression scope (.ofTokens rest) asName name (← positionSince start)

theorem value_of_bare {o o' : Option Identifier} (h : o.map Identifier.bare = o'.map Identifier.bare) :
    o.map (·.value) = o'.map (·.value) := by
  simpa [Function.comp_def, Identifier.bare] using congrArg (Option.map (·.value)) h

theorem aliasedField_sim (start start' : List Token) {body body' : List Token}
    {asName asName' : Option Identifier} (hbody : body.map Token.bare = body'.map Token.bare)
    (hasName : asName.map Identifier.bare = asName'.map Identifier.bare) :
    F.Sim SelectField.bare (aliasedField start body asName) (aliasedField start' body' asName') := by
  have hsplit := splitScope_bare body
  rw [hbody, splitScope_bare] at hsplit
  unfold aliasedField
  generalize splitScope body = split at hsplit ⊢
  generalize splitScope body' = split' at hsplit ⊢
  obtain ⟨hscope, hrest⟩ := Prod.mk.inj hsplit
  refine (positionSince_sim start start').bind fun _ _ _ => .pure ?_
  simp only [SelectField.bare, hscope, bare_ofTokens hrest, hasName, value_of_bare hasName,
    renderTokens_congr hrest]

/-- A field that is an expression. -/
def plainField (start : List Token) : Production SelectField := do
  let field ← expressionTokens endsField
  if field.isEmpty then failExpecting "select field"
  if ← eatKeyword .AS then aliasedField start field (some (← ident "alias"))
  else aliasedField start (splitAlias field).1 (splitAlias field).2

theorem plainField_sim (start start' : List Token) :
    F.Sim SelectField.bare (plainField start) (plainField start') := by
  refine (expressionTokens_sim ⟨rfl, rfl⟩).bind fun field field' hfield => ?_
  have halias := splitAlias_bare field
  rw [hfield, splitAlias_bare] at halias
  obtain ⟨hbody, hasName⟩ := Prod.mk.inj halias
  rw [isEmpty_congr hfield]
  refine .step (failExpecting_sim id _) ((eatKeyword_sim .AS).bindSame fun b => .ite ?_ ?_)
  · exact (ident_sim _).bind fun _ _ h => aliasedField_sim start start' hfield (congrArg some h)
  · exact aliasedField_sim start start' hbody.symm hasName.symm

/-- A field that is all columns of a table or an expression. -/
def scopedField (start : List Token) : Production SelectField := do
  if (← lexeme).isNameLike && (← peek 1) = .dot && (← peek 2) = .star then
    let scope ← ident "table name"
    advance
    advance
    return .wildcard (some scope) (← positionSince start)
  else plainField start

theorem selectField_eq : selectField = (do
    let start ← tokens
    if (← lexeme) = .star then
      let position := (← current).position
      advance
      return .wildcard none position
    else scopedField start) := rfl

theorem scopedField_sim (start start' : List Token) :
    F.Sim SelectField.bare (scopedField start) (scopedField start') := by
  intro ts ts' h
  let looks : List (Lexeme → Bool) := [Lexeme.isNameLike, (· = .dot), (· = .star)]
  have hlooks : ∀ p ∈ looks, Inside p := by
    simp only [looks, List.forall_mem_cons]
    exact ⟨⟨rfl, rfl⟩, ⟨rfl, rfl⟩, ⟨rfl, rfl⟩, by simp⟩
  have hread : ∀ start ts, scopedField start ts = (if begins looks ts then do
      let scope ← ident "table name"
      advance
      advance
      return .wildcard (some scope) (← positionSince start)
    else plainField start) ts := by
    intro start ts
    have hbegins : begins looks ts = (headIs Lexeme.isNameLike ts && headIs (· = .dot) (ts.drop 1) &&
        headIs (· = .star) (ts.drop 2)) := by
      simp only [looks, begins, ← List.drop_one, List.drop_drop, Bool.and_true, Bool.and_assoc]
    rw [hbegins, headIs_drop, headIs_drop]
    rfl
  rw [hread, hread, ← begins_eq hlooks h]
  split
  · next hbegins =>
    obtain ⟨t, t', s, s', rfl, rfl, ht, hs, hname, hmore⟩ := h.of_begins ⟨rfl, rfl⟩ hbegins
    obtain ⟨dot, dot', s, s', rfl, rfl, -, hs', -, hlast⟩ := hs.of_begins ⟨rfl, rfl⟩ hmore
    obtain ⟨star, star', s, s', rfl, rfl, -, hs'', -, -⟩ := hs'.of_begins ⟨rfl, rfl⟩ hlast
    refine ident_bind ht hname hs fun i i' hi => .advance hs' (.advance hs'' ?_)
    refine Sim.from ?_ hs'' ⟨[t, dot, star], rfl⟩
    exact (positionSince_sim start start').bind fun _ _ _ => .pure (by simp [SelectField.bare, hi])
  · exact plainField_sim start start' _ _ h

theorem selectField_sim : F.Sim SelectField.bare selectField selectField := by
  rw [selectField_eq]
  refine .tokens fun start start' _ => .look rfl ?_ fun t t' s s' ht h hs => ?_
  · exact scopedField_sim start start'
  · generalize t.lexeme = l
    split
    · show F.Agree SelectField.bare _
        ((do advance; return .wildcard none t.position : Production SelectField) (t :: s))
        ((do advance; return .wildcard none t'.position : Production SelectField) (t' :: s'))
      exact .over hs (.pure rfl)
    · exact scopedField_sim start start' _ _ h

-- ---------------------------------------------------------------------------
-- Joins
-- ---------------------------------------------------------------------------

theorem joinKind_sim : F.Sim id joinKind joinKind := by
  refine .look rfl (.pure rfl) fun t t' s s' ht h hs => ?_
  generalize t.lexeme = l
  have houter : ∀ kind, F.Agree id (t :: s) (joinKind.outer kind (t :: s))
      (joinKind.outer kind (t' :: s')) := fun kind =>
    .over hs ((skipKeyword_sim .OUTER).bindSame fun _ => .pure rfl)
  split
  · exact .ok rfl h List.suffix_rfl
  · exact .over hs (.pure rfl)
  · exact houter .left
  · exact houter .right
  · exact houter .full
  · exact .over hs (.pure rfl)
  · exact .ok rfl h List.suffix_rfl

theorem map_getD {o o' : Option (List α)} {f : α → β} (h : o.map (List.map f) = o'.map (List.map f)) :
    (o.getD []).map f = (o'.getD []).map f := by
  cases o <;> cases o' <;> simp_all

theorem join_sim : F.Sim (Option.map Join.bare) join join := by
  refine .tokens fun start start' _ => joinKind_sim.bindSame fun o => ?_
  cases o with
  | none => exact .pure rfl
  | some kind =>
    refine (expectKeyword_sim .JOIN).bindSame fun _ => tableRef_sim.bind fun table table' htable => ?_
    refine (introduced_sim .ON (expressionUntil_sim ⟨rfl, rfl⟩ _)).bind
      fun condition condition' hcondition => ?_
    refine (introduced_sim .USING identList_sim).bind fun shared shared' hshared => ?_
    refine (positionSince_sim start start').bind fun _ _ _ => .pure ?_
    have hall : (shared.getD []).map Identifier.bare = (shared'.getD []).map Identifier.bare :=
      map_getD hshared
    simp only [Option.map_some, Join.bare, htable, hcondition, hall]

-- ---------------------------------------------------------------------------
-- Sorting and limits
-- ---------------------------------------------------------------------------

theorem orderItem_sim : F.Sim OrderBy.bare orderItem orderItem := by
  refine (expressionUntil_sim ⟨rfl, rfl⟩ _).bind fun e e' he => (eatKeyword_sim .DESC).bindSame fun b => ?_
  refine .step (skipKeyword_sim .ASC) (eatIf_takes (inside_word _) (fun l hl => ?_) (.pure ?_))
  · simp [Lexeme.takesNext, hl]
  · simp only [OrderBy.bare, he]

theorem limitClause_sim :
    F.Sim (Prod.map (Option.map Expression.bare) (Option.map Expression.bare)) limitClause limitClause := by
  refine (eatKeyword_sim .LIMIT).bindSame fun b => .ite ?_ (.pure rfl)
  refine (expressionUntil_sim ⟨rfl, rfl⟩ _).bind fun first first' hfirst => ?_
  refine (eat_sim rfl).bindSame fun b => .ite ?_ (.pure (by simp [hfirst]))
  exact (expressionUntil_sim ⟨rfl, rfl⟩ _).bind fun limit limit' hlimit => .pure (by simp [hfirst, hlimit])

theorem offsetClause_sim : F.Sim (Option.map Expression.bare) offsetClause offsetClause := by
  refine introduced_sim .OFFSET ((expressionUntil_sim ⟨rfl, rfl⟩ _).bind fun offset offset' hoffset => ?_)
  exact (eatWord_sim _).bindSame fun b => .step (skipWord_sim _) (.pure hoffset)

theorem listClause_sim {item item' : Production α} (first : Keyword) (hitem : F.Sim f item item') :
    F.Sim (List.map f) (listClause first item) (listClause first item') := by
  refine (introduced_sim first ((expectKeyword_sim .BY).bindSame fun _ => commaSeparated_sim hitem)).bind
    fun items items' hitems => .pure (map_getD hitems)

theorem select_sim : F.Sim Select.bare select select := by
  refine .tokens fun start start' _ => (expectKeyword_sim .SELECT).bindSame fun _ => ?_
  refine (eatKeyword_sim .DISTINCT).bindSame fun distinct => .step (skipKeyword_sim .ALL) ?_
  refine (commaSeparated_sim selectField_sim).bind fun fields fields' hfields => ?_
  refine (expectKeyword_sim .FROM).bindSame fun _ => ?_
  refine (commaSeparated_sim tableRef_sim).bind fun tables tables' htables => ?_
  refine (repeated_sim join_sim).bind fun joins joins' hjoins => ?_
  refine (introduced_sim .WHERE (expressionUntil_sim ⟨rfl, rfl⟩ _)).bind
    fun condition condition' hcondition => ?_
  refine (listClause_sim .GROUP (expressionUntil_sim ⟨rfl, rfl⟩ _)).bind fun groupBy groupBy' hgroupBy => ?_
  refine (introduced_sim .HAVING (expressionUntil_sim ⟨rfl, rfl⟩ _)).bind fun having having' hhaving => ?_
  refine (listClause_sim .ORDER orderItem_sim).bind fun orderBy orderBy' horderBy => ?_
  refine limitClause_sim.bind fun (limit, own) (limit', own') hlimits => ?_
  obtain ⟨hlimit, hown⟩ : limit.map Expression.bare = limit'.map Expression.bare ∧
      own.map Expression.bare = own'.map Expression.bare := Prod.mk.inj hlimits
  refine offsetClause_sim.bind fun offset offset' hoffset => .lexeme rfl rfl fun l => ?_
  refine .ite (fun _ _ h => .error h List.suffix_rfl) ?_
  have hany : (offset <|> own).map Expression.bare = (offset' <|> own').map Expression.bare := by
    cases offset <;> cases offset' <;> simp_all
  refine (positionSince_sim start start').bind fun _ _ _ => .pure ?_
  simp only [Select.bare, hfields, htables, hjoins, hcondition, hgroupBy, hhaving, horderBy, hlimit, hany]

-- ---------------------------------------------------------------------------
-- Updates
-- ---------------------------------------------------------------------------

theorem assignment_sim : F.Sim Assignment.bare assignment assignment := by
  refine (qualifiedName_sim _).bind fun target target' htarget => ?_
  have hlast : target.parts.getLast?.map Identifier.bare = target'.parts.getLast?.map Identifier.bare := by
    rw [← List.getLast?_map, ← List.getLast?_map]
    exact congrArg (fun n => n.parts.getLast?) htarget
  generalize target.parts.getLast? = o at hlast ⊢
  generalize target'.parts.getLast? = o' at hlast ⊢
  obtain ⟨rfl, rfl⟩ | ⟨column, column', rfl, rfl, hcolumn⟩ := option_cases hlast
  · exact failExpecting_sim _ _
  · refine (expect_sim rfl _).bindSame fun _ => (expressionUntil_sim ⟨rfl, rfl⟩ _).bind
      fun value value' hvalue => .pure ?_
    simp only [Assignment.bare, hcolumn, hvalue]

/-- What stands behind the assignments. -/
def updateEnd (start : List Token) (table : TableRef) (assignments : List Assignment) :
    Production Statement := do
  let condition ← introduced .WHERE (expressionUntil (·.isWord "returning") "condition")
  let position ← positionSince start
  skipStatement
  return .update { table, assignments, condition, position }

theorem updateEnd_sim (start start' : List Token) {table table' : TableRef}
    {assignments assignments' : List Assignment} (htable : table.bare = table'.bare)
    (hassignments : assignments.map Assignment.bare = assignments'.map Assignment.bare) :
    F.Sim Statement.bare (updateEnd start table assignments) (updateEnd start' table' assignments') := by
  refine (introduced_sim .WHERE (expressionUntil_sim ⟨rfl, rfl⟩ _)).bind
    fun condition condition' hcondition => ?_
  refine (positionSince_sim start start').bind fun _ _ _ => skipStatement_sim.bindSame fun _ => .pure ?_
  simp only [Statement.bare, Update.bare, htable, hassignments, hcondition]

theorem update_sim : F.Sim Statement.bare update update := by
  refine .tokens fun start start' _ => (expectKeyword_sim .UPDATE).bindSame fun _ => ?_
  refine (skipKeyword_sim .ONLY).bindSame fun _ => tableRef_sim.bind fun table table' htable => ?_
  refine (expectKeyword_sim .SET).bindSame fun _ => ?_
  refine (commaSeparated_sim assignment_sim).bind fun assignments assignments' hassignments => ?_
  have hend : F.Sim Statement.bare (updateEnd start table assignments)
      (updateEnd start' table' assignments') := updateEnd_sim start start' htable hassignments
  exact (eatKeyword_sim .FROM).bindSame fun b => .ite
    ((expressionTokens_sim (inside_keyword .WHERE)).bind fun _ _ _ => hend) hend

end Frame

end SchemaDialects.Sql
