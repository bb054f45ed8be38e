import SchemaDialects.Proofs.Sql.Names
import SchemaDialects.Sql.Import

/-!
# Constraints in written text

A constraint of a table as it is written, the tokens of it, and what reading them says: the same
constraint, up to positions. The foreign keys that are added to a table have the same form.
-/

namespace SchemaDialects.Sql

open Production

-- ---------------------------------------------------------------------------
-- Written constraints
-- ---------------------------------------------------------------------------

/-- What a foreign key refers to. -/
structure Reference where
  entity : EntityName
  columns : List String
  onDelete : Option ReferentialAction
  onUpdate : Option ReferentialAction

inductive Clause
  | key (columns : List String)
  | unique (columns : List String)
  | check (predicate : String)
  | foreignKey (columns : List String) (reference : Reference)

structure Constraint where
  name : Option String
  clause : Clause

def actionWords : ReferentialAction → List Keyword
  | .cascade => [.CASCADE]
  | .restrict => [.RESTRICT]
  | .setNull => [.SET, .NULL]
  | .setDefault => [.SET, .DEFAULT]
  | .noAction => [.NO, .ACTION]

/-- What happens on an event, if anything is said about it. -/
def actionTokens (event : Keyword) : Option ReferentialAction → List Token
  | none => []
  | some action => keyToken .ON :: keyToken event :: (actionWords action).map keyToken

def Reference.tokens (r : Reference) : List Token :=
  keyToken .REFERENCES :: (entityTokens r.entity ++ (columnTokens r.columns ++
    (actionTokens .DELETE r.onDelete ++ actionTokens .UPDATE r.onUpdate)))

def Clause.tokens : Clause → List Token
  | key columns => keyToken .PRIMARY :: keyToken .KEY :: columnTokens columns
  | unique columns => keyToken .UNIQUE :: columnTokens columns
  | check predicate => keyToken .CHECK :: openToken :: (tokensOf predicate ++ [closeToken])
  | foreignKey columns reference =>
    keyToken .FOREIGN :: keyToken .KEY :: (columnTokens columns ++ reference.tokens)

def constraintNameTokens : Option String → List Token
  | none => []
  | some name => [keyToken .CONSTRAINT, nameToken name]

def Constraint.tokens (c : Constraint) : List Token :=
  constraintNameTokens c.name ++ c.clause.tokens

-- ---------------------------------------------------------------------------
-- Referential actions
-- ---------------------------------------------------------------------------

theorem referentialAction_yields (action : ReferentialAction) :
    Yields referentialAction ((actionWords action).map keyToken ++ ws) (· = action) ws := by
  have hchosen : Yields (pure action) ((actionWords action).map keyToken ++ ws) (· = action)
      ((actionWords action).map keyToken ++ ws) := .pure rfl
  cases action <;>
  · refine lexeme_yields.bind ?_
    rintro _ rfl
    refine (peek_yields 1).bind ?_
    rintro _ rfl
    refine hchosen.bind ?_
    rintro _ rfl
    refine advance_yields.bind fun _ _ => ?_
    first
    | exact .pure rfl
    | exact advance_yields.bind fun _ _ => .pure rfl

theorem referenceClause_onDelete (a : ReferentialAction) :
    Yields referenceClause (actionTokens .DELETE (some a) ++ ws)
      (fun o => o = some (.onDelete a)) ws := by
  refine (peek_yields 1).bind ?_
  rintro _ rfl
  refine lexeme_yields.bind ?_
  rintro _ rfl
  refine advance_yields.bind fun _ _ => advance_yields.bind fun _ _ => ?_
  refine (referentialAction_yields a).bind ?_
  rintro _ rfl
  exact .pure rfl

theorem referenceClause_onUpdate (a : ReferentialAction) :
    Yields referenceClause (actionTokens .UPDATE (some a) ++ ws)
      (fun o => o = some (.onUpdate a)) ws := by
  refine (peek_yields 1).bind ?_
  rintro _ rfl
  refine lexeme_yields.bind ?_
  rintro _ rfl
  refine lexeme_yields.bind ?_
  rintro _ rfl
  refine advance_yields.bind fun _ _ => advance_yields.bind fun _ _ => ?_
  refine (referentialAction_yields a).bind ?_
  rintro _ rfl
  exact .pure rfl

theorem referenceClause_none :
    Yields referenceClause (semicolonToken :: ws) (· = none) (semicolonToken :: ws) := by
  refine (peek_yields 1).bind fun next _ => ?_
  refine lexeme_yields.bind ?_
  rintro _ rfl
  refine lexeme_yields.bind ?_
  rintro _ rfl
  refine lexeme_yields.bind ?_
  rintro _ rfl
  refine lexeme_yields.bind ?_
  rintro _ rfl
  refine (show Yields (eatWord "deferrable") _ (· = false) _ from eatIf_false rfl).bind ?_
  rintro _ rfl
  refine lexeme_yields.bind ?_
  rintro _ rfl
  exact .pure rfl

/-- What the clauses behind a reference say, that about deleting first. -/
theorem referenceClauses_yields (onDelete onUpdate : Option ReferentialAction) :
    Yields (repeated referenceClause)
      (actionTokens .DELETE onDelete ++ (actionTokens .UPDATE onUpdate ++ semicolonToken :: ws))
      (· = onDelete.toList.map .onDelete ++ onUpdate.toList.map .onUpdate) (semicolonToken :: ws) := by
  have hupdate : Yields (repeated referenceClause)
      (actionTokens .UPDATE onUpdate ++ semicolonToken :: ws)
      (· = onUpdate.toList.map .onUpdate) (semicolonToken :: ws) := by
    cases onUpdate with
    | none => exact listed_none referenceClause_none
    | some a =>
      refine (listed_cons (P := (· = .onUpdate a)) ((referenceClause_onUpdate a).mono ?_) (.pure rfl)
        ?_ (listed_none referenceClause_none)).mono ?_
      · rintro _ rfl
        exact ⟨_, rfl, rfl⟩
      · simp only [actionTokens, List.length_append, List.length_cons]
        omega
      · rintro _ ⟨_, _, rfl, rfl, rfl⟩
        rfl
  cases onDelete with
  | none => exact hupdate
  | some a =>
    refine (listed_cons (P := (· = .onDelete a)) ((referenceClause_onDelete a).mono ?_) (.pure rfl)
      ?_ hupdate).mono ?_
    · rintro _ rfl
      exact ⟨_, rfl, rfl⟩
    · simp only [actionTokens, List.length_append, List.length_cons]
      omega
    · rintro _ ⟨_, _, rfl, rfl, rfl⟩
      rfl

/-- What is read of a reference. -/
structure Reference.Says (r : Reference) (f : ForeignKeyRef) : Prop where
  table : f.table.values = nameParts r.entity.space r.entity.name
  columns : f.columns.map (·.value) = r.columns
  onDelete : f.onDelete = r.onDelete
  onUpdate : f.onUpdate = r.onUpdate

theorem references_yields (r : Reference) (hcolumns : r.columns ≠ []) :
    Yields references (r.tokens ++ semicolonToken :: ws) r.Says (semicolonToken :: ws) := by
  rw [Reference.tokens, List.cons_append, List.append_assoc, List.append_assoc, List.append_assoc]
  refine expectKeyword_yields.bind fun _ _ => ?_
  refine (qualifiedName_yields nameParts_ne_nil (by simp [openToken])).bind fun table htable => ?_
  refine lexeme_yields.bind ?_
  rintro _ rfl
  refine (identList_yields hcolumns).bind fun columns hcols => ?_
  refine (referenceClauses_yields r.onDelete r.onUpdate).bind ?_
  rintro _ rfl
  refine .pure ⟨htable, hcols, ?_, ?_⟩
  · cases r.onDelete <;> cases r.onUpdate <;> rfl
  · cases r.onDelete <;> cases r.onUpdate <;> rfl

-- ---------------------------------------------------------------------------
-- Constraints of tables
-- ---------------------------------------------------------------------------

/-- What is read of a clause. -/
def Clause.Says : Clause → TableRule → Prop
  | key columns, rule => ∃ ids, rule = .primaryKey ids ∧ ids.map (·.value) = columns
  | unique columns, rule => ∃ ids, rule = .unique ids ∧ ids.map (·.value) = columns
  | check predicate, rule =>
    ∃ e, rule = .check e ∧ e.text = predicate ∧ e.columns = columnsOf predicate
  | foreignKey columns reference, rule =>
    ∃ ids target, rule = .foreignKey ids target ∧ ids.map (·.value) = columns ∧ reference.Says target

/-- Clauses that can be read again. -/
def Clause.Fits : Clause → Prop
  | key columns | unique columns => columns ≠ []
  | check predicate => ExpressionText (fun _ => false) predicate
  | foreignKey columns reference => columns ≠ [] ∧ reference.columns ≠ []

/-- What may follow a clause: nothing more may be said about a foreign key. -/
def Clause.Precedes : Clause → Token → Prop
  | foreignKey .., w => w = semicolonToken
  | _, _ => True

theorem optionalIndexName_yields :
    Yields optionalIndexName (openToken :: ws) (· = none) (openToken :: ws) := by
  refine lexeme_yields.bind ?_
  rintro _ rfl
  exact .pure rfl

theorem tableRule_yields {c : Clause} (h : c.Fits) (hw : c.Precedes w) :
    Yields (tableRule named) (c.tokens ++ w :: ws)
      (fun o => ∃ rule, o = some (rule, none) ∧ c.Says rule) (w :: ws) := by
  cases c with
  | key columns =>
    refine lexeme_yields.bind ?_
    rintro _ rfl
    refine advance_yields.bind fun _ _ => expectKeyword_yields.bind fun _ _ => ?_
    exact (identList_yields h).bind fun ids hids => .pure ⟨_, rfl, ids, rfl, hids⟩
  | unique columns =>
    have hkey : openToken.lexeme ≠ .keyword .KEY := by simp [openToken]
    have hindex : openToken.lexeme ≠ .keyword .INDEX := by simp [openToken]
    refine lexeme_yields.bind ?_
    rintro _ rfl
    refine advance_yields.bind fun _ _ => (eatKeyword_other hkey).bind ?_
    rintro _ rfl
    refine (skipKeyword_other hindex).bind fun _ _ => optionalIndexName_yields.bind ?_
    rintro _ rfl
    exact (identList_yields h).bind fun ids hids => .pure ⟨_, rfl, ids, rfl, hids⟩
  | check predicate =>
    rw [Clause.tokens, List.cons_append, List.cons_append, List.append_assoc]
    refine lexeme_yields.bind ?_
    rintro _ rfl
    refine advance_yields.bind fun _ _ => ?_
    exact (parenthesized_yields h).bind fun e he => .pure ⟨_, rfl, e, rfl, he⟩
  | foreignKey columns reference =>
    obtain rfl : w = semicolonToken := hw
    rw [Clause.tokens, List.cons_append, List.cons_append, List.append_assoc]
    refine lexeme_yields.bind ?_
    rintro _ rfl
    refine advance_yields.bind fun _ _ => expectKeyword_yields.bind fun _ _ => ?_
    refine optionalIndexName_yields.bind ?_
    rintro _ rfl
    refine (identList_yields h.1).bind fun ids hids => ?_
    exact (references_yields reference h.2).bind fun target htarget =>
      .pure ⟨_, rfl, ids, target, rfl, hids, htarget⟩

/-- What is read of a constraint. -/
structure Constraint.Says (c : Constraint) (t : TableConstraint) : Prop where
  name : nameOf t.name = c.name
  rule : c.clause.Says t.rule

theorem constraintName_yields (name : Option String) (hw : w.lexeme ≠ .keyword .CONSTRAINT) :
    Yields constraintName (constraintNameTokens name ++ w :: ws) (fun id => nameOf id = name)
      (w :: ws) := by
  cases name with
  | none =>
    refine (eatKeyword_other hw).bind ?_
    rintro _ rfl
    exact .pure rfl
  | some name =>
    refine eatKeyword_yields.bind ?_
    rintro _ rfl
    exact (ident_yields name).bind fun id hid => .pure (congrArg some hid)

theorem tableConstraint_yields {c : Constraint} (h : c.clause.Fits) (hw : c.clause.Precedes w) :
    Yields tableConstraint (c.tokens ++ w :: ws) (fun o => ∃ t, o = some t ∧ c.Says t) (w :: ws) := by
  rw [Constraint.tokens, List.append_assoc]
  refine tokens_yields.bind fun start _ => ?_
  have hclause : ∃ v vs, c.clause.tokens ++ w :: ws = v :: vs ∧ v.lexeme ≠ .keyword .CONSTRAINT := by
    cases c.clause <;> exact ⟨_, _, rfl, by simp [keyToken]⟩
  obtain ⟨v, vs, hv, hne⟩ := hclause
  rw [hv]
  refine (constraintName_yields c.name hne).bind fun id hid => ?_
  rw [← hv]
  refine (tableRule_yields h hw).bind ?_
  rintro _ ⟨rule, rfl, hrule⟩
  refine positionSince_yields.bind fun position _ => .pure ⟨_, rfl, ?_, hrule⟩
  -- Only an index would replace the name.
  cases hc : c.clause with
  | key columns =>
    rw [hc] at hrule
    obtain ⟨ids, rfl, -⟩ := hrule
    simpa using hid
  | unique columns =>
    rw [hc] at hrule
    obtain ⟨ids, rfl, -⟩ := hrule
    simpa using hid
  | check predicate =>
    rw [hc] at hrule
    obtain ⟨e, rfl, -⟩ := hrule
    simpa using hid
  | foreignKey columns reference =>
    rw [hc] at hrule
    obtain ⟨ids, target, rfl, -⟩ := hrule
    simpa using hid

-- ---------------------------------------------------------------------------
-- Writing
-- ---------------------------------------------------------------------------

def actionText (event : Keyword) : Option ReferentialAction → String
  | none => ""
  | some action => " ON " ++ event.text ++ " " ++ Text.uppercase action.text

def columnListText (columns : List String) : String :=
  Flavor.postgres.columnList (columns.map fun name => [name])

def Reference.text (r : Reference) : String :=
  "REFERENCES " ++ Flavor.postgres.qualifiedEntity r.entity ++ " (" ++ columnListText r.columns ++ ")" ++
    actionText .DELETE r.onDelete ++ actionText .UPDATE r.onUpdate

def Clause.text : Clause → String
  | key columns => "PRIMARY KEY (" ++ columnListText columns ++ ")"
  | unique columns => "UNIQUE (" ++ columnListText columns ++ ")"
  | check predicate => "CHECK (" ++ predicate ++ ")"
  | foreignKey columns reference => "FOREIGN KEY (" ++ columnListText columns ++ ") " ++ reference.text

def Constraint.text (c : Constraint) : String :=
  Flavor.postgres.constraintName c.name ++ c.clause.text

theorem Constraint.text_key (name : Option String) (columns : List String) :
    Constraint.text ⟨name, .key columns⟩ =
      Flavor.postgres.constraintName name ++ ("PRIMARY KEY (" ++ columnListText columns ++ ")") := rfl

theorem Constraint.text_unique (name : Option String) (columns : List String) :
    Constraint.text ⟨name, .unique columns⟩ =
      Flavor.postgres.constraintName name ++ ("UNIQUE (" ++ columnListText columns ++ ")") := rfl

theorem Constraint.text_check (name : Option String) (predicate : String) :
    Constraint.text ⟨name, .check predicate⟩ =
      Flavor.postgres.constraintName name ++ ("CHECK (" ++ predicate ++ ")") := rfl

theorem lexes_constraintName (name : Option String) :
    Lexes (Flavor.postgres.constraintName name).toList rest (constraintNameTokens name) := by
  cases name with
  | none => exact .nil
  | some name =>
    rw [Flavor.constraintName, String.toList_append, String.toList_append, List.append_assoc]
    refine (lexes_phrase [.CONSTRAINT]).append (.append (lexes_name name ?_) lexes_blank)
    simp [Stops]

theorem lexes_action (event : Keyword) (action : Option ReferentialAction) (hrest : Stops rest) :
    Lexes (actionText event action).toList rest (actionTokens event action) := by
  cases action with
  | none => exact .nil
  | some action =>
    have hwords : (actionText event (some action)).toList =
        (.ON :: event :: actionWords action).flatMap fun k => ' ' :: k.text.toList := by
      have haction : ' ' :: (Text.uppercase action.text).toList =
          (actionWords action).flatMap fun k => ' ' :: k.text.toList := by
        cases action <;> decide
      rw [List.flatMap_cons, List.flatMap_cons, ← haction, actionText]
      simp only [String.toList_append, List.append_assoc, List.cons_append]
      rfl
    rw [hwords]
    exact lexes_spaced _ hrest

/-- An action begins with a space. -/
theorem stops_action (event : Keyword) (action : Option ReferentialAction) (hrest : Stops rest) :
    Stops ((actionText event action).toList ++ rest) := by
  cases action with
  | none => exact hrest
  | some action =>
    obtain ⟨more, hmore⟩ : ∃ more, (actionText event (some action)).toList = ' ' :: more := by
      show ∃ more, (" ON " ++ event.text ++ " " ++ Text.uppercase action.text).toList = _
      rw [String.toList_append, String.toList_append, String.toList_append]
      exact ⟨_, rfl⟩
    rw [hmore]
    simp [Stops]

theorem lexes_reference (r : Reference) (hrest : Stops rest) :
    Lexes (r.text).toList rest r.tokens := by
  have hhead : ∀ rest, Lexes "REFERENCES ".toList rest [keyToken .REFERENCES] :=
    fun _ => lexes_phrase [.REFERENCES]
  have hopen : ∀ rest, Lexes " (".toList rest [openToken] := fun _ => lexes_blank.append lexes_open
  have hactions := (lexes_action .DELETE r.onDelete (stops_action .UPDATE r.onUpdate hrest)).append
    (lexes_action .UPDATE r.onUpdate hrest)
  delta Reference.text
  simp only [String.toList_append, List.append_assoc]
  refine Lexes.append (hhead _) (Lexes.append (lexes_qualified _ _ (by simp [Stops])) ?_)
  rw [columnTokens, List.cons_append, List.append_assoc]
  exact Lexes.append (hopen _)
    (Lexes.append (lexes_columnList _ (by simp [Stops])) (Lexes.append lexes_close hactions))

/-- Clauses whose text is cut into their tokens. -/
def Clause.Even : Clause → Prop
  | check predicate => EvenText predicate
  | _ => True

theorem Clause.Fits.even {c : Clause} (h : c.Fits) : c.Even := by
  cases c with
  | check predicate => exact h.toEvenText
  | _ => trivial

theorem lexes_clause {c : Clause} (h : c.Even) (hrest : Stops rest) :
    Lexes c.text.toList rest c.tokens := by
  cases c with
  | key columns =>
    have hhead : ∀ rest, Lexes "PRIMARY KEY (".toList rest
        [keyToken .PRIMARY, keyToken .KEY, openToken] :=
      fun _ => (lexes_phrase [.PRIMARY, .KEY]).append lexes_open
    show Lexes ("PRIMARY KEY (" ++ columnListText columns ++ ")").toList rest _
    rw [String.toList_append, String.toList_append, List.append_assoc]
    exact Lexes.append (hhead _) ((lexes_columnList columns (by simp [Stops])).append lexes_close)
  | unique columns =>
    have hhead : ∀ rest, Lexes "UNIQUE (".toList rest [keyToken .UNIQUE, openToken] :=
      fun _ => (lexes_phrase [.UNIQUE]).append lexes_open
    show Lexes ("UNIQUE (" ++ columnListText columns ++ ")").toList rest _
    rw [String.toList_append, String.toList_append, List.append_assoc]
    exact Lexes.append (hhead _) ((lexes_columnList columns (by simp [Stops])).append lexes_close)
  | check predicate =>
    have hhead : ∀ rest, Lexes "CHECK (".toList rest [keyToken .CHECK, openToken] :=
      fun _ => (lexes_phrase [.CHECK]).append lexes_open
    show Lexes ("CHECK (" ++ predicate ++ ")").toList rest _
    rw [String.toList_append, String.toList_append, List.append_assoc]
    exact Lexes.append (hhead _) ((lexes_evenText h (by simp [Closes])).append lexes_close)
  | foreignKey columns reference =>
    have hhead : ∀ rest, Lexes "FOREIGN KEY (".toList rest
        [keyToken .FOREIGN, keyToken .KEY, openToken] :=
      fun _ => (lexes_phrase [.FOREIGN, .KEY]).append lexes_open
    have hclose : ∀ rest, Lexes ") ".toList rest [closeToken] :=
      fun _ => lexes_close.append lexes_blank
    show Lexes ("FOREIGN KEY (" ++ columnListText columns ++ ") " ++ reference.text).toList rest
      ([keyToken .FOREIGN, keyToken .KEY, openToken] ++
        ([commaToken].intercalate (columns.map fun name => [nameToken name]) ++ [closeToken] ++
          reference.tokens))
    rw [String.toList_append, String.toList_append, String.toList_append, List.append_assoc,
      List.append_assoc, List.append_assoc]
    exact Lexes.append (hhead _) (Lexes.append (lexes_columnList columns (by simp [Stops]))
      (Lexes.append (hclose _) (lexes_reference reference hrest)))

theorem lexes_constraint {c : Constraint} (h : c.clause.Even) (hrest : Stops rest) :
    Lexes c.text.toList rest c.tokens := by
  rw [Constraint.text, String.toList_append]
  exact (lexes_constraintName c.name).append (lexes_clause h hrest)

end SchemaDialects.Sql
