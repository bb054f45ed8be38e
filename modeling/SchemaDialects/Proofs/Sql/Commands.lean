import SchemaDialects.Proofs.Sql.Columns
import SchemaDialects.Proofs.Sql.Indexes
import SchemaDialects.Sql.Script

/-!
# Commands in written text

The statements of the writer. Each of them is read as a statement that says the same (`Says`), whatever
follows its semicolon.
-/

namespace SchemaDialects.Sql

open Production

/-- What is said about a type behind its name. -/
inductive TypeBody
  | shell
  | enumeration (values : List String)
  | composite (fields : List Field)

inductive Command
  | type (space : Namespace) (name : String) (body : TypeBody)
  | table (id : EntityName) (columns : List Column) (constraints : List Constraint)
  | index (form : IndexForm)
  | tableDoc (id : EntityName) (doc : String)
  | columnDoc (id : EntityName) (column doc : String)
  | key (id : EntityName) (constraint : Constraint)

def literalToken (text : String) : Token := ⟨.str text, stringLiteral text, .unknown⟩

namespace TypeBody

def tokens : TypeBody → List Token
  | shell => []
  | enumeration values => keyToken .AS :: keyToken .ENUM :: openToken ::
      ([commaToken].intercalate (values.map fun v => [literalToken v]) ++ [closeToken])
  | composite fields => keyToken .AS :: openToken ::
      ([commaToken].intercalate (fields.map Field.tokens) ++ [closeToken])

/-- Types that can be read again. -/
def Fits : TypeBody → Prop
  | shell => True
  | enumeration values => ∀ v ∈ values, '\\' ∉ v.toList
  | composite fields => ∀ f ∈ fields, f.Fits

/-- What is read of a type. -/
def Says : TypeBody → TypeDefinition → Prop
  | shell, definition => definition = .shell
  | enumeration values, definition => definition = .enumeration values
  | composite fields, definition =>
    ∃ columns, definition = .composite columns ∧ List.Forall₂ Field.Says fields columns

end TypeBody

def tableParts (columns : List Column) (constraints : List Constraint) : List Part :=
  columns.map .column ++ constraints.map .constraint

namespace Command

/-- The tokens in front of the semicolon. -/
def tokens : Command → List Token
  | type space name body =>
    keyToken .CREATE :: keyToken .TYPE :: (dottedTokens (nameParts space name) ++ body.tokens)
  | table id columns constraints =>
    keyToken .CREATE :: keyToken .TABLE :: (entityTokens id ++ openToken ::
      ([commaToken].intercalate ((tableParts columns constraints).map Part.tokens) ++ [closeToken]))
  | index form => keyToken .CREATE :: form.tokens
  | tableDoc id doc =>
    keyToken .COMMENT :: keyToken .ON :: keyToken .TABLE ::
      (entityTokens id ++ [keyToken .IS, literalToken doc])
  | columnDoc id column doc =>
    keyToken .COMMENT :: keyToken .ON :: keyToken .COLUMN ::
      (dottedTokens (nameParts id.space id.name ++ [column]) ++ [keyToken .IS, literalToken doc])
  | key id constraint =>
    keyToken .ALTER :: keyToken .TABLE :: (entityTokens id ++ keyToken .ADD :: constraint.tokens)

/-- Commands that can be read again. -/
def Fits : Command → Prop
  | type _ _ body => body.Fits
  | table _ columns constraints => ∀ p ∈ Sql.tableParts columns constraints, p.Fits
  | index form => form.Fits
  | tableDoc _ doc | columnDoc _ _ doc => '\\' ∉ doc.toList
  | key _ constraint => constraint.clause.Fits ∧ constraint.clause.Precedes semicolonToken

/-- What is read of a command. -/
def Says : Command → Statement → Prop
  | type space name body, .createType s => s.name.values = nameParts space name ∧ body.Says s.definition
  | table id columns constraints, .createTable s =>
    s.name.values = nameParts id.space id.name ∧ List.Forall₂ Column.Says columns s.columns ∧
      List.Forall₂ Constraint.Says constraints s.constraints
  | index form, .createIndex s => form.Says s
  | tableDoc id doc, .commentOn s =>
    ∃ name, s.target = .table name ∧ name.values = nameParts id.space id.name ∧ s.text = some doc
  | columnDoc id column doc, .commentOn s =>
    ∃ name, s.target = .column name ∧ name.values = nameParts id.space id.name ++ [column] ∧
      s.text = some doc
  | key id constraint, .alterTable s =>
    s.table.values = nameParts id.space id.name ∧
      ∃ c, s.actions = [.addConstraint c] ∧ constraint.Says c
  | _, _ => False

end Command

-- ---------------------------------------------------------------------------
-- Types
-- ---------------------------------------------------------------------------

theorem enumValue_yields (value : String) :
    Yields enumValue (literalToken value :: ws) (fun o => ∃ v, o = some v ∧ v = value) ws := by
  refine lexeme_yields.bind ?_
  rintro _ rfl
  exact advance_yields.bind fun _ _ => .pure ⟨_, rfl, rfl⟩

theorem enumValues_yields (values : List String) :
    Yields (listed enumValue (eat .comma))
      ([commaToken].intercalate (values.map fun v => [literalToken v]) ++ closeToken :: ws)
      (· = values) (closeToken :: ws) := by
  by_cases hne : values = []
  · subst hne
    have hnone : Yields enumValue (closeToken :: ws) (· = none) (closeToken :: ws) := by
      refine lexeme_yields.bind ?_
      rintro _ rfl
      exact .pure rfl
    exact listed_none hnone
  · refine Yields.mono (listed_yields (F := fun _ => True) hne
      (fun value _ us _ => enumValue_yields value) (fun us => ⟨trivial, eat_yields rfl⟩)
      ⟨trivial, eat_other (by simp [closeToken])⟩) fun read hread => ?_
    exact List.forall₂_eq_eq_eq ▸ hread.flip.imp fun _ _ h => h

theorem compositeFields_yields {fields : List Field} (h : ∀ f ∈ fields, f.Fits) :
    Yields (listed compositeField (eat .comma))
      ([commaToken].intercalate (fields.map Field.tokens) ++ closeToken :: ws)
      (List.Forall₂ Field.Says fields) (closeToken :: ws) := by
  by_cases hne : fields = []
  · subst hne
    have hnone : Yields compositeField (closeToken :: ws) (· = none) (closeToken :: ws) := by
      refine lexeme_yields.bind ?_
      rintro _ rfl
      exact .pure rfl
    refine Yields.mono (listed_none hnone) ?_
    rintro _ rfl
    exact .nil
  · refine listed_yields (F := fun us => ∃ w vs, us = w :: vs ∧ EndsPart w) hne ?_
      (fun us => ⟨⟨_, us, rfl, .inl rfl⟩, eat_yields rfl⟩)
      ⟨⟨_, ws, rfl, .inr rfl⟩, eat_other (by simp [closeToken])⟩
    rintro f hf _ ⟨w, vs, rfl, hw⟩
    exact compositeField_yields (h f hf) hw

theorem createType_yields (space : Namespace) (name : String) {body : TypeBody} (h : body.Fits) :
    Yields (createType script start)
      (keyToken .TYPE :: (dottedTokens (nameParts space name) ++ (body.tokens ++ semicolonToken :: ws)))
      (Command.type space name body).Says (semicolonToken :: ws) := by
  cases body with
  | shell =>
    refine expectKeyword_yields.bind fun _ _ => ?_
    refine (qualifiedName_yields nameParts_ne_nil (by simp [semicolonToken])).bind fun q hq => ?_
    refine lexeme_yields.bind ?_
    rintro _ rfl
    exact positionSince_yields.bind fun position _ => .pure ⟨hq, rfl⟩
  | enumeration values =>
    rw [TypeBody.tokens, List.cons_append, List.cons_append, List.cons_append, List.append_assoc]
    refine expectKeyword_yields.bind fun _ _ => ?_
    refine (qualifiedName_yields nameParts_ne_nil (by simp [keyToken])).bind fun q hq => ?_
    refine lexeme_yields.bind ?_
    rintro _ rfl
    refine eatKeyword_yields.bind ?_
    rintro _ rfl
    refine eatKeyword_yields.bind ?_
    rintro _ rfl
    refine (expect_yields rfl).bind fun _ _ => ?_
    refine (enumValues_yields values).bind ?_
    rintro _ rfl
    refine (expect_yields rfl).bind fun _ _ => ?_
    exact positionSince_yields.bind fun position _ => .pure ⟨hq, rfl⟩
  | composite fields =>
    rw [TypeBody.tokens, List.cons_append, List.cons_append, List.append_assoc]
    refine expectKeyword_yields.bind fun _ _ => ?_
    refine (qualifiedName_yields nameParts_ne_nil (by simp [keyToken])).bind fun q hq => ?_
    refine lexeme_yields.bind ?_
    rintro _ rfl
    refine eatKeyword_yields.bind ?_
    rintro _ rfl
    refine (eatKeyword_other (by simp [openToken])).bind ?_
    rintro _ rfl
    refine (eat_yields rfl).bind ?_
    rintro _ rfl
    refine (compositeFields_yields h).bind fun columns hcolumns => ?_
    refine (expect_yields rfl).bind fun _ _ => ?_
    exact positionSince_yields.bind fun position _ => .pure ⟨hq, columns, rfl, hcolumns⟩

-- ---------------------------------------------------------------------------
-- Tables
-- ---------------------------------------------------------------------------

/-- What is read of the parts of a table, columns and constraints apart. -/
theorem says_of_parts {columns : List Column} {constraints : List Constraint}
    {read : List (TableConstraint ⊕ ColumnDef)}
    (h : List.Forall₂ Part.Says (tableParts columns constraints) read) :
    ∃ defs rules, read = defs.map .inr ++ rules.map .inl ∧
      List.Forall₂ Column.Says columns defs ∧ List.Forall₂ Constraint.Says constraints rules := by
  induction columns generalizing read with
  | nil =>
    induction constraints generalizing read with
    | nil =>
      cases h
      exact ⟨[], [], rfl, .nil, .nil⟩
    | cons c constraints ih =>
      cases h with
      | @cons _ p _ ps hfirst hrest =>
        obtain ⟨defs, rules, rfl, hdefs, hrules⟩ := ih hrest
        cases hdefs
        cases p with
        | inl t => exact ⟨[], t :: rules, rfl, .nil, .cons hfirst hrules⟩
        | inr d => exact hfirst.elim
  | cons c columns ih =>
    cases h with
    | @cons _ p _ ps hfirst hrest =>
      obtain ⟨defs, rules, rfl, hdefs, hrules⟩ := ih hrest
      cases p with
      | inl t => exact hfirst.elim
      | inr d => exact ⟨d :: defs, rules, rfl, .cons hfirst hdefs, hrules⟩

/-- No part of a table begins with the end of the table. -/
theorem part_head (p : Part) : ∃ v vs, p.tokens = v :: vs ∧ v.lexeme ≠ .closeParen := by
  cases p with
  | column c =>
    refine ⟨nameToken c.name, _, rfl, ?_⟩
    rcases nameToken_lexeme c.name with h | h <;> simp [h]
  | constraint c =>
    obtain ⟨name, clause⟩ := c
    cases name <;> cases clause <;> exact ⟨_, _, rfl, by simp [keyToken]⟩

theorem createTable_yields {id : EntityName} {columns : List Column} {constraints : List Constraint}
    (h : ∀ p ∈ tableParts columns constraints, p.Fits) :
    Yields (createTable script start)
      (keyToken .TABLE :: (entityTokens id ++ openToken ::
        ([commaToken].intercalate ((tableParts columns constraints).map Part.tokens) ++
          closeToken :: semicolonToken :: ws)))
      (Command.table id columns constraints).Says (semicolonToken :: ws) := by
  obtain ⟨name, more, hmore⟩ := entityTokens_head id (openToken ::
    ([commaToken].intercalate ((tableParts columns constraints).map Part.tokens) ++
      closeToken :: semicolonToken :: ws))
  refine expectKeyword_yields.bind fun _ _ => ?_
  rw [hmore]
  refine (ifNotExists_other nameToken_ne_keyword).bind fun _ _ => ?_
  rw [← hmore]
  refine (qualifiedName_yields nameParts_ne_nil (by simp [openToken])).bind fun q hq => ?_
  refine (eat_yields rfl).bind ?_
  rintro _ rfl
  by_cases hne : tableParts columns constraints = []
  · obtain ⟨hcolumns, hconstraints⟩ := List.append_eq_nil_iff.mp hne
    obtain rfl := List.map_eq_nil_iff.mp hcolumns
    obtain rfl := List.map_eq_nil_iff.mp hconstraints
    refine (eat_yields rfl).bind ?_
    rintro _ rfl
    refine Yields.bind (.pure rfl) ?_
    rintro _ rfl
    refine positionSince_yields.bind fun position _ => skipStatement_yields.bind fun _ _ => ?_
    exact .pure ⟨hq, .nil, .nil⟩
  · obtain ⟨part, parts, hparts⟩ := List.exists_cons_of_ne_nil hne
    obtain ⟨v, vs, hv, hclose⟩ := part_head part
    obtain ⟨rest, hrest⟩ := intercalate_cons_append [commaToken] part.tokens (parts.map Part.tokens)
      (closeToken :: semicolonToken :: ws)
    have hread : Yields (separated tablePart anotherPart)
        ([commaToken].intercalate ((tableParts columns constraints).map Part.tokens) ++
          closeToken :: semicolonToken :: ws)
        (List.Forall₂ Part.Says (tableParts columns constraints)) (semicolonToken :: ws) :=
      tableParts_yields hne h
    rw [hparts, List.map_cons, hrest, hv] at hread ⊢
    refine (eat_other hclose).bind ?_
    rintro _ rfl
    refine hread.bind fun read hread => ?_
    rw [← hparts] at hread
    obtain ⟨defs, rules, rfl, hdefs, hrules⟩ := says_of_parts hread
    refine positionSince_yields.bind fun position _ => skipStatement_yields.bind fun _ _ => ?_
    refine .pure ⟨hq, ?_, ?_⟩
    · simpa [List.filterMap_append, List.filterMap_map] using hdefs
    · simpa [List.filterMap_append, List.filterMap_map] using hrules

-- ---------------------------------------------------------------------------
-- Comments and foreign keys
-- ---------------------------------------------------------------------------

theorem commentTarget_yields {form : QualifiedName → CommentTarget} (hne : parts ≠ []) :
    Yields (some <$> form <$> qualifiedName what) (dottedTokens parts ++ keyToken .IS :: ws)
      (fun t => ∃ q, t = some (form q) ∧ q.values = parts) (keyToken .IS :: ws) := by
  have hname : Yields (qualifiedName what) (dottedTokens parts ++ keyToken .IS :: ws)
      (fun q => q.values = parts) (keyToken .IS :: ws) :=
    qualifiedName_yields hne (by simp [keyToken])
  have hform : Yields (form <$> qualifiedName what) (dottedTokens parts ++ keyToken .IS :: ws)
      (fun t => ∃ q, t = form q ∧ q.values = parts) (keyToken .IS :: ws) :=
    hname.map fun q hq => ⟨q, rfl, hq⟩
  refine hform.map ?_
  rintro _ ⟨q, rfl, hq⟩
  exact ⟨q, rfl, hq⟩

theorem tableDoc_yields {id : EntityName} {doc : String} :
    Yields (commentOn script start) ((Command.tableDoc id doc).tokens ++ semicolonToken :: ws)
      (Command.tableDoc id doc).Says (semicolonToken :: ws) := by
  rw [Command.tokens, List.cons_append, List.cons_append, List.cons_append, List.append_assoc]
  refine expectKeyword_yields.bind fun _ _ => expectKeyword_yields.bind fun _ _ => ?_
  refine eatKeyword_yields.bind ?_
  rintro _ rfl
  refine (commentTarget_yields nameParts_ne_nil).bind ?_
  rintro _ ⟨q, rfl, hq⟩
  refine expectKeyword_yields.bind fun _ _ => lexeme_yields.bind ?_
  rintro _ rfl
  refine Yields.bind (.pure rfl) ?_
  rintro _ rfl
  refine advance_yields.bind fun _ _ => positionSince_yields.bind fun position _ => ?_
  exact .pure ⟨q, rfl, hq, rfl⟩

theorem columnDoc_yields {id : EntityName} {column doc : String} :
    Yields (commentOn script start)
      ((Command.columnDoc id column doc).tokens ++ semicolonToken :: ws)
      (Command.columnDoc id column doc).Says (semicolonToken :: ws) := by
  rw [Command.tokens, List.cons_append, List.cons_append, List.cons_append, List.append_assoc]
  refine expectKeyword_yields.bind fun _ _ => expectKeyword_yields.bind fun _ _ => ?_
  refine (eatKeyword_other (by simp [keyToken])).bind ?_
  rintro _ rfl
  refine eatKeyword_yields.bind ?_
  rintro _ rfl
  refine (commentTarget_yields (by simp)).bind ?_
  rintro _ ⟨q, rfl, hq⟩
  refine expectKeyword_yields.bind fun _ _ => lexeme_yields.bind ?_
  rintro _ rfl
  refine Yields.bind (.pure rfl) ?_
  rintro _ rfl
  refine advance_yields.bind fun _ _ => positionSince_yields.bind fun position _ => ?_
  exact .pure ⟨q, rfl, hq, rfl⟩

theorem alterAction_yields {c : Constraint} (h : c.clause.Fits)
    (hw : c.clause.Precedes semicolonToken) :
    Yields alterAction (keyToken .ADD :: (c.tokens ++ semicolonToken :: ws))
      (fun a => ∃ t, a = .addConstraint t ∧ c.Says t) (semicolonToken :: ws) := by
  refine tokens_yields.bind fun start _ => eatKeyword_yields.bind ?_
  rintro _ rfl
  refine (tableConstraint_yields h hw).bind ?_
  rintro _ ⟨t, rfl, ht⟩
  exact .pure ⟨t, rfl, ht⟩

theorem alterTable_yields {id : EntityName} {c : Constraint} (h : c.clause.Fits)
    (hw : c.clause.Precedes semicolonToken) :
    Yields alterTable ((Command.key id c).tokens ++ semicolonToken :: ws) (Command.key id c).Says
      (semicolonToken :: ws) := by
  have hactions : Yields (commaSeparated alterAction)
      (keyToken .ADD :: (c.tokens ++ semicolonToken :: ws))
      (fun l => ∃ t, l = [.addConstraint t] ∧ c.Says t) (semicolonToken :: ws) := by
    refine (listed_last ((alterAction_yields h hw).map fun a ha => ⟨a, rfl, ha⟩)
      (eat_other (by simp [semicolonToken]))).mono ?_
    rintro _ ⟨_, rfl, t, rfl, ht⟩
    exact ⟨t, rfl, ht⟩
  obtain ⟨name, more, hmore⟩ := entityTokens_head id
    (keyToken .ADD :: (c.tokens ++ semicolonToken :: ws))
  rw [Command.tokens, List.cons_append, List.cons_append, List.append_assoc, List.cons_append]
  refine tokens_yields.bind fun start _ => expectKeyword_yields.bind fun _ _ => ?_
  refine expectKeyword_yields.bind fun _ _ => ?_
  rw [hmore]
  refine (eatKeyword_other nameToken_ne_keyword).bind ?_
  rintro _ rfl
  rw [← hmore]
  refine (skipKeyword_entity id).bind fun _ _ => ?_
  refine (qualifiedName_yields nameParts_ne_nil (by simp [keyToken])).bind fun q hq => ?_
  refine hactions.bind ?_
  rintro _ ⟨t, rfl, ht⟩
  exact positionSince_yields.bind fun position _ => .pure ⟨hq, t, rfl, ht⟩

-- ---------------------------------------------------------------------------
-- Statements
-- ---------------------------------------------------------------------------

/-- A keyword behind `CREATE` is neither the keyword nor the word for something temporary. -/
theorem create_yields {k : Keyword} (hk : k ≠ .TEMPORARY)
    (h : Yields (createTable script start) (keyToken k :: ws) Q vs ∧ k = .TABLE ∨
      Yields (createType script start) (keyToken k :: ws) Q vs ∧ k = .TYPE ∨
      Yields (createIndex start) (keyToken k :: ws) Q vs ∧ (k = .UNIQUE ∨ k = .INDEX)) :
    Yields (create script start) (keyToken .CREATE :: keyToken k :: ws) Q vs := by
  refine expectKeyword_yields.bind fun _ _ => (eatKeyword_other (by simpa [keyToken])).bind ?_
  rintro _ rfl
  refine (skipWord_other rfl).bind fun _ _ => lexeme_yields.bind ?_
  rintro _ rfl
  rcases h with ⟨h, rfl⟩ | ⟨h, rfl⟩ | ⟨h, rfl | rfl⟩
  · exact h
  · exact h
  · exact h
  · exact h

theorem statement_create (h : ∀ start, Yields (create script start) (keyToken .CREATE :: ws) Q vs) :
    Yields (statement script) (keyToken .CREATE :: ws) Q vs := by
  refine tokens_yields.bind fun start _ => lexeme_yields.bind ?_
  rintro _ rfl
  exact (peek_yields 1).bind fun _ _ => h start

theorem statement_yields {c : Command} (h : c.Fits) :
    Yields (statement script) (c.tokens ++ semicolonToken :: ws) c.Says (semicolonToken :: ws) := by
  cases c with
  | type space name body =>
    rw [Command.tokens, List.cons_append, List.cons_append, List.append_assoc]
    exact statement_create fun start => create_yields (by decide)
      (.inr (.inl ⟨createType_yields space name h, rfl⟩))
  | table id columns constraints =>
    rw [Command.tokens, List.cons_append, List.cons_append, List.append_assoc, List.cons_append,
      List.append_assoc]
    exact statement_create fun start => create_yields (by decide)
      (.inl ⟨createTable_yields h, rfl⟩)
  | index form =>
    have hread : ∀ start, Yields (createIndex start) (form.tokens ++ semicolonToken :: ws)
        (Command.index form).Says (semicolonToken :: ws) := by
      intro start
      refine (createIndex_yields h).mono ?_
      rintro _ ⟨s, rfl, hs⟩
      exact hs
    rw [Command.tokens, List.cons_append]
    cases hunique : form.unique with
    | true =>
      simp only [IndexForm.tokens, hunique] at hread ⊢
      exact statement_create fun start => create_yields (by decide)
        (.inr (.inr ⟨hread start, .inl rfl⟩))
    | false =>
      simp only [IndexForm.tokens, hunique] at hread ⊢
      exact statement_create fun start => create_yields (by decide)
        (.inr (.inr ⟨hread start, .inr rfl⟩))
  | tableDoc id doc =>
    refine tokens_yields.bind fun start _ => lexeme_yields.bind ?_
    rintro _ rfl
    refine (peek_yields 1).bind ?_
    rintro _ rfl
    exact tableDoc_yields
  | columnDoc id column doc =>
    refine tokens_yields.bind fun start _ => lexeme_yields.bind ?_
    rintro _ rfl
    refine (peek_yields 1).bind ?_
    rintro _ rfl
    exact columnDoc_yields
  | key id constraint =>
    refine tokens_yields.bind fun start _ => lexeme_yields.bind ?_
    rintro _ rfl
    refine (peek_yields 1).bind ?_
    rintro _ rfl
    exact alterTable_yields h.1 h.2

end SchemaDialects.Sql
