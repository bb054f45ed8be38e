import SchemaDialects.Proofs.Sql.Constraints
import SchemaDialects.Proofs.Sql.Types

/-!
# Indexes in written text

An index as it is written, with its columns as texts: names in the simple case, else expressions.
-/

namespace SchemaDialects.Sql

open Production

structure IndexForm where
  name : Option String
  unique : Bool
  table : EntityName
  columns : List String
  condition : Option String

def conditionTokens : Option String → List Token
  | none => []
  | some condition => keyToken .WHERE :: tokensOf condition

/-- The tokens behind `CREATE`. -/
def IndexForm.tokens (i : IndexForm) : List Token :=
  (if i.unique then [keyToken .UNIQUE] else []) ++ keyToken .INDEX ::
    (i.name.toList.map nameToken ++ keyToken .ON :: (entityTokens i.table ++ openToken ::
      ([commaToken].intercalate (i.columns.map tokensOf) ++ closeToken :: conditionTokens i.condition)))

/-- Indexes that can be read again. -/
structure IndexForm.Fits (i : IndexForm) : Prop where
  name : i.name ≠ some "concurrently"
  nonempty : i.columns ≠ []
  columns : ∀ text ∈ i.columns, ExpressionText endsIndexColumn text
  condition : ∀ text ∈ i.condition, ExpressionText (fun _ => false) text

/-- What is read of an index. -/
structure IndexForm.Says (i : IndexForm) (s : CreateIndex) : Prop where
  name : nameOf s.name = i.name
  unique : s.unique = i.unique
  table : s.table.values = nameParts i.table.space i.table.name
  columns : List.Forall₂ (fun text e => e.text = text ∧ e.columns = columnsOf text) i.columns s.columns
  condition : s.condition.map (·.text) = i.condition

-- ---------------------------------------------------------------------------
-- Reading
-- ---------------------------------------------------------------------------

theorem indexColumn_yields (h : ExpressionText endsIndexColumn text)
    (hw : w = commaToken ∨ w = closeToken) :
    Yields indexColumn (tokensOf text ++ w :: ws) (fun e => e.text = text ∧ e.columns = columnsOf text)
      (w :: ws) := by
  have hends : EndsExpression endsIndexColumn w.lexeme := by
    rcases hw with rfl | rfl
    · exact .inr (.inr rfl)
    · exact .inr (.inl rfl)
  have hother : w.lexeme ≠ .openParen ∧ w.lexeme ≠ .keyword .ASC ∧ w.lexeme ≠ .keyword .DESC ∧
      w.lexeme.isWord "nulls" = false := by
    rcases hw with rfl | rfl <;> simp [commaToken, closeToken, Lexeme.isWord]
  obtain ⟨hopen, hasc, hdesc, hnulls⟩ := hother
  refine (expressionUntil_yields h hends hopen).bind fun e he => ?_
  refine (eatKeyword_other hasc).bind ?_
  rintro _ rfl
  refine (skipKeyword_other hdesc).bind fun _ _ => ?_
  refine (show Yields (eatWord "nulls") _ (· = false) _ from eatIf_false hnulls).bind ?_
  rintro _ rfl
  exact .pure he

theorem indexColumns_yields (hne : columns ≠ [])
    (h : ∀ text ∈ columns, ExpressionText endsIndexColumn text) :
    Yields (commaSeparated indexColumn)
      ([commaToken].intercalate (columns.map tokensOf) ++ closeToken :: ws)
      (List.Forall₂ (fun text e => e.text = text ∧ e.columns = columnsOf text) columns)
      (closeToken :: ws) := by
  refine separated_yields (F := EndsColumn) hne ?_ (fun us => ⟨⟨_, us, rfl, .inl rfl⟩, eat_yields rfl⟩)
    ⟨⟨_, ws, rfl, .inr rfl⟩, eat_other (by simp [closeToken])⟩
  rintro text htext _ ⟨w, vs, rfl, hw⟩
  exact indexColumn_yields (h text htext) hw

theorem indexCondition_yields (ws : List Token)
    (h : ∀ text ∈ condition, ExpressionText (fun _ => false) text) :
    Yields (introduced .WHERE (expressionUntil (fun _ => false) "index predicate"))
      (conditionTokens condition ++ semicolonToken :: ws) (fun o => o.map (·.text) = condition)
      (semicolonToken :: ws) := by
  cases condition with
  | none =>
    refine (eatKeyword_other (by simp [semicolonToken])).bind ?_
    rintro _ rfl
    exact .pure rfl
  | some text =>
    refine eatKeyword_yields.bind ?_
    rintro _ rfl
    refine (expressionUntil_yields (h text rfl) (.inl rfl) (by simp [semicolonToken])).bind
      fun e he => .pure ?_
    rw [Option.map_some, he.1]

/-- Only one name could be taken for a word of the grammar. -/
theorem nameToken_isWord (h : name ≠ word) : (nameToken name).lexeme.isWord word = false := by
  rw [nameToken]
  split
  · rename_i hplain
    rw [Lexeme.isWord, toLower_of_plain (Bool.and_eq_true_iff.mp hplain).1]
    exact beq_eq_false_iff_ne.mpr h
  · rfl

/-- The name of an index, if there is one, in front of what is done with it. -/
theorem indexName_yields (name : Option String) {f : Option Identifier → Production α}
    (hf : ∀ id, nameOf id = name → Yields (f id) (keyToken .ON :: ws) Q us) :
    Yields (do
        if (← lexeme).isKeyword .ON then
          let id ← pure none
          f id
        else
          let id ← some <$> ident "index name"
          f id)
      (name.toList.map nameToken ++ keyToken .ON :: ws) Q us := by
  cases name with
  | none =>
    refine lexeme_yields.bind ?_
    rintro _ rfl
    exact hf none rfl
  | some name =>
    refine lexeme_yields.bind ?_
    rintro _ rfl
    rw [if_neg (by simp [Lexeme.isKeyword, nameToken_ne_keyword])]
    have hname : Yields (some <$> ident "index name") (nameToken name :: keyToken .ON :: ws)
        (fun id => nameOf id = some name) (keyToken .ON :: ws) :=
      (ident_yields name).map fun id hid => congrArg some hid
    exact hname.bind hf

/-- The name, or the keyword behind it, is none of the words that may stand in front of a name. -/
theorem indexName_head (h : name ≠ some "concurrently") (us : List Token) :
    ∃ v vs, name.toList.map nameToken ++ keyToken .ON :: us = v :: vs ∧
      v.lexeme.isWord "concurrently" = false ∧ v.lexeme ≠ .keyword .IF := by
  cases name with
  | none => exact ⟨_, _, rfl, rfl, by simp [keyToken]⟩
  | some name =>
    have hne : name ≠ "concurrently" := fun heq => h (congrArg some heq)
    exact ⟨_, _, rfl, nameToken_isWord hne, nameToken_ne_keyword⟩

theorem indexUnique_yields (unique : Bool) :
    Yields (eatKeyword .UNIQUE)
      ((if unique then [keyToken .UNIQUE] else []) ++ keyToken .INDEX :: ws) (· = unique)
      (keyToken .INDEX :: ws) := by
  cases unique with
  | true => exact eatKeyword_yields
  | false => exact eatKeyword_other (by simp [keyToken])

/-- An index ends with its columns or with its condition. -/
theorem conditionTokens_head (condition : Option String) (ws : List Token) :
    ∃ v vs, conditionTokens condition ++ semicolonToken :: ws = v :: vs ∧
      v.lexeme.isWord "include" = false := by
  cases condition with
  | none => exact ⟨_, _, rfl, rfl⟩
  | some condition => exact ⟨_, _, rfl, rfl⟩

theorem createIndex_yields {i : IndexForm} (h : i.Fits) :
    Yields (createIndex start) (i.tokens ++ semicolonToken :: ws)
      (fun s => ∃ c, s = .createIndex c ∧ i.Says c) (semicolonToken :: ws) := by
  have hparts : nameParts i.table.space i.table.name ≠ [] := nameParts_ne_nil
  rw [IndexForm.tokens]
  simp only [List.append_assoc, List.cons_append]
  generalize htail : entityTokens i.table ++ _ = tail
  obtain ⟨v, vs, hv, hconcurrently, hif⟩ := indexName_head h.name tail
  obtain ⟨u, us, hu, hinclude⟩ := conditionTokens_head i.condition ws
  have hcondition := indexCondition_yields ws h.condition
  refine (indexUnique_yields i.unique).bind ?_
  rintro _ rfl
  refine expectKeyword_yields.bind fun _ _ => ?_
  rw [hv]
  refine (skipWord_other hconcurrently).bind fun _ _ => (ifNotExists_other hif).bind fun _ _ => ?_
  rw [← hv, ← htail]
  refine indexName_yields i.name fun name hname => expectKeyword_yields.bind fun _ _ => ?_
  refine (skipKeyword_entity i.table).bind fun _ _ => ?_
  refine (qualifiedName_yields hparts (by simp [openToken])).bind fun table htable => ?_
  refine (eatKeyword_other (by simp [openToken])).bind ?_
  rintro _ rfl
  refine (expect_yields rfl).bind fun _ _ => ?_
  refine (indexColumns_yields h.nonempty h.columns).bind fun columns hcolumns => ?_
  refine (expect_yields rfl).bind fun _ _ => ?_
  rw [hu] at hcondition ⊢
  refine (show Yields (eatWord "include") _ (· = false) _ from eatIf_false hinclude).bind ?_
  rintro _ rfl
  refine hcondition.bind fun condition hcondition => positionSince_yields.bind fun position _ => ?_
  exact .pure ⟨_, rfl, hname, rfl, htable, hcolumns, hcondition⟩

-- ---------------------------------------------------------------------------
-- Writing
-- ---------------------------------------------------------------------------

def indexNameText : Option String → String
  | none => ""
  | some name => " " ++ Flavor.postgres.quoteName name

def conditionText : Option String → String
  | none => ""
  | some condition => " WHERE " ++ condition

/-- The text behind `CREATE`. -/
def IndexForm.text (i : IndexForm) : String :=
  (if i.unique then "UNIQUE " else "") ++ "INDEX" ++ indexNameText i.name ++ " ON " ++
    Flavor.postgres.qualifiedEntity i.table ++ " (" ++ ", ".intercalate i.columns ++ ")" ++
    conditionText i.condition

theorem lexes_indexName (name : Option String) (hrest : Stops rest) :
    Lexes (indexNameText name).toList rest (name.toList.map nameToken) ∧
      Stops ((indexNameText name).toList ++ rest) := by
  cases name with
  | none => exact ⟨.nil, hrest⟩
  | some name =>
    rw [indexNameText, String.toList_append]
    exact ⟨lexes_blank.append (lexes_name name hrest), stops_cons.mpr List.mem_cons_self⟩

theorem lexes_condition (h : ∀ text ∈ condition, ExpressionText (fun _ => false) text)
    (hrest : Closes rest) : Lexes (conditionText condition).toList rest (conditionTokens condition) := by
  cases condition with
  | none => exact .nil
  | some text =>
    have hwhere : ∀ rest, Lexes " WHERE ".toList rest [keyToken .WHERE] :=
      fun _ => lexes_blank.append (lexes_phrase [.WHERE])
    show Lexes (" WHERE " ++ text).toList rest _
    rw [String.toList_append]
    exact Lexes.append (hwhere _) (lexes_evenText (h text rfl).toEvenText hrest)

theorem lexes_texts {texts : List String} (h : ∀ text ∈ texts, EvenText text) (hlast : Closes last) :
    Lexes (", ".intercalate texts).toList last ([commaToken].intercalate (texts.map tokensOf)) := by
  have hlist : Lexes (", ".intercalate (texts.map fun text => text)).toList last
      ([commaToken].intercalate (texts.map tokensOf)) := by
    refine lexes_intercalate (fun _ _ _ => lexes_comma.append lexes_blank) fun text htext us hus => ?_
    refine lexes_evenText (h text htext) ?_
    rcases hus with rfl | ⟨more, rfl⟩
    · exact hlast
    · simp [Closes]
  rwa [List.map_id'] at hlist

theorem lexes_index {i : IndexForm} (h : i.Fits) (hrest : Closes rest) :
    Lexes i.text.toList rest i.tokens := by
  have hunique : ∀ rest, Lexes (if i.unique then "UNIQUE " else "").toList rest
      (if i.unique then [keyToken .UNIQUE] else []) := by
    intro rest
    cases i.unique with
    | true => exact lexes_phrase [.UNIQUE]
    | false => exact .nil
  have hindex : ∀ rest, Stops rest → Lexes "INDEX".toList rest [keyToken .INDEX] :=
    fun _ h => lexes_key .INDEX h
  have hon : ∀ rest, Lexes " ON ".toList rest [keyToken .ON] :=
    fun _ => lexes_blank.append (lexes_phrase [.ON])
  have hopen : ∀ rest, Lexes " (".toList rest [openToken] := fun _ => lexes_blank.append lexes_open
  have hcolumns : Lexes (", ".intercalate i.columns).toList
      (')' :: ((conditionText i.condition).toList ++ rest)) _ :=
    lexes_texts (fun text htext => (h.columns text htext).toEvenText) (by simp [Closes])
  have hend := hcolumns.append (lexes_close.append (lexes_condition h.condition hrest))
  have htable := Lexes.append (lexes_qualified i.table.space i.table.name (by simp [Stops]))
    (Lexes.append (hopen _) hend)
  have hstops : ∀ us, Stops (" ON ".toList ++ us) := fun us => stops_cons.mpr List.mem_cons_self
  rw [IndexForm.text, IndexForm.tokens]
  simp only [String.toList_append, List.append_assoc]
  refine Lexes.append (hunique _) (Lexes.append (hindex _ ?_) (Lexes.append
    (lexes_indexName i.name ?_).1 (Lexes.append (hon _) htable)))
  · rw [List.append_assoc]
    exact (lexes_indexName i.name (hstops _)).2
  · exact hstops _

end SchemaDialects.Sql
