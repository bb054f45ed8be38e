import SchemaDialects.Proofs.Sql.Execution

/-!
# Indexes from what is read

An index is written with its columns by name or, over expressions, with its definition. `Spells` says
which written form stands for an index; there is one for every spellable index, and carrying it out adds
that index to its table.
-/

namespace SchemaDialects.Sql

open Text Production

-- ---------------------------------------------------------------------------
-- Names as columns of an index
-- ---------------------------------------------------------------------------

/-- The token of a name is the name as it is written. -/
theorem tiles_quoteName (name : String) : tiles cut (Flavor.postgres.quoteName name).toList =
    [(.token (nameToken name).lexeme, (Flavor.postgres.quoteName name).toList)] := by
  have h := tiles_of_token (lexes_name name (by simp [Stops] : Stops [])) rfl
  rwa [List.append_nil, tiles_nil] at h

theorem tokensOf_quoteName (name : String) :
    tokensOf (Flavor.postgres.quoteName name) = [nameToken name] := by
  rw [tokensOf, tiles_quoteName]
  show [(⟨_, String.ofList _, _⟩ : Token)] = _
  rw [String.ofList_toList]
  rfl

theorem name?_nameToken (name : String) : (nameToken name).lexeme.name? = some name := by
  rcases nameToken_lexeme name with h | h <;> rw [h] <;> rfl

theorem columnsOf_quoteName (name : String) :
    columnsOf (Flavor.postgres.quoteName name) = [⟨none, name⟩] := by
  rw [columnsOf, tokensOf_quoteName]
  simp [columnsAfter, name?_nameToken, chain, ColumnRef.ofChain]

/-- Only one plain word is more than a name to the grammar of indexes. -/
theorem expressionText_quoteName (h : name ≠ "nulls") :
    ExpressionText endsIndexColumn (Flavor.postgres.quoteName name) where
  tidy := by
    rw [tiles_quoteName]
    exact List.forall_mem_singleton.mpr (.inl ⟨_, rfl⟩)
  even := by
    have hspelling : (nameToken name).spelling false = (nameToken name).text := by
      rcases nameToken_lexeme name with h | h <;> simp [Token.spelling, h]
    rw [tokensOf_quoteName, renderTokens, renderFrom, hspelling]
    simp [isGlued, renderFrom, nameToken]
  nonempty := by
    rw [tokensOf_quoteName]
    exact List.cons_ne_nil _ _
  closed := by
    rw [tokensOf_quoteName]
    have hword := nameToken_isWord h
    rcases nameToken_lexeme name with hlexeme | hlexeme
    · rw [hlexeme] at hword
      simp [isClosed, hlexeme, endsIndexColumn, hword, Lexeme.isKeyword]
    · simp [isClosed, hlexeme, endsIndexColumn, Lexeme.isWord, Lexeme.isKeyword]

/-- A name in quotes is recognized as the column it names. -/
theorem simpleColumn?_quoteName (h : SpellableIndexColumn name) :
    simpleColumn? (Flavor.postgres.quoteName name) = some name := by
  have hends : ∀ c ∈ name.toList, c ≠ '`' → (decide (c = '"') || decide (c = '`')) = false := by
    intro c hc hne
    have hquote : c ≠ '"' := fun heq => h.quotes (heq ▸ hc)
    simp [hquote, hne]
  have hbare : stripWhile (fun c => c = '"' || c = '`') name.toList = name.toList := by
    refine stripWhile_of_ends (fun c hc => hends c (List.mem_of_mem_head? hc) ?_)
      (fun c hc => hends c (List.mem_of_mem_getLast? hc) ?_)
    · rintro rfl
      exact h.first hc
    · rintro rfl
      exact h.last hc
  have hstrip : stripWhile (fun c => c = '"' || c = '`') (Flavor.postgres.quoteName name).toList =
      name.toList := by
    rw [Flavor.quoteName]
    split
    · exact hbare
    · have hdouble : replaceChar '"' ['"', '"'] name.toList = name.toList := by
        refine (List.flatMap_congr fun c hc => if_neg ?_).trans (List.flatMap_singleton' _)
        rintro rfl
        exact h.quotes hc
      simp only [Flavor.quoteChar, String.toList_ofList]
      rw [hdouble, List.cons_append, stripWhile_cons rfl, stripWhile_append (by simp), hbare]
  rw [simpleColumn?, Expression.column?, columnsOf_quoteName]
  exact if_pos hstrip

theorem count_replaceChar (q : Char) (cs : List Char) : (replaceChar q [q, q] cs).count q = 2 * cs.count q := by
  induction cs with
  | nil => rfl
  | cons c cs ih =>
    have hcons : replaceChar q [q, q] (c :: cs) = (if c = q then [q, q] else [c]) ++ replaceChar q [q, q] cs := rfl
    rw [hcons, List.count_append, ih, List.count_cons]
    by_cases hc : c = q
    · subst hc
      rw [if_pos rfl, if_pos (beq_self_eq_true c), List.count_cons_self, List.count_singleton_self]
      omega
    · rw [if_neg hc, if_neg (by simpa using hc), List.count_singleton, if_neg (by simpa using hc)]
      omega

theorem head?_replaceChar (h : cs.head? ≠ some q) : (replaceChar q [q, q] cs).head? = cs.head? := by
  cases cs with
  | nil => rfl
  | cons c cs =>
    have hc : c ≠ q := fun hc => h (congrArg some hc)
    rw [replaceChar, List.flatMap_cons, if_neg hc]
    rfl

theorem getLast?_replaceChar (h : cs.getLast? ≠ some q) : (replaceChar q [q, q] cs).getLast? = cs.getLast? := by
  rcases List.eq_nil_or_concat cs with rfl | ⟨front, c, rfl⟩
  · rfl
  · have hc : c ≠ q := fun hc => h (by simp [hc])
    simp [replaceChar, hc]

/-- A name that is recognized in quotes neither has quotes nor is between backticks. -/
theorem spellableIndexColumn_of_simple (hnulls : name ≠ "nulls")
    (h : (simpleColumn? (Flavor.postgres.quoteName name)).isSome = true) : SpellableIndexColumn name := by
  let isQuote : Char → Bool := fun c => c = '"' || c = '`'
  have hstrip : stripWhile isQuote (Flavor.postgres.quoteName name).toList = name.toList := by
    rw [simpleColumn?, Expression.column?, columnsOf_quoteName] at h
    by_contra hother
    exact absurd ((congrArg Option.isSome (if_neg hother)).symm.trans h) Bool.false_ne_true
  have hhead : ∀ c ∈ name.toList.head?, isQuote c = false := hstrip ▸ head_stripWhile
  have hlast : ∀ c ∈ name.toList.getLast?, isQuote c = false := hstrip ▸ last_stripWhile
  have hquote : isQuote '"' = true := rfl
  have hbacktick : isQuote '`' = true := rfl
  refine ⟨hnulls, fun hmem => ?_, fun hfirst => ?_, fun hend => ?_⟩
  · rw [Flavor.quoteName] at hstrip
    split at hstrip
    · rename_i hplain
      obtain ⟨c, tail, hchars, hc, htail⟩ := isPlainName_chars (Bool.and_eq_true_iff.mp hplain).1
      rw [hchars] at hmem
      rcases List.mem_cons.mp hmem with rfl | hmem
      · exact absurd hc (by decide)
      · exact absurd (htail '"' hmem) (by decide)
    · -- Nothing is stripped but the quotes around the name, so that none of its own was doubled.
      have hfirst : name.toList.head? ≠ some '"' :=
        fun hfirst => Bool.false_ne_true ((hhead _ hfirst).symm.trans hquote)
      have hend : name.toList.getLast? ≠ some '"' :=
        fun hend => Bool.false_ne_true ((hlast _ hend).symm.trans hquote)
      have hsame : stripWhile isQuote (replaceChar '"' ['"', '"'] name.toList) = replaceChar '"' ['"', '"'] name.toList :=
        stripWhile_of_ends (head?_replaceChar hfirst ▸ hhead) (getLast?_replaceChar hend ▸ hlast)
      simp only [Flavor.quoteChar, String.toList_ofList] at hstrip
      rw [List.cons_append, stripWhile_cons hquote, stripWhile_append (by simp [hquote]), hsame] at hstrip
      have hcount := count_replaceChar '"' name.toList
      have hpos := List.count_pos_iff.mpr hmem
      rw [hstrip] at hcount
      omega
  · exact Bool.false_ne_true ((hhead _ hfirst).symm.trans hbacktick)
  · exact Bool.false_ne_true ((hlast _ hend).symm.trans hbacktick)

-- ---------------------------------------------------------------------------
-- Written forms
-- ---------------------------------------------------------------------------

/-- The columns of an index as texts. -/
inductive SpellsColumns (i : Index) : List String → Prop
  | byName (names : List String) (definition : i.definition = none) (attrs : i.attrs = pathsOf names)
      (nonempty : names ≠ []) (columns : ∀ name ∈ names, SpellableIndexColumn name) :
      SpellsColumns i (names.map Flavor.postgres.quoteName)
  | byText (texts : List String) (definition : i.definition = some (", ".intercalate texts))
      (spellable : SpellableDefinition texts i.attrs) : SpellsColumns i texts

/-- The form stands for the index of the table. -/
structure IndexForm.Spells (table : EntityName) (i : Index) (form : IndexForm) : Prop where
  table : form.table = table
  name : form.name = i.name
  unique : form.unique = i.unique
  condition : form.condition = i.condition
  columns : SpellsColumns i form.columns

theorem exists_form (h : SpellableStatement i) (table : EntityName) :
    ∃ form : IndexForm, form.Spells table i ∧ form.Fits := by
  obtain ⟨columns, hcolumns, hne, htexts⟩ : ∃ columns, SpellsColumns i columns ∧ columns ≠ [] ∧
      ∀ text ∈ columns, ExpressionText endsIndexColumn text := by
    cases hdefinition : i.definition with
    | none =>
      obtain ⟨hpaths, hnames⟩ := h.columns hdefinition
      have hattrs := pathsOf_namesOf hpaths.single
      have hname : ∀ name ∈ namesOf i.attrs, SpellableIndexColumn name := by
        intro name hname
        refine hnames name ?_
        rw [← hattrs]
        exact List.mem_map_of_mem hname
      have hne : namesOf i.attrs ≠ [] := by simpa [namesOf] using hpaths.nonempty
      refine ⟨_, .byName _ hdefinition hattrs.symm hne hname, by simpa using hne, ?_⟩
      rintro _ htext
      obtain ⟨name, hmem, rfl⟩ := List.mem_map.mp htext
      exact expressionText_quoteName (hname name hmem).nulls
    | some definition =>
      obtain ⟨texts, rfl, hspell⟩ := h.definition definition hdefinition
      obtain ⟨text, htext, -⟩ := hspell.complex
      exact ⟨texts, .byText texts hdefinition hspell, List.ne_nil_of_mem htext, hspell.expression⟩
  exact ⟨⟨i.name, i.unique, table, columns, i.condition⟩, ⟨rfl, rfl, rfl, rfl, hcolumns⟩,
    ⟨h.name, hne, htexts, h.condition⟩⟩

-- ---------------------------------------------------------------------------
-- Reading
-- ---------------------------------------------------------------------------

/-- What is read of the columns of an index. -/
theorem column?_of_read {e : Expression} (h : e.text = text ∧ e.columns = columnsOf text) :
    e.column? = simpleColumn? text := by
  rw [simpleColumn?, Expression.column?, Expression.column?, h.1, h.2]

theorem columns_of_read {es : List Expression}
    (h : List.Forall₂ (fun text e => e.text = text ∧ e.columns = columnsOf text) texts es) :
    es.map (·.text) = texts ∧ es.flatMap (·.columns) = texts.flatMap columnsOf ∧
      es.all (fun e => e.column?.isSome) = texts.all fun text => (simpleColumn? text).isSome := by
  induction h with
  | nil => exact ⟨rfl, rfl, rfl⟩
  | cons hfirst _ ih =>
    obtain ⟨htexts, hcolumns, hall⟩ := ih
    rw [List.map_cons, List.flatMap_cons, List.flatMap_cons, List.all_cons, List.all_cons, htexts,
      hcolumns, hall, column?_of_read hfirst, hfirst.1, hfirst.2]
    exact ⟨rfl, rfl, rfl⟩

theorem ownColumns_names (names : List String) :
    ownColumns ((names.map Flavor.postgres.quoteName).flatMap columnsOf) = pathsOf names := by
  induction names with
  | nil => rfl
  | cons name names ih =>
    rw [List.map_cons, List.flatMap_cons, columnsOf_quoteName]
    exact congrArg (List.cons [name]) ih

/-- What the columns say is what the index says of its columns. -/
theorem SpellsColumns.index (h : SpellsColumns i texts) :
    ownColumns (texts.flatMap columnsOf) = i.attrs ∧
      (if (texts.all fun text => (simpleColumn? text).isSome) = true then none
        else some (", ".intercalate texts)) = i.definition := by
  cases h with
  | byName names definition attrs nonempty columns =>
    have hall :
        ((names.map Flavor.postgres.quoteName).all fun text => (simpleColumn? text).isSome) = true := by
      rw [List.all_map, List.all_eq_true]
      intro name hname
      rw [Function.comp_apply, simpleColumn?_quoteName (columns name hname), Option.isSome_some]
    rw [ownColumns_names, if_pos hall, attrs, definition]
    exact ⟨rfl, rfl⟩
  | byText texts definition spellable =>
    have hall : ¬(texts.all fun text => (simpleColumn? text).isSome) = true := by
      obtain ⟨text, htext, hcomplex⟩ := spellable.complex
      intro hall
      have := List.all_eq_true.mp hall text htext
      rw [hcomplex] at this
      contradiction
    rw [if_neg hall, definition, ← spellable.attrs]
    exact ⟨rfl, rfl⟩

theorem addIndex_of_read {form : IndexForm} {s : CreateIndex} (h : form.Says s) (hform : form.Spells owner i)
    (hdoc : i.doc = none) (table : Entity) :
    addIndex s table = { table with indexes := table.indexes ++ [i] } := by
  obtain ⟨htexts, hcolumns, hall⟩ := columns_of_read h.columns
  obtain ⟨hattrs, hdefinition⟩ := hform.columns.index
  have hindex : i = {
      name := nameOf s.name
      attrs := ownColumns (s.columns.flatMap (·.columns))
      unique := s.unique
      condition := s.condition.map (·.text)
      definition := if (s.columns.all fun e => e.column?.isSome) = true then none
        else some (", ".intercalate (s.columns.map (·.text))) } := by
    rw [htexts, hcolumns, hall, hattrs, hdefinition, h.name, h.unique, h.condition, hform.name, hform.unique,
      hform.condition]
    obtain ⟨name, attrs, unique, condition, definition, doc⟩ := i
    obtain rfl : doc = none := hdoc
    rfl
  rw [addIndex, hindex]
  rfl

theorem index_leads {form : IndexForm} {table : Entity} (hform : form.Spells table.id i) (hdoc : i.doc = none)
    (hnew : table.id ∉ db.entities.map Entity.id) (hspace : SpellableSpace table.space) :
    Leads [.index form] (withTable db table)
      (withTable db { table with indexes := table.indexes ++ [i] }) := by
  refine .single fun st hst s hs => ?_
  cases st with
  | createIndex c =>
    have hid : c.table.entityName = table.id := by
      rw [QualifiedName.entityName, hst.table, hform.table]
      exact nameParts_entity hspace
    show Holds _ (s.change c.table.entityName c.table.position fun table => (addIndex c table, {}))
    rw [hid]
    exact change_last hnew hs ⟨addIndex_of_read hst hform hdoc table, rfl⟩
  | _ => exact hst.elim

end SchemaDialects.Sql
