import SchemaDialects.Proofs.Sql.Formed
import SchemaDialects.Proofs.Sql.Keyed
import SchemaDialects.Proofs.Sql.Settled

/-!
# Schemas as they are built

Whatever statements a script consists of, the schema they define is one that the reader can give: carrying out
a statement adds tables, columns, indexes, checks, foreign keys and types of the shape that `Built` describes
(`Shaped.statement`), and filling in the columns of foreign keys at the end keeps this shape.
-/

namespace SchemaDialects.Sql

-- ---------------------------------------------------------------------------
-- Names and foreign keys
-- ---------------------------------------------------------------------------

theorem spellableSpace_entityOf (values : List String) : SpellableSpace (QualifiedName.entityOf values).space := by
  rw [QualifiedName.entityOf]
  rcases values.reverse with _ | ⟨name, _ | ⟨schema, _ | ⟨catalog, _ | ⟨database, rest⟩⟩⟩⟩
  all_goals exact ⟨by simp [Namespace.ofReversed], by simp [Namespace.ofReversed]⟩

theorem isColumns_columnPaths (h : columns ≠ []) : IsColumns (columnPaths columns) where
  nonempty hnil := h (List.map_eq_nil_iff.mp hnil)
  single := List.forall_mem_map.mpr fun column _ => ⟨column.value, rfl⟩

/-- A foreign key that waits for its table. Its columns in this table may be left out. -/
structure BuiltKey (r : Relation) : Prop where
  target : SpellableSpace r.target.entity.space
  sourceColumns : IsColumns r.source.attrs
  targetColumns : ∀ path ∈ r.target.attrs, ∃ name, path = [name]
  cardinalities : r.source.cardinality = some .many ∧ r.target.cardinality = some .one
  onDelete : ∀ text ∈ r.onDelete, ∃ action : ReferentialAction, action.text = text
  onUpdate : ∀ text ∈ r.onUpdate, ∃ action : ReferentialAction, action.text = text
  doc : r.doc = none
  extra : r.extra = []

theorem text_of_action (action? : Option ReferentialAction) :
    ∀ text ∈ action?.map (·.text), ∃ action : ReferentialAction, action.text = text := by
  intro text htext
  obtain ⟨action, -, haction⟩ := Option.map_eq_some_iff.mp htext
  exact ⟨action, haction⟩

theorem builtKey_foreignKey (hattrs : IsColumns attrs) (table : EntityName) (name : Option String)
    (target : ForeignKeyRef) (position : Position) :
    ∀ key ∈ (foreignKey table attrs name target position).pending, BuiltKey key.relation := by
  rintro _ ⟨⟩
  · exact ⟨spellableSpace_entityOf _, hattrs, List.forall_mem_map.mpr fun column _ => ⟨column.value, rfl⟩,
      ⟨rfl, rfl⟩, text_of_action _, text_of_action _, rfl, rfl⟩
  · contradiction

-- ---------------------------------------------------------------------------
-- Tables
-- ---------------------------------------------------------------------------

/-- A column under construction, its table and the foreign keys it has left behind. -/
structure ColumnState.Built (s : ColumnState) : Prop where
  table : BuiltEntity s.table
  attr : BuiltAttribute s.attr
  pending : ∀ key ∈ s.trace.pending, BuiltKey key.relation

theorem builtIndex_columns (name : Option String) (unique : Bool) (hattrs : IsColumns attrs) :
    BuiltIndex { name, attrs, unique } := ⟨hattrs.single, fun _ => hattrs.nonempty, nofun, nofun, rfl⟩

theorem BuiltAttribute.withNullable (h : BuiltAttribute a) (nullable : Bool) : BuiltAttribute { a with nullable } :=
  ⟨h.value, h.generated, h.nested, h.doc, h.extra⟩

theorem BuiltAttribute.withDoc (h : BuiltAttribute a) {text : Option String} (htext : ∀ doc ∈ text, Literal doc) :
    BuiltAttribute { a with doc := text } :=
  ⟨h.value, h.generated, h.nested, htext, h.extra⟩

theorem BuiltEntity.addIndex (h : BuiltEntity e) (hindex : BuiltIndex i) :
    BuiltEntity { e with indexes := e.indexes ++ [i] } :=
  { h with index := List.forall_mem_append.mpr ⟨h.index, List.forall_mem_singleton.mpr hindex⟩ }

theorem BuiltEntity.addCheck (h : BuiltEntity e) (hcheck : BuiltCheck c) :
    BuiltEntity { e with checks := e.checks ++ [c] } :=
  { h with check := List.forall_mem_append.mpr ⟨h.check, List.forall_mem_singleton.mpr hcheck⟩ }

theorem BuiltEntity.withKey (h : BuiltEntity e) {key : PrimaryKey} (hkey : IsColumns key.attrs) :
    BuiltEntity { e with primaryKey := some key } :=
  { h with key := by rintro _ ⟨⟩; exact hkey }

theorem BuiltEntity.withDoc (h : BuiltEntity e) {text : Option String} (htext : ∀ doc ∈ text, Literal doc) :
    BuiltEntity { e with doc := text } :=
  { h with doc := htext }

theorem isColumns_singleton (name : String) : IsColumns [[name]] :=
  ⟨List.cons_ne_nil _ _, List.forall_mem_singleton.mpr ⟨name, rfl⟩⟩

theorem ColumnState.Built.apply {s : ColumnState} (h : s.Built) (c : ColumnConstraint) (hc : c.rule.Formed) :
    (s.apply c).Built := by
  obtain ⟨name, rule, position⟩ := c
  have hpath : IsColumns [[s.attr.name]] := isColumns_singleton s.attr.name
  cases rule with
  | notNull => exact { h with attr := h.attr.withNullable false }
  | null => exact { h with attr := h.attr.withNullable true }
  | primaryKey => exact { h with table := h.table.withKey hpath, attr := h.attr.withNullable false }
  | unique => exact { h with table := h.table.addIndex (builtIndex_columns (nameOf name) true hpath) }
  | autoIncrement =>
    refine { h with attr := { h.attr with extra := .inr ?_ } }
    show Json.insertMember autoIncrementKey (.bool true) s.attr.extra = _
    rcases h.attr.extra with hextra | hextra
    · rw [hextra]
      rfl
    · rw [hextra]
      rfl
  | default e =>
    refine { h with attr := { h.attr with value := ?_, generated := fun _ => rfl } }
    rintro _ ⟨⟩
    exact hc.taken _
  | check e => exact { h with table := h.table.addCheck ⟨hc.expressionText, rfl⟩ }
  | references target =>
    exact { h with pending := List.forall_mem_append.mpr ⟨h.pending, builtKey_foreignKey hpath _ _ _ _⟩ }
  | generated e =>
    refine { h with attr := { h.attr with value := ?_, generated := fun _ => rfl } }
    rintro _ ⟨⟩
    exact hc.text
  | comment text => exact { h with attr := h.attr.withDoc (by rintro _ ⟨⟩; exact hc) }

theorem makes_addColumn (h : BuiltEntity table) (flavor : Flavor) (column : ColumnDef) (hcolumn : column.Formed) :
    Makes BuiltEntity BuiltKey (addColumn flavor table column) := by
  unfold addColumn
  extract_lets attr s
  have hattr : BuiltAttribute attr := ⟨nofun, nofun, rfl, nofun, .inl rfl⟩
  have hstart : ColumnState.Built { table, attr } := ⟨h, hattr, fun _ hkey => absurd hkey List.not_mem_nil⟩
  have hs : s.Built := List.foldlRecOn (motive := ColumnState.Built) _ _ hstart
    fun _ hs c hc => hs.apply c (hcolumn c hc)
  exact ⟨{ hs.table with attrs := List.forall_mem_append.mpr ⟨hs.table.attrs, List.forall_mem_singleton.mpr hs.attr⟩ },
    hs.pending⟩

theorem BuiltEntity.modifyColumn (h : BuiltEntity e) (hf : ∀ a, BuiltAttribute a → BuiltAttribute (f a)) (name : String) :
    BuiltEntity { e with attrs := modifyAttribute f e.attrs [name] } :=
  { h with
    attrs := fun a ha => by
      rcases mem_modifyFirst ha with ha | ⟨b, hb, -, rfl⟩
      · exact h.attrs a ha
      · exact hf b (h.attrs b hb) }

theorem makes_requireColumns (h : BuiltEntity table) (position : Position) (columns : List Identifier) :
    Makes BuiltEntity BuiltKey ((columnPaths columns).foldl (requireColumn position) (table, {})) := by
  refine List.foldlRecOn (motive := Makes BuiltEntity BuiltKey) _ _ ⟨h, fun _ hkey => absurd hkey List.not_mem_nil⟩ ?_
  rintro ⟨table, trace⟩ ⟨htable, hpending⟩ path hpath
  obtain ⟨column, -, rfl⟩ := List.mem_map.mp hpath
  rw [requireColumn]
  split
  · exact ⟨htable.modifyColumn (fun a ha => ha.withNullable false) column.value, hpending⟩
  · exact ⟨htable, List.forall_mem_append.mpr ⟨hpending, fun _ hkey => absurd hkey List.not_mem_nil⟩⟩

theorem makes_settled (h : BuiltEntity changed) : Makes BuiltEntity BuiltKey (changed, {}) :=
  ⟨h, fun _ hkey => absurd hkey List.not_mem_nil⟩

theorem makes_addConstraint (h : BuiltEntity table) (c : TableConstraint) (hc : c.rule.Formed) :
    Makes BuiltEntity BuiltKey (addConstraint table c) := by
  obtain ⟨name, rule, position⟩ := c
  cases rule with
  | primaryKey columns =>
    obtain ⟨htable, hpending⟩ := makes_requireColumns h position columns
    exact ⟨htable.withKey (isColumns_columnPaths hc), hpending⟩
  | unique columns => exact makes_settled (h.addIndex (builtIndex_columns _ true (isColumns_columnPaths hc)))
  | index columns => exact makes_settled (h.addIndex (builtIndex_columns _ false (isColumns_columnPaths hc)))
  | foreignKey columns target => exact ⟨h, builtKey_foreignKey (isColumns_columnPaths hc) _ _ _ _⟩
  | check e => exact makes_settled (h.addCheck ⟨hc.expressionText, rfl⟩)

theorem makes_alterStep (h : BuiltEntity table) (flavor : Flavor) (action : AlterAction) (haction : action.Formed) :
    Makes BuiltEntity BuiltKey (alterStep flavor table action) := by
  cases action with
  | addColumn column => exact makes_addColumn h flavor column haction
  | addConstraint c => exact makes_addConstraint h c haction
  | other text position => exact ⟨h, fun _ hkey => absurd hkey List.not_mem_nil⟩

theorem makes_runSteps {step : Entity → α → Entity × Trace} {steps : List α}
    (hstep : ∀ table, T table → ∀ a ∈ steps, Makes T R (step table a)) (h : T table) :
    Makes T R (runSteps step table steps) := by
  induction steps using List.reverseRecOn with
  | nil => exact ⟨h, fun _ hkey => absurd hkey List.not_mem_nil⟩
  | append_singleton steps a ih =>
    obtain ⟨htable, hpending⟩ := ih fun table h b hb => hstep table h b (List.mem_append_left _ hb)
    obtain ⟨hlast, hmore⟩ := hstep _ htable a (List.mem_append_right _ List.mem_cons_self)
    rw [runSteps_append]
    exact ⟨hlast, List.forall_mem_append.mpr ⟨hpending, hmore⟩⟩

theorem makes_buildTable (flavor : Flavor) {c : CreateTable} (h : (Statement.createTable c).Formed) :
    Makes BuiltEntity BuiltKey (buildTable flavor c) := by
  obtain ⟨hcolumns, hconstraints⟩ := h
  have hempty : BuiltEntity { space := c.name.entityName.space, name := c.name.entityName.name } :=
    ⟨spellableSpace_entityOf _, nofun, nofun, nofun, nofun, nofun, rfl, rfl⟩
  obtain ⟨htable, hfirst⟩ := makes_runSteps (R := BuiltKey) (fun table h column hcolumn =>
    makes_addColumn h flavor column (hcolumns column hcolumn)) hempty
  obtain ⟨hend, hsecond⟩ := makes_runSteps (R := BuiltKey) (fun table h constraint hconstraint =>
    makes_addConstraint h constraint (hconstraints constraint hconstraint)) htable
  exact ⟨hend, List.forall_mem_append.mpr ⟨hfirst, hsecond⟩⟩

/-- An expression that is a column mentions it. -/
theorem columns_of_column? {e : Expression} (h : e.column?.isSome = true) : ∃ name, e.columns = [⟨none, name⟩] := by
  rw [Expression.column?] at h
  split at h
  · rename_i name hcolumns
    exact ⟨name, hcolumns⟩
  · contradiction

theorem builtEntity_addIndex (h : BuiltEntity table) {c : CreateIndex} (hc : c.Formed) :
    BuiltEntity (addIndex c table) := by
  refine h.addIndex ⟨List.forall_mem_map.mpr fun column _ => ⟨column.name, rfl⟩, fun hnone => ?_, ?_, ?_, rfl⟩
  · have hsimple : c.columns.all (fun e => e.column?.isSome) = true := by
      by_contra hcomplex
      simp [hcomplex] at hnone
    obtain ⟨e, more, hcolumns⟩ := List.exists_cons_of_ne_nil hc.nonempty
    have hfirst : e ∈ c.columns := hcolumns ▸ List.mem_cons_self
    obtain ⟨name, hname⟩ := columns_of_column? (List.all_eq_true.mp hsimple e hfirst)
    have hmem : (⟨none, name⟩ : ColumnRef) ∈ (c.columns.flatMap (·.columns)).filter (·.scope.isNone) :=
      List.mem_filter.mpr ⟨List.mem_flatMap.mpr ⟨e, hfirst, hname ▸ List.mem_cons_self⟩, rfl⟩
    exact List.ne_nil_of_mem (List.mem_map_of_mem hmem)
  · intro definition hdefinition
    by_cases hsimple : c.columns.all (fun e => e.column?.isSome) = true
    · rw [if_pos hsimple] at hdefinition
      cases hdefinition
    · rw [if_neg hsimple] at hdefinition
      cases hdefinition
      obtain ⟨e, he, hcomplex⟩ : ∃ e ∈ c.columns, e.column? = none := by simpa using hsimple
      refine definitionText_intercalate (List.forall_mem_map.mpr fun e he => (hc.columns e he).expressionText) ?_
      exact ⟨e.text, List.mem_map_of_mem he, column?_of_read ⟨rfl, (hc.columns e he).columns⟩ ▸ hcomplex⟩
  · intro text htext
    obtain ⟨e, he, rfl⟩ := Option.map_eq_some_iff.mp htext
    exact (hc.condition e he).text

-- ---------------------------------------------------------------------------
-- Statements
-- ---------------------------------------------------------------------------

/-- A schema under construction of the shape that the reader can give. -/
structure ImportState.Shaped (s : ImportState) : Prop where
  rooted : s.Rooted BuiltEntity BuiltKey
  type : ∀ t ∈ s.types, BuiltNamedType t

theorem builtNamedType_of_definition (flavor : Flavor) (s : ImportState) (h : ∀ t ∈ s.types, BuiltNamedType t)
    {c : CreateType} (hc : c.definition.Formed) : ∀ t ∈ (s.createType flavor c).types, BuiltNamedType t := by
  refine List.forall_mem_append.mpr ⟨h, List.forall_mem_singleton.mpr ?_⟩
  have hspace := spellableSpace_entityOf c.name.values
  cases hdefinition : c.definition with
  | enumeration values =>
    rw [hdefinition] at hc
    exact ⟨hspace, by rintro _ ⟨⟩; exact ⟨hc, rfl⟩, rfl, rfl⟩
  | composite columns => exact ⟨hspace, nofun, rfl, rfl⟩
  | shell => exact ⟨hspace, nofun, rfl, rfl⟩

theorem ImportState.Rooted.commentOn {s : ImportState} (h : s.Rooted BuiltEntity BuiltKey) {c : CommentOn}
    (hc : ∀ text ∈ c.text, Literal text) : (s.commentOn c).Rooted BuiltEntity BuiltKey := by
  obtain ⟨target, text, position⟩ := c
  cases target with
  | table name =>
    rw [ImportState.commentOn]
    refine h.change (fun table hid => ?_) (fun table _ htable => ?_) _
    · exact within_settled hid rfl
    · exact makes_settled (htable.withDoc hc)
  | column name =>
    cases hsplit : name.splitColumn? with
    | none =>
      simp only [ImportState.commentOn, hsplit]
      exact h.note _ _
    | some found =>
      obtain ⟨owner, column⟩ := found
      simp only [ImportState.commentOn, hsplit]
      refine h.change (fun table hid => ?_) (fun table _ htable => ?_) _
      · split
        · exact within_settled hid rfl
        · exact within_settled hid rfl
      · split
        · exact makes_settled (htable.modifyColumn (fun a ha => ha.withDoc hc) column)
        · exact ⟨htable, fun _ hkey => absurd hkey List.not_mem_nil⟩

/-- Every statement keeps the shape. -/
theorem ImportState.Shaped.statement {s : ImportState} (h : s.Shaped) (flavor : Flavor) {st : Statement}
    (hst : st.Formed) : (s.statement flavor st).Shaped := by
  have hkept : ∀ owner position f, (s.change owner position f).types = s.types := by
    intro owner position f
    rw [ImportState.change]
    split
    · rfl
    · rfl
  cases st with
  | createTable c =>
    refine ⟨h.rooted.createTable flavor fun _ => makes_buildTable flavor hst, ?_⟩
    simp only [ImportState.statement, ImportState.createTable]
    split
    · exact h.type
    · exact h.type
  | alterTable a =>
    refine ⟨h.rooted.change (fun table hid => ?_) (fun table _ htable => ?_) _, ?_⟩
    · exact within_runSteps (fun table a h => within_alterStep flavor h a) hid a.actions
    · exact makes_runSteps (fun table h action haction => makes_alterStep h flavor action (hst action haction)) htable
    · exact (hkept _ _ _).symm ▸ h.type
  | createIndex c =>
    rw [ImportState.statement]
    refine ⟨h.rooted.change (fun table hid => ?_) (fun table _ htable => ?_) _, ?_⟩
    · exact within_settled hid rfl
    · exact makes_settled (builtEntity_addIndex htable hst)
    · exact (hkept _ _ _).symm ▸ h.type
  | createType c =>
    refine ⟨⟨h.rooted.distinct, h.rooted.table, h.rooted.source, h.rooted.pending⟩, ?_⟩
    exact builtNamedType_of_definition flavor s h.type hst
  | commentOn c =>
    refine ⟨h.rooted.commentOn hst, ?_⟩
    obtain ⟨target, text, position⟩ := c
    cases target with
    | table name => exact (hkept _ _ _).symm ▸ h.type
    | column name =>
      simp only [ImportState.statement, ImportState.commentOn]
      split
      · exact h.type
      · exact (hkept _ _ _).symm ▸ h.type
  | select q => exact h
  | update u => exact h
  | unmodelled u => exact ⟨h.rooted.note _ _, h.type⟩

theorem ImportState.Shaped.run {s : ImportState} (h : s.Shaped) (flavor : Flavor) (statements : List Statement)
    (hstatements : ∀ st ∈ statements, st.Formed) : (s.run flavor statements).Shaped :=
  List.foldlRecOn (motive := ImportState.Shaped) _ _ h fun _ h st hst => h.statement flavor (hstatements st hst)

-- ---------------------------------------------------------------------------
-- Foreign keys at the end
-- ---------------------------------------------------------------------------

theorem isColumns_ite {explicit implied : List AttributePath} (hexplicit : ∀ path ∈ explicit, ∃ name, path = [name])
    (himplied : IsColumns implied) : IsColumns (if explicit.isEmpty then implied else explicit) := by
  split
  · exact himplied
  · rename_i hnonempty
    exact ⟨fun hnil => hnonempty (hnil ▸ rfl), hexplicit⟩

/-- A foreign key without columns takes those of the primary key, or the usual one. -/
theorem isColumns_resolve {s : ImportState} (h : s.Shaped) {key : PendingKey} (hkey : BuiltKey key.relation) :
    IsColumns (s.resolve key).1.target.attrs := by
  have husual : IsColumns ImportState.fallbackKey := isColumns_singleton "id"
  rw [ImportState.resolve]
  split
  · rename_i table hfind
    refine isColumns_ite hkey.targetColumns ?_
    have htable := h.rooted.table table (List.mem_of_find?_eq_some hfind)
    cases hprimary : table.primaryKey with
    | none => exact husual
    | some primary => exact htable.key primary hprimary
  · exact isColumns_ite hkey.targetColumns husual

theorem spellableRelation_resolve {s : ImportState} (h : s.Shaped) {key : PendingKey} (hkey : key ∈ s.trace.pending)
    (hdb : db.entities = s.tables) : SpellableRelation db (s.resolve key).1 := by
  have hbuilt := h.rooted.pending key hkey
  have hcolumns := isColumns_resolve h hbuilt
  have hsource : key.relation.source.entity ∈ db.entities.map Entity.id := hdb ▸ h.rooted.source key hkey
  rw [ImportState.resolve] at hcolumns ⊢
  split at hcolumns
  · exact ⟨hsource, hbuilt.target, hbuilt.sourceColumns, hcolumns, hbuilt.cardinalities, hbuilt.onDelete,
      hbuilt.onUpdate, hbuilt.doc, hbuilt.extra⟩
  · exact ⟨hsource, hbuilt.target, hbuilt.sourceColumns, hcolumns, hbuilt.cardinalities, hbuilt.onDelete,
      hbuilt.onUpdate, hbuilt.doc, hbuilt.extra⟩

/-- Statements as the grammar gives them define a schema as the reader can give it. -/
theorem built_importStatements {statements : List Statement} (h : ∀ st ∈ statements, st.Formed)
    (hvalue : (importStatements statements flavor).value = some db) : Built db := by
  have hempty : ImportState.Shaped {} := ⟨ImportState.rooted_empty, nofun⟩
  have hshaped : (({} : ImportState).run flavor statements).Shaped := hempty.run flavor statements h
  obtain rfl := Option.some.inj hvalue
  refine ⟨hshaped.rooted.table, hshaped.rooted.distinct, hshaped.type, fun r hr => ?_, rfl, rfl⟩
  obtain ⟨_, hresolved, rfl⟩ := List.mem_map.mp hr
  obtain ⟨key, hkey, rfl⟩ := List.mem_map.mp hresolved
  exact spellableRelation_resolve hshaped hkey rfl

theorem built_readSchema {script : String} (hplain : '\\' ∉ script.toList) (hapart : Unfused script)
    (hvalue : (readSchema script flavor).value = some db) : Built db := by
  unfold readSchema Parsed.andThen at hvalue
  have hformed := formed_readStatements hplain hapart
  split at hvalue
  · rename_i statements hstatements
    rw [hstatements] at hformed
    exact built_importStatements hformed hvalue
  · cases hvalue

end SchemaDialects.Sql
