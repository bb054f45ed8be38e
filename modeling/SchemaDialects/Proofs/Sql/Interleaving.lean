import SchemaDialects.Proofs.Diff.Patch
import SchemaDialects.Sql.Import

/-!
# Statements in another order

What a script makes of a table depends on the statements about this table alone, and so do the foreign
keys that start from it (`view_run`). Statements about different tables can therefore be interleaved in
any way: `importStatements_reordered` is the result. Foreign keys may refer to tables that come later,
for they are resolved when all statements are carried out.
-/

namespace SchemaDialects.Sql

-- ---------------------------------------------------------------------------
-- What a statement is about
-- ---------------------------------------------------------------------------

/-- The table that a statement is about. -/
def Statement.table? : Statement → Option EntityName
  | .createTable c => some c.name.entityName
  | .alterTable a => some a.table.entityName
  | .createIndex c => some c.table.entityName
  | .commentOn c =>
    match c.target with
    | .table name => some name.entityName
    | .column name => name.splitColumn?.map (·.1)
  | _ => none

/-- The type that a statement is about. -/
def Statement.type? : Statement → Option TypeName
  | .createType c => some { space := c.name.entityName.space, name := c.name.entityName.name }
  | _ => none

/-- The statements in another order that keeps the order of those about one table and of those about
one type. -/
structure Reordered (p q : List Statement) : Prop where
  perm : p.Perm q
  table : ∀ id, p.filter (·.table? = some id) = q.filter (·.table? = some id)
  type : ∀ id, p.filter (·.type? = some id) = q.filter (·.type? = some id)

-- ---------------------------------------------------------------------------
-- Changes of one table
-- ---------------------------------------------------------------------------

/-- The change leaves the table its name, and foreign keys that come with it start from there. -/
structure Within (owner : EntityName) (change : Entity × Trace) : Prop where
  table : change.1.id = owner
  source : ∀ key ∈ change.2.pending, key.relation.source.entity = owner

section
variable {owner : EntityName} {table : Entity}

theorem within_addColumn (flavor : Flavor) (h : table.id = owner) (column : ColumnDef) :
    Within owner (addColumn flavor table column) := by
  have hall : ∀ (constraints : List ColumnConstraint) (s : ColumnState), Within owner (s.table, s.trace) →
      Within owner ((constraints.foldl ColumnState.apply s).table,
        (constraints.foldl ColumnState.apply s).trace) := by
    intro constraints
    induction constraints with
    | nil => exact fun _ hs => hs
    | cons c constraints ih =>
      refine fun s hs => ih _ ?_
      obtain ⟨name, rule, position⟩ := c
      cases rule with
      | «references» target =>
        refine ⟨hs.table, fun key hkey => ?_⟩
        rcases List.mem_append.mp hkey with hkey | hkey
        · exact hs.source key hkey
        · obtain rfl := List.mem_singleton.mp hkey
          exact hs.table
      | _ => exact ⟨hs.table, hs.source⟩
  have hstart (attr : Attribute) := hall column.constraints { table, attr } ⟨h, by simp⟩
  rw [addColumn]
  exact ⟨(hstart _).table, (hstart _).source⟩

theorem within_requireColumns (h : Within owner state) (position : Position) (attrs : List AttributePath) :
    Within owner (attrs.foldl (requireColumn position) state) := by
  induction attrs generalizing state with
  | nil => exact h
  | cons path attrs ih =>
    refine ih ?_
    obtain ⟨table, trace⟩ := state
    rw [requireColumn]
    dsimp only
    split
    · exact ⟨h.table, h.source⟩
    · refine ⟨h.table, fun key hkey => h.source key ?_⟩
      exact (List.mem_append.mp hkey).resolve_right (by simp [Trace.remark])

theorem within_addConstraint (h : table.id = owner) (c : TableConstraint) :
    Within owner (addConstraint table c) := by
  have hnone : ∀ changed : Entity, changed.id = owner → Within owner (changed, {}) :=
    fun changed hid => ⟨hid, by simp⟩
  obtain ⟨name, rule, position⟩ := c
  cases rule with
  | primaryKey columns =>
    obtain ⟨hid, hsource⟩ := within_requireColumns (hnone table h) position (columnPaths columns)
    exact ⟨hid, hsource⟩
  | foreignKey columns target =>
    refine ⟨h, fun key hkey => ?_⟩
    obtain rfl := List.mem_singleton.mp hkey
    exact h
  | _ => exact hnone _ h

theorem within_alterStep (flavor : Flavor) (h : table.id = owner) (action : AlterAction) :
    Within owner (alterStep flavor table action) := by
  cases action with
  | addColumn column => exact within_addColumn flavor h column
  | addConstraint c => exact within_addConstraint h c
  | other text position => exact ⟨h, by simp [alterStep, Trace.remark]⟩

theorem within_runSteps {step : Entity → α → Entity × Trace}
    (hstep : ∀ table a, table.id = owner → Within owner (step table a)) (h : table.id = owner)
    (steps : List α) :
    Within owner (runSteps step table steps) := by
  refine List.foldlRecOn (motive := Within owner) _ _ ⟨h, by simp⟩ ?_
  rintro ⟨table, trace⟩ ⟨hid, hsource⟩ a -
  obtain ⟨hnext, hmore⟩ := hstep table a hid
  refine ⟨hnext, fun key hkey => ?_⟩
  rcases List.mem_append.mp hkey with hkey | hkey
  · exact hsource key hkey
  · exact hmore key hkey

end

theorem within_buildTable (flavor : Flavor) (c : CreateTable) :
    Within c.name.entityName (buildTable flavor c) := by
  obtain ⟨hid, hfirst⟩ := within_runSteps (fun table a h => within_addColumn flavor h a)
    (rfl : Entity.id { space := c.name.entityName.space, name := c.name.entityName.name } = c.name.entityName)
    c.columns
  obtain ⟨hend, hsecond⟩ := within_runSteps (fun table a h => within_addConstraint h a) hid c.constraints
  refine ⟨hend, fun key hkey => ?_⟩
  rcases List.mem_append.mp hkey with hkey | hkey
  · exact hfirst key hkey
  · exact hsecond key hkey

-- ---------------------------------------------------------------------------
-- Views of one table
-- ---------------------------------------------------------------------------

/-- What is known of a table: the table and the foreign keys that start from it. -/
def ImportState.view (s : ImportState) (owner : EntityName) : Option Entity × List Relation :=
  (s.find? owner, (s.trace.pending.map (·.relation)).filter (·.source.entity = owner))

theorem find?_modifyFirst {changed : Entity} (h : changed.id = owner) (tables : List Entity) :
    (modifyFirst (·.id == owner) (fun _ => changed) tables).find? (·.id == owner) =
      (tables.find? (·.id == owner)).map fun _ => changed := by
  induction tables with
  | nil => rfl
  | cons table tables ih =>
    rw [modifyFirst]
    by_cases htable : table.id = owner
    · simp [htable, h]
    · simp [htable, ih]

theorem find?_modifyFirst_other {changed : Entity} (h : changed.id = owner) (hne : other ≠ owner)
    (tables : List Entity) :
    (modifyFirst (·.id == owner) (fun _ => changed) tables).find? (·.id == other) =
      tables.find? (·.id == other) := by
  induction tables with
  | nil => rfl
  | cons table tables ih =>
    rw [modifyFirst]
    by_cases htable : table.id = owner
    · simp [htable, h, hne.symm]
    · simp [htable, List.find?_cons, ih]

theorem id_of_find? {s : ImportState} (h : s.find? owner = some table) : table.id = owner := by
  simpa using List.find?_some h

/-- The relations of foreign keys that start elsewhere are not in the view. -/
theorem filter_relations_append {keys more : List PendingKey}
    (h : ∀ key ∈ more, key.relation.source.entity = owner) (other : EntityName) :
    ((keys ++ more).map (·.relation)).filter (·.source.entity = other) =
      (keys.map (·.relation)).filter (·.source.entity = other) ++
        if other = owner then more.map (·.relation) else [] := by
  rw [List.map_append, List.filter_append]
  congr 1
  split
  · rename_i heq
    refine List.filter_eq_self.mpr fun r hr => ?_
    obtain ⟨key, hkey, rfl⟩ := List.mem_map.mp hr
    simpa [heq] using h key hkey
  · rename_i hne
    refine List.filter_eq_nil_iff.mpr fun r hr => ?_
    obtain ⟨key, hkey, rfl⟩ := List.mem_map.mp hr
    simpa [h key hkey] using Ne.symm hne

/-- What a change makes of the view of its table. -/
def viewAfter (f : Entity → Entity × Trace) : Option Entity × List Relation → Option Entity × List Relation
  | (some table, relations) => (some (f table).1, relations ++ (f table).2.pending.map (·.relation))
  | (none, relations) => (none, relations)

/-- What a definition makes of the view of its table: the first one counts. -/
def viewCreated (change : Entity × Trace) :
    Option Entity × List Relation → Option Entity × List Relation
  | (some table, relations) => (some table, relations)
  | (none, relations) => (some change.1, relations ++ change.2.pending.map (·.relation))

theorem view_note (s : ImportState) (r : Remark) (position : Position) (other : EntityName) :
    (s.note r position).view other = s.view other := by
  refine Prod.ext rfl ?_
  show ((s.trace.pending ++ []).map _).filter _ = _
  rw [List.append_nil]
  rfl

section
variable {f : Entity → Entity × Trace} (hf : ∀ table : Entity, table.id = owner → Within owner (f table))

include hf

theorem view_change (s : ImportState) (position : Position) :
    (s.change owner position f).view owner = viewAfter f (s.view owner) := by
  rw [ImportState.change]
  cases h : s.find? owner with
  | none =>
    have hview : s.view owner = (none, (s.view owner).2) := Prod.ext h rfl
    rw [view_note, hview, viewAfter]
  | some table =>
    have hwithin := hf table (id_of_find? h)
    have hview : s.view owner = (some table, (s.view owner).2) := Prod.ext h rfl
    rw [hview, viewAfter]
    refine Prod.ext ?_ ?_
    · show (modifyFirst _ _ s.tables).find? _ = _
      rw [find?_modifyFirst hwithin.table]
      show Option.map _ (s.find? owner) = _
      rw [h]
      rfl
    · show ((s.trace.pending ++ (f table).2.pending).map _).filter _ = _
      rw [filter_relations_append hwithin.source, if_pos rfl]
      rfl

theorem view_change_other (hne : other ≠ owner) (s : ImportState) (position : Position) :
    (s.change owner position f).view other = s.view other := by
  rw [ImportState.change]
  cases h : s.find? owner with
  | none => exact view_note s _ _ other
  | some table =>
    have hwithin := hf table (id_of_find? h)
    refine Prod.ext ?_ ?_
    · exact find?_modifyFirst_other hwithin.table hne s.tables
    · show ((s.trace.pending ++ (f table).2.pending).map _).filter _ = _
      rw [filter_relations_append hwithin.source, if_neg hne, List.append_nil]
      rfl

end

theorem view_createTable (flavor : Flavor) (c : CreateTable) (s : ImportState) :
    (s.createTable flavor c).view c.name.entityName =
      viewCreated (buildTable flavor c) (s.view c.name.entityName) := by
  have hwithin := within_buildTable flavor c
  rw [ImportState.createTable]
  dsimp only
  cases h : s.find? c.name.entityName with
  | some table =>
    have hview : s.view c.name.entityName = (some table, (s.view c.name.entityName).2) := Prod.ext h rfl
    dsimp only
    rw [view_note, hview, viewCreated]
  | none =>
    have hview : s.view c.name.entityName = (none, (s.view c.name.entityName).2) := Prod.ext h rfl
    rw [hview, viewCreated]
    refine Prod.ext ?_ ?_
    · show (s.tables ++ [_]).find? _ = _
      rw [List.find?_append, show s.tables.find? _ = none from h]
      simp [hwithin.table]
    · show ((s.trace.pending ++ (buildTable flavor c).2.pending).map _).filter _ = _
      rw [filter_relations_append hwithin.source, if_pos rfl]
      rfl

theorem view_createTable_other (flavor : Flavor) (c : CreateTable) (hne : other ≠ c.name.entityName)
    (s : ImportState) : (s.createTable flavor c).view other = s.view other := by
  have hwithin := within_buildTable flavor c
  rw [ImportState.createTable]
  dsimp only
  cases h : s.find? c.name.entityName with
  | some table => exact view_note s _ _ other
  | none =>
    refine Prod.ext ?_ ?_
    · show (s.tables ++ [_]).find? _ = s.tables.find? _
      rw [List.find?_append]
      simp [hwithin.table, hne.symm]
    · show ((s.trace.pending ++ (buildTable flavor c).2.pending).map _).filter _ = _
      rw [filter_relations_append hwithin.source, if_neg hne, List.append_nil]
      rfl

-- ---------------------------------------------------------------------------
-- Statements
-- ---------------------------------------------------------------------------

/-- A statement defines a table, changes the table it is about, or touches neither tables nor foreign
keys. -/
theorem statement_cases (flavor : Flavor) (st : Statement) :
    (∃ c, st = .createTable c) ∨
    (∃ owner position f, st.table? = some owner ∧
      (∀ table : Entity, table.id = owner → Within owner (f table)) ∧
      ∀ s : ImportState, s.statement flavor st = s.change owner position f) ∨
    (st.table? = none ∧ ∀ (s : ImportState) other, (s.statement flavor st).view other = s.view other) := by
  have hquiet : ∀ (owner : EntityName) (table changed : Entity), table.id = owner →
      changed.id = table.id → Within owner (changed, {}) :=
    fun owner table changed htable hchanged => ⟨hchanged.trans htable, by simp⟩
  cases st with
  | createTable c => exact .inl ⟨c, rfl⟩
  | alterTable a =>
    exact .inr (.inl ⟨_, _, _, rfl,
      fun table h => within_runSteps (fun table a h => within_alterStep flavor h a) h a.actions,
      fun s => rfl⟩)
  | createIndex c =>
    exact .inr (.inl ⟨_, _, fun table => (addIndex c table, {}), rfl,
      fun table h => hquiet _ table _ h rfl, fun s => rfl⟩)
  | commentOn c =>
    obtain ⟨target, text, position⟩ := c
    cases target with
    | table name =>
      exact .inr (.inl ⟨_, _, fun table => ({ table with doc := text }, {}), rfl,
        fun table h => hquiet _ table _ h rfl, fun s => rfl⟩)
    | column name =>
      cases hsplit : name.splitColumn? with
      | none =>
        refine .inr (.inr ⟨by simp [Statement.table?, hsplit], fun s other => ?_⟩)
        show (s.commentOn _).view other = _
        simp only [ImportState.commentOn, hsplit]
        exact view_note s _ _ other
      | some split =>
        obtain ⟨owner, column⟩ := split
        refine .inr (.inl ⟨owner, name.position, fun table =>
          if table.hasAttribute [column] then
            ({ table with attrs := modifyAttribute (fun a => { a with doc := text }) table.attrs [column] }, {})
          else (table, .remark (.unknownColumn owner [column]) name.position),
          by simp [Statement.table?, hsplit], fun table h => ?_, fun s => ?_⟩)
        · dsimp only
          split
          · exact hquiet _ table _ h rfl
          · exact ⟨h, by simp [Trace.remark]⟩
        · show s.commentOn ⟨.column name, text, position⟩ = _
          simp only [ImportState.commentOn, hsplit]
  | unmodelled u => exact .inr (.inr ⟨rfl, fun s other => view_note s _ _ other⟩)
  | _ => exact .inr (.inr ⟨rfl, fun s other => rfl⟩)

/-- A statement about a table: what becomes of the view depends on the view alone. -/
theorem view_statement (flavor : Flavor) {st : Statement} (h : st.table? = some owner) :
    ∃ g : Option Entity × List Relation → Option Entity × List Relation,
      ∀ s : ImportState, (s.statement flavor st).view owner = g (s.view owner) := by
  rcases statement_cases flavor st with ⟨c, rfl⟩ | ⟨own, position, f, hown, hf, hchange⟩ | ⟨hnone, -⟩
  · obtain rfl : c.name.entityName = owner := Option.some.inj h
    exact ⟨_, view_createTable flavor c⟩
  · obtain rfl : own = owner := Option.some.inj (hown.symm.trans h)
    exact ⟨viewAfter f, fun s => by rw [hchange, view_change hf]⟩
  · rw [hnone] at h
    contradiction

theorem view_statement_other (flavor : Flavor) {st : Statement} (h : st.table? ≠ some owner)
    (s : ImportState) : (s.statement flavor st).view owner = s.view owner := by
  rcases statement_cases flavor st with ⟨c, rfl⟩ | ⟨own, position, f, hown, hf, hchange⟩ | ⟨-, hview⟩
  · exact view_createTable_other flavor c (fun heq => h (congrArg some heq.symm)) s
  · rw [hchange]
    exact view_change_other hf (fun heq => h (hown.trans (congrArg some heq.symm))) s position
  · exact hview s owner

-- ---------------------------------------------------------------------------
-- Scripts
-- ---------------------------------------------------------------------------

/-- The state behind some statements. -/
def ImportState.run (flavor : Flavor) (statements : List Statement) (s : ImportState) : ImportState :=
  statements.foldl (ImportState.statement flavor) s

theorem view_run_congr (flavor : Flavor) (statements : List Statement) {s t : ImportState}
    (h : s.view owner = t.view owner) :
    (s.run flavor statements).view owner = (t.run flavor statements).view owner := by
  induction statements generalizing s t with
  | nil => exact h
  | cons st statements ih =>
    refine ih ?_
    by_cases hown : st.table? = some owner
    · obtain ⟨g, hg⟩ := view_statement flavor hown
      rw [hg, hg, h]
    · rw [view_statement_other flavor hown, view_statement_other flavor hown, h]

/-- Only the statements about a table count for it. -/
theorem view_run (flavor : Flavor) (statements : List Statement) (s : ImportState) :
    (s.run flavor statements).view owner =
      (s.run flavor (statements.filter (·.table? = some owner))).view owner := by
  induction statements generalizing s with
  | nil => rfl
  | cons st statements ih =>
    by_cases hown : st.table? = some owner
    · rw [List.filter_cons_of_pos (by simpa using hown)]
      exact ih _
    · rw [List.filter_cons_of_neg (by simpa using hown), ← ih]
      exact view_run_congr flavor statements (view_statement_other flavor hown s)

-- ---------------------------------------------------------------------------
-- Types
-- ---------------------------------------------------------------------------

/-- The types that a statement defines. -/
def typesOf (flavor : Flavor) : Statement → List NamedType
  | .createType c => (({} : ImportState).createType flavor c).types
  | _ => []

theorem id_of_mem_typesOf (h : t ∈ typesOf flavor st) : st.type? = some t.id := by
  cases st with
  | createType c =>
    obtain ⟨name, definition, position⟩ := c
    obtain rfl := List.mem_singleton.mp h
    cases definition <;> rfl
  | _ => contradiction

theorem types_statement (flavor : Flavor) (st : Statement) (s : ImportState) :
    (s.statement flavor st).types = s.types ++ typesOf flavor st := by
  have hchange (owner : EntityName) (position : Position) (f : Entity → Entity × Trace) :
      (s.change owner position f).types = s.types ++ [] := by
    rw [ImportState.change, List.append_nil]
    split <;> rfl
  cases st with
  | createType c => rfl
  | createTable c =>
    show (s.createTable flavor c).types = s.types ++ []
    rw [ImportState.createTable, List.append_nil]
    dsimp only
    split <;> rfl
  | alterTable a => exact hchange _ _ _
  | createIndex c => exact hchange _ _ _
  | commentOn c =>
    show (s.commentOn c).types = s.types ++ []
    rw [ImportState.commentOn]
    split
    · exact hchange _ _ _
    · split
      · exact (List.append_nil _).symm
      · exact hchange _ _ _
  | _ => exact (List.append_nil _).symm

theorem types_run (flavor : Flavor) (statements : List Statement) (s : ImportState) :
    (s.run flavor statements).types = s.types ++ statements.flatMap (typesOf flavor) := by
  induction statements generalizing s with
  | nil => exact (List.append_nil _).symm
  | cons st statements ih =>
    rw [List.flatMap_cons, ← List.append_assoc, ← types_statement]
    exact ih _

/-- Only the definitions of a type count for it. -/
theorem filter_typesOf (flavor : Flavor) (statements : List Statement) (id : TypeName) :
    (statements.flatMap (typesOf flavor)).filter (·.id = id) =
      (statements.filter (·.type? = some id)).flatMap (typesOf flavor) := by
  induction statements with
  | nil => rfl
  | cons st statements ih =>
    rw [List.flatMap_cons, List.filter_append, ih]
    by_cases hown : st.type? = some id
    · have hall : (typesOf flavor st).filter (·.id = id) = typesOf flavor st := by
        refine List.filter_eq_self.mpr fun t ht => ?_
        simpa using (Option.some.inj (hown.symm.trans (id_of_mem_typesOf ht))).symm
      rw [List.filter_cons_of_pos (by simpa using hown), List.flatMap_cons, hall]
    · have hnone : (typesOf flavor st).filter (·.id = id) = [] := by
        refine List.filter_eq_nil_iff.mpr fun t ht hid => hown ?_
        rw [id_of_mem_typesOf ht]
        exact congrArg some (by simpa using hid)
      rw [List.filter_cons_of_neg (by simpa using hown), hnone, List.nil_append]

theorem firstAt?_types_run (flavor : Flavor) (statements : List Statement) (id : TypeName) :
    firstAt? NamedType.id (({} : ImportState).run flavor statements).types id =
      firstAt? NamedType.id ((statements.filter (·.type? = some id)).flatMap (typesOf flavor)) id := by
  have hid : ∀ t ∈ statements.flatMap (typesOf flavor), t.id = id → decide (t.id = id) = true :=
    fun _ _ => decide_eq_true
  rw [types_run, List.nil_append, ← firstAt?_filter hid, filter_typesOf]

-- ---------------------------------------------------------------------------
-- Reordered scripts
-- ---------------------------------------------------------------------------

theorem view_reordered (h : Reordered p q) (flavor : Flavor) (owner : EntityName) :
    (({} : ImportState).run flavor p).view owner = (({} : ImportState).run flavor q).view owner := by
  rw [view_run, h.table, ← view_run]

/-- The columns that a foreign key refers to when it names none: the key of the table, if it has one. -/
def impliedColumns (table : Option Entity) : List AttributePath :=
  (table.bind (·.primaryKey)).elim ImportState.fallbackKey (·.attrs)

/-- A relation whose target says its columns. -/
def resolved (find? : EntityName → Option Entity) (r : Relation) : Relation :=
  { r with target := { r.target with
      attrs := if r.target.attrs.isEmpty then impliedColumns (find? r.target.entity) else r.target.attrs } }

theorem resolve_eq (s : ImportState) (key : PendingKey) :
    (s.resolve key).1 = resolved s.find? key.relation := by
  rw [ImportState.resolve, resolved]
  cases s.find? key.relation.target.entity with
  | none => rfl
  | some table =>
    dsimp only
    rw [impliedColumns, Option.bind_some]
    cases table.primaryKey <;> rfl

/-- The schema that a script leads to. -/
theorem value_importStatements (statements : List Statement) (flavor : Flavor) :
    let s := ({} : ImportState).run flavor statements
    (importStatements statements flavor).value = some {
      entities := s.tables
      relations := (s.trace.pending.map (·.relation)).map (resolved s.find?)
      types := s.types } := by
  intro s
  have hresolved : (s.trace.pending.map s.resolve).map (·.1) =
      (s.trace.pending.map (·.relation)).map (resolved s.find?) := by
    rw [List.map_map, List.map_map]
    exact List.map_congr_left fun key _ => resolve_eq s key
  rw [← hresolved]
  rfl

/-- A relation is found among those that start from its table. -/
theorem firstAt?_resolved (find? : EntityName → Option Entity) (relations : List Relation) (k : RelationKey) :
    firstAt? Relation.key (relations.map (resolved find?)) k =
      firstAt? Relation.key ((relations.filter (·.source.entity = k.source)).map (resolved find?)) k := by
  have hsource : ∀ r ∈ relations.map (resolved find?), r.key = k →
      decide (r.source.entity = k.source) = true := by
    rintro r - rfl
    exact decide_eq_true rfl
  rw [← firstAt?_filter hsource, List.filter_map]
  rfl

/-- Statements about different tables may be interleaved in any way. A foreign key without columns
refers to the key that its target has in the end, in one order as in the other. -/
theorem importStatements_reordered (h : Reordered p q) (flavor : Flavor) :
    ∃ left right, (importStatements p flavor).value = some left ∧
      (importStatements q flavor).value = some right ∧ (left.diff right).isEmpty = true ∧
      ∀ key ∈ (({} : ImportState).run flavor p).trace.pending, key.relation.target.attrs = [] →
        let target := left.entities.find? (·.id == key.relation.target.entity)
        let r := { key.relation with
          target := { key.relation.target with attrs := impliedColumns target } }
        r ∈ left.relations ∧ r ∈ right.relations := by
  have hview := view_reordered h flavor
  have hfind : (({} : ImportState).run flavor p).find? = (({} : ImportState).run flavor q).find? :=
    funext fun owner => congrArg Prod.fst (hview owner)
  have hsource (owner : EntityName) :
      ((({} : ImportState).run flavor p).trace.pending.map (·.relation)).filter
          (·.source.entity = owner) =
        ((({} : ImportState).run flavor q).trace.pending.map (·.relation)).filter
          (·.source.entity = owner) := congrArg Prod.snd (hview owner)
  refine ⟨_, _, value_importStatements p flavor, value_importStatements q flavor,
    isEmpty_diff (.of_eq fun owner => ?_) (.of_eq fun k => ?_) (.of_eq fun id => ?_),
    fun key hkey hnone => ?_⟩
  · exact congrFun hfind owner
  · refine (firstAt?_resolved _ _ k).trans (Eq.trans ?_ (firstAt?_resolved _ _ k).symm)
    rw [hsource, hfind]
  · refine (firstAt?_types_run flavor p id).trans (Eq.trans ?_ (firstAt?_types_run flavor q id).symm)
    rw [h.type]
  · have hresolved : resolved (({} : ImportState).run flavor p).find? key.relation = { key.relation with
        target := { key.relation.target with
          attrs := impliedColumns ((({} : ImportState).run flavor p).find? key.relation.target.entity) } } := by
      rw [resolved, hnone]
      rfl
    have hleft : key.relation ∈ (({} : ImportState).run flavor p).trace.pending.map (·.relation) :=
      List.mem_map_of_mem hkey
    have hright : key.relation ∈ (({} : ImportState).run flavor q).trace.pending.map (·.relation) := by
      have hmem : key.relation ∈ ((({} : ImportState).run flavor p).trace.pending.map (·.relation)).filter
          (·.source.entity = key.relation.source.entity) :=
        List.mem_filter.mpr ⟨hleft, decide_eq_true rfl⟩
      rw [hsource] at hmem
      exact List.mem_of_mem_filter hmem
    intro target r
    have hr : r = resolved (({} : ImportState).run flavor p).find? key.relation := hresolved.symm
    rw [hr]
    refine ⟨List.mem_map_of_mem hleft, ?_⟩
    rw [hfind]
    exact List.mem_map_of_mem hright

-- ---------------------------------------------------------------------------
-- A table that is defined before the one it refers to
-- ---------------------------------------------------------------------------

def plainIdentifier (name : String) : Identifier := ⟨name, false, .unknown⟩

def plainColumn (name : String) (constraints : List ColumnConstraint) : ColumnDef :=
  ⟨plainIdentifier name, ⟨"int", .unknown⟩, constraints, .unknown⟩

/-- Orders with a foreign key that names no columns. -/
def createOrders : Statement :=
  .createTable ⟨false, ⟨[plainIdentifier "orders"]⟩, [plainColumn "buyer"
    [⟨none, .references ⟨⟨[plainIdentifier "customers"]⟩, [], none, none⟩, .unknown⟩]], [], .unknown⟩

def createCustomers : Statement :=
  .createTable ⟨false, ⟨[plainIdentifier "customers"]⟩, [plainColumn "number" []], [], .unknown⟩

/-- The key of the customers comes last. -/
def addCustomersKey : Statement :=
  .alterTable ⟨⟨[plainIdentifier "customers"]⟩,
    [.addConstraint ⟨none, .primaryKey [plainIdentifier "number"], .unknown⟩], .unknown⟩

theorem reordered_sample : Reordered [createOrders, createCustomers, addCustomersKey]
    [createCustomers, addCustomersKey, createOrders] where
  perm := (List.perm_append_comm : ([createOrders] ++ [createCustomers, addCustomersKey]).Perm _)
  table id := by
    by_cases h : id = { name := "orders" }
    · subst h
      decide
    · have hother : createOrders.table? ≠ some id := fun heq => h (Option.some.inj heq).symm
      have hnone : [createOrders].filter (·.table? = some id) = [] := List.filter_eq_nil_iff.mpr (by simpa)
      show ([createOrders] ++ [createCustomers, addCustomersKey]).filter _ =
        ([createCustomers, addCustomersKey] ++ [createOrders]).filter _
      rw [List.filter_append, List.filter_append, hnone, List.append_nil, List.nil_append]
  type id := rfl

theorem importStatements_reordered_sample :
    Reordered [createOrders, createCustomers, addCustomersKey]
      [createCustomers, addCustomersKey, createOrders] ∧
    ∃ left right,
      (importStatements [createOrders, createCustomers, addCustomersKey] .generic).value = some left ∧
      (importStatements [createCustomers, addCustomersKey, createOrders] .generic).value = some right ∧
      (left.diff right).isEmpty = true ∧
      ∀ key ∈ (({} : ImportState).run .generic
          [createOrders, createCustomers, addCustomersKey]).trace.pending,
        key.relation.target.attrs = [] →
        let target := left.entities.find? (·.id == key.relation.target.entity)
        let r := { key.relation with
          target := { key.relation.target with attrs := impliedColumns target } }
        r ∈ left.relations ∧ r ∈ right.relations :=
  ⟨reordered_sample, importStatements_reordered reordered_sample .generic⟩

end SchemaDialects.Sql
