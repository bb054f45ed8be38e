import SchemaDialects.Proofs.Sql.Keyed

/-!
# What a script declares

`importStatements_declared`: the tables of an imported schema are those that the script creates, in the order of
their first definitions, and its relations are the foreign keys of these definitions and of the changes to tables
that are there. No statement loses what an earlier one made (`Grown`). One step adds columns and foreign keys
to its table (`Adds`), so that a script adds those of its effective statements (`ImportState.Declared.run`).
-/

namespace SchemaDialects

-- ---------------------------------------------------------------------------
-- Tables that grow
-- ---------------------------------------------------------------------------

/-- What the first table has is kept in the second one, with more behind it. -/
structure Entity.Grows (before after : Entity) : Prop where
  id : after.id = before.id
  columns : before.attrs.map (·.name) <+: after.attrs.map (·.name)
  indexes : before.indexes <+: after.indexes
  checks : before.checks <+: after.checks
  key : before.primaryKey.isSome = true → after.primaryKey.isSome = true

/-- Every table keeps its place, and it grows. -/
def Grown (before after : List Entity) : Prop :=
  ∀ (i : Nat) (table : Entity), before[i]? = some table → ∃ table', after[i]? = some table' ∧ table.Grows table'

theorem Entity.Grows.refl (table : Entity) : table.Grows table :=
  ⟨rfl, List.prefix_rfl, List.prefix_rfl, List.prefix_rfl, fun h => h⟩

theorem Entity.Grows.trans {first second third : Entity} (h : first.Grows second) (h' : second.Grows third) :
    first.Grows third :=
  ⟨h'.id.trans h.id, h.columns.trans h'.columns, h.indexes.trans h'.indexes, h.checks.trans h'.checks,
    fun hkey => h'.key (h.key hkey)⟩

theorem Grown.refl (tables : List Entity) : Grown tables tables := fun _ table h => ⟨table, h, .refl table⟩

theorem Grown.trans (h : Grown first second) (h' : Grown second third) : Grown first third := by
  intro i table htable
  obtain ⟨table', htable', hgrows⟩ := h i table htable
  obtain ⟨table'', htable'', hgrows'⟩ := h' i table' htable'
  exact ⟨table'', htable'', hgrows.trans hgrows'⟩

theorem grown_append (tables more : List Entity) : Grown tables (tables ++ more) := by
  intro i table h
  obtain ⟨hi, -⟩ := List.getElem?_eq_some_iff.mp h
  exact ⟨table, (List.getElem?_append_left hi).trans h, .refl table⟩

theorem grown_modifyFirst {p : Entity → Bool} (hfind : tables.find? p = some table) (h : table.Grows changed) :
    Grown tables (modifyFirst p (fun _ => changed) tables) := by
  induction tables with
  | nil => cases hfind
  | cons first rest ih =>
    rw [modifyFirst]
    cases hfirst : p first with
    | true =>
      rw [List.find?_cons_of_pos hfirst] at hfind
      obtain rfl : first = table := Option.some.inj hfind
      intro i other hother
      cases i with
      | zero =>
        obtain rfl : first = other := Option.some.inj hother
        exact ⟨changed, rfl, h⟩
      | succ i => exact ⟨other, hother, .refl other⟩
    | false =>
      rw [List.find?_cons_of_neg (by simp [hfirst])] at hfind
      intro i other hother
      cases i with
      | zero => exact ⟨other, hother, .refl other⟩
      | succ i => exact ih hfind i other hother

theorem names_modifyAttribute {f : Attribute → Attribute} (h : ∀ attr, (f attr).name = attr.name)
    (attrs : List Attribute) (path : AttributePath) :
    (modifyAttribute f attrs path).map (·.name) = attrs.map (·.name) := by
  rcases path with _ | ⟨name, _ | _⟩
  · rfl
  · exact map_modifyFirst (fun attr _ => h attr) attrs
  · rw [modifyAttribute]
    · refine map_modifyFirst (fun attr _ => ?_) attrs
      rfl
    · simp

theorem eraseDups_snoc [DecidableEq α] (xs : List α) (x : α) :
    (xs ++ [x]).eraseDups = xs.eraseDups ++ if x ∈ xs then [] else [x] := by
  rw [List.eraseDups_append, List.removeAll]
  split
  · rename_i h
    simp [h]
  · rename_i h
    simp [h, List.eraseDups_cons]

theorem nodup_eraseDups [DecidableEq α] (xs : List α) : xs.eraseDups.Nodup := by
  induction xs using List.reverseRecOn with
  | nil => exact .nil
  | append_singleton xs x ih =>
    rw [eraseDups_snoc]
    split
    · rwa [List.append_nil]
    · rename_i h
      refine List.nodup_append.mpr ⟨ih, List.nodup_singleton x, fun a ha b hb => ?_⟩
      rintro rfl
      obtain rfl := List.mem_singleton.mp hb
      exact h (List.mem_eraseDups.mp ha)

namespace Sql

-- ---------------------------------------------------------------------------
-- Declarations
-- ---------------------------------------------------------------------------

/-- A foreign key as a definition writes it. -/
structure KeyClause where
  name : Option Identifier
  columns : List Identifier
  target : ForeignKeyRef

/-- The relation that a foreign key of a table stands for, with the columns that it names. -/
def KeyClause.relation (owner : EntityName) (k : KeyClause) : Relation where
  name := nameOf k.name
  source := ⟨owner, columnPaths k.columns, some .many⟩
  target := ⟨k.target.table.entityName, columnPaths k.target.columns, some .one⟩
  onDelete := k.target.onDelete.map (·.text)
  onUpdate := k.target.onUpdate.map (·.text)

def ColumnConstraint.keys (column : Identifier) (c : ColumnConstraint) : List KeyClause :=
  match c.rule with
  | .references target => [⟨c.name, [column], target⟩]
  | _ => []

def ColumnDef.keys (c : ColumnDef) : List KeyClause := c.constraints.flatMap (ColumnConstraint.keys c.name)

def TableConstraint.keys (c : TableConstraint) : List KeyClause :=
  match c.rule with
  | .foreignKey columns target => [⟨c.name, columns, target⟩]
  | _ => []

def AlterAction.columns : AlterAction → List String
  | .addColumn column => [column.name.value]
  | _ => []

def AlterAction.keys : AlterAction → List KeyClause
  | .addColumn column => column.keys
  | .addConstraint c => c.keys
  | .other .. => []

namespace Statement

/-- The table that the statement creates. -/
def created? : Statement → Option EntityName
  | .createTable c => some c.name.entityName
  | _ => none

/-- The columns that the statement adds to its table. -/
def columns : Statement → List String
  | .createTable c => c.columns.map (·.name.value)
  | .alterTable a => a.actions.flatMap AlterAction.columns
  | _ => []

/-- The foreign keys that the statement adds to its table: those at columns stand before those of the table. -/
def keys : Statement → List KeyClause
  | .createTable c => c.columns.flatMap ColumnDef.keys ++ c.constraints.flatMap TableConstraint.keys
  | .alterTable a => a.actions.flatMap AlterAction.keys
  | _ => []

def relations (st : Statement) : List Relation := st.table?.elim [] fun owner => st.keys.map (·.relation owner)

/-- A table is created if it is not there yet. All else about a table needs it to be there. -/
def takesEffect (known : List EntityName) (st : Statement) : Bool :=
  match st.created?, st.table? with
  | some id, _ => !known.contains id
  | none, some id => known.contains id
  | none, none => false

end Statement

/-- The tables that statements create, the same one perhaps again and again. -/
def createdTables (statements : List Statement) : List EntityName := statements.filterMap Statement.created?

/-- The statements that take effect when some tables are there. -/
def effective (known : List EntityName) : List Statement → List Statement
  | [] => []
  | st :: rest =>
    let behind := effective (known ++ st.created?.toList) rest
    if st.takesEffect known then st :: behind else behind

/-- The columns that statements add to a table. -/
def columnsFor (owner : EntityName) (statements : List Statement) : List String :=
  (statements.filter (·.table? = some owner)).flatMap Statement.columns

theorem columnsFor_snoc (owner : EntityName) (statements : List Statement) (st : Statement) :
    columnsFor owner (statements ++ [st]) =
      columnsFor owner statements ++ if st.table? = some owner then st.columns else [] := by
  by_cases h : st.table? = some owner <;> simp [columnsFor, h]

theorem effective_snoc (known : List EntityName) (statements : List Statement) (st : Statement) :
    effective known (statements ++ [st]) = effective known statements ++
      if st.takesEffect (known ++ createdTables statements) then [st] else [] := by
  induction statements generalizing known with
  | nil =>
    rw [List.nil_append, effective, effective, createdTables, List.filterMap_nil, List.append_nil]
    rfl
  | cons first rest ih =>
    have hcreated : createdTables (first :: rest) = first.created?.toList ++ createdTables rest := by
      cases h : first.created? <;> simp [createdTables, h]
    rw [List.cons_append, effective, effective, ih, hcreated, List.append_assoc]
    split
    · rw [List.cons_append]
    · rfl

theorem effective_snoc_of_takesEffect {script : List Statement} {st : Statement}
    (h : st.takesEffect (createdTables script) = true) :
    effective [] (script ++ [st]) = effective [] script ++ [st] := by
  rw [effective_snoc, List.nil_append, h]
  rfl

theorem created?_cases (st : Statement) : st.created? = none ∨ st.created? = st.table? := by
  cases st <;> simp [Statement.created?, Statement.table?]

/-- A statement takes effect on a table that is there or is created by it. -/
theorem mem_of_takesEffect {st : Statement} (h : st.takesEffect known = true) (howner : st.table? = some owner) :
    owner ∈ known ++ st.created?.toList := by
  rw [Statement.takesEffect, howner] at h
  rcases created?_cases st with hnone | hsome
  · rw [hnone] at h
    exact List.mem_append_left _ (List.contains_iff_mem.mp h)
  · rw [hsome, howner]
    simp

theorem createdTables_snoc (statements : List Statement) (st : Statement) :
    createdTables (statements ++ [st]) = createdTables statements ++ st.created?.toList := by
  cases h : st.created? <;> simp [createdTables, h]

theorem mem_of_mem_effective {script : List Statement} (h : st ∈ effective [] script)
    (howner : st.table? = some owner) : owner ∈ createdTables script := by
  induction script using List.reverseRecOn with
  | nil => cases h
  | append_singleton front last ih =>
    rw [createdTables_snoc]
    rw [effective_snoc, List.nil_append] at h
    rcases List.mem_append.mp h with h | h
    · exact List.mem_append_left _ (ih h)
    · split at h
      · rename_i heffect
        obtain rfl := List.mem_singleton.mp h
        exact mem_of_takesEffect heffect howner
      · cases h

/-- Nothing is added to a table that is not created. -/
theorem columnsFor_eq_nil {script : List Statement} (h : owner ∉ createdTables script) :
    columnsFor owner (effective [] script) = [] := by
  have hnone : (effective [] script).filter (·.table? = some owner) = [] :=
    List.filter_eq_nil_iff.mpr fun st hst howner => h (mem_of_mem_effective hst (of_decide_eq_true howner))
  rw [columnsFor, hnone]
  rfl

-- ---------------------------------------------------------------------------
-- Changes of one table
-- ---------------------------------------------------------------------------

/-- A change keeps what the table has and adds columns and foreign keys to it. -/
structure Adds (table : Entity) (columns : List String) (keys : List KeyClause) (change : Entity × Trace) : Prop where
  id : change.1.id = table.id := by rfl
  columns : change.1.attrs.map (·.name) = table.attrs.map (·.name) ++ columns := by exact (List.append_nil _).symm
  indexes : table.indexes <+: change.1.indexes := by exact List.prefix_rfl
  checks : table.checks <+: change.1.checks := by exact List.prefix_rfl
  key : table.primaryKey.isSome = true → change.1.primaryKey.isSome = true := by exact fun h => h
  pending : change.2.pending.map (·.relation) = keys.map (·.relation table.id) := by rfl

theorem Adds.grows {table : Entity} {columns : List String} (h : Adds table columns keys change) :
    table.Grows change.1 :=
  ⟨h.id, ⟨columns, h.columns.symm⟩, h.indexes, h.checks, h.key⟩

theorem Adds.refl (table : Entity) : Adds table [] [] (table, {}) :=
  {}

theorem Adds.trans {table next : Entity} {columns more : List String} {trace : Trace}
    (h : Adds table columns keys (next, trace)) (h' : Adds next more others change) :
    Adds table (columns ++ more) (keys ++ others) (change.1, trace ++ change.2) where
  id := h'.id.trans h.id
  columns := by rw [h'.columns, h.columns, List.append_assoc]
  indexes := h.indexes.trans h'.indexes
  checks := h.checks.trans h'.checks
  key hkey := h'.key (h.key hkey)
  pending := by
    show (trace.pending ++ change.2.pending).map _ = _
    rw [List.map_append, List.map_append, h.pending, h'.pending, show next.id = table.id from h.id]

theorem adds_apply (s : ColumnState) (c : ColumnConstraint) : ∃ more,
    (s.apply c).trace = s.trace ++ more ∧ (s.apply c).attr.name = s.attr.name ∧
      ∀ column : Identifier, column.value = s.attr.name →
        Adds s.table [] (c.keys column) ((s.apply c).table, more) := by
  have hempty : s.trace = s.trace ++ ({} : Trace) := by
    show s.trace = ⟨s.trace.pending ++ [], s.trace.remarks ++ []⟩
    rw [List.append_nil, List.append_nil]
  obtain ⟨name, rule, position⟩ := c
  cases rule with
  | primaryKey => exact ⟨{}, hempty, rfl, fun column _ => { key := fun _ => rfl }⟩
  | unique => exact ⟨{}, hempty, rfl, fun column _ => { indexes := List.prefix_append _ _ }⟩
  | check e => exact ⟨{}, hempty, rfl, fun column _ => { checks := List.prefix_append _ _ }⟩
  | «references» target =>
    refine ⟨_, rfl, rfl, fun column hcolumn => { pending := ?_ }⟩
    simp [foreignKey, ColumnConstraint.keys, KeyClause.relation, Relation.manyToOne, columnPaths, hcolumn]
  | _ => exact ⟨{}, hempty, rfl, fun column _ => .refl s.table⟩

/-- Constraints leave a column under construction its name, and only their foreign keys are added to the table. -/
theorem adds_constraints (column : Identifier) (constraints : List ColumnConstraint) (start : ColumnState)
    (hstart : start.attr.name = column.value) (htrace : start.trace = {}) :
    let s := constraints.foldl ColumnState.apply start
    s.attr.name = column.value ∧
      Adds start.table [] (constraints.flatMap (ColumnConstraint.keys column)) (s.table, s.trace) := by
  induction constraints using List.reverseRecOn with
  | nil => exact ⟨hstart, htrace ▸ .refl start.table⟩
  | append_singleton constraints c ih =>
    obtain ⟨hname, hadds⟩ := ih
    obtain ⟨more, htrace, hkept, hmore⟩ := adds_apply (constraints.foldl ColumnState.apply start) c
    rw [List.foldl_append, List.flatMap_append]
    refine ⟨hkept.trans hname, ?_⟩
    show Adds _ _ _ (ColumnState.table _, ColumnState.trace _)
    simp only [List.foldl_cons, List.foldl_nil, htrace, List.flatMap_cons, List.flatMap_nil, List.append_nil]
    exact hadds.trans (hmore column hname.symm)

theorem adds_addColumn (flavor : Flavor) (table : Entity) (column : ColumnDef) :
    Adds table [column.name.value] column.keys (addColumn flavor table column) := by
  unfold addColumn
  extract_lets attr s
  obtain ⟨hname, hadds⟩ := adds_constraints column.name column.constraints ⟨table, attr, {}⟩ rfl rfl
  refine { hadds with columns := ?_ }
  have hkept : s.table.attrs.map (·.name) = table.attrs.map (·.name) := hadds.columns.trans (List.append_nil _)
  show (s.table.attrs ++ [s.attr]).map (·.name) = _
  rw [List.map_append, hkept, List.map_singleton, show s.attr.name = column.name.value from hname]

theorem adds_requireColumns (position : Position) (paths : List AttributePath) (table : Entity) :
    Adds table [] [] (paths.foldl (requireColumn position) (table, {})) := by
  induction paths using List.reverseRecOn with
  | nil => exact .refl table
  | append_singleton paths path ih =>
    rw [List.foldl_append, List.foldl_cons, List.foldl_nil]
    generalize paths.foldl (requireColumn position) (table, {}) = state at ih ⊢
    rw [requireColumn]
    split
    · refine { ih with columns := Eq.trans ?_ ih.columns }
      exact names_modifyAttribute (f := fun a => { a with nullable := false }) (fun _ => rfl) state.1.attrs path
    · refine { ih with pending := Eq.trans ?_ ih.pending }
      show (state.2.pending ++ []).map _ = _
      rw [List.append_nil]

theorem adds_addConstraint (table : Entity) (c : TableConstraint) : Adds table [] c.keys (addConstraint table c) := by
  obtain ⟨name, rule, position⟩ := c
  cases rule with
  | primaryKey columns =>
    have hrequired := adds_requireColumns position (columnPaths columns) table
    exact { hrequired with key := fun _ => rfl }
  | foreignKey columns target => exact {}
  | check e => exact { checks := List.prefix_append _ _ }
  | _ => exact { indexes := List.prefix_append _ _ }

theorem adds_alterStep (flavor : Flavor) (table : Entity) (action : AlterAction) :
    Adds table action.columns action.keys (alterStep flavor table action) := by
  cases action with
  | addColumn column => exact adds_addColumn flavor table column
  | addConstraint c => exact adds_addConstraint table c
  | other text position => exact {}

/-- Steps add all that each one adds. -/
theorem adds_runSteps {step : Entity → α → Entity × Trace} {columns : α → List String} {keys : α → List KeyClause}
    (hstep : ∀ table a, Adds table (columns a) (keys a) (step table a)) (table : Entity) (steps : List α) :
    Adds table (steps.flatMap columns) (steps.flatMap keys) (runSteps step table steps) := by
  induction steps using List.reverseRecOn with
  | nil => exact .refl table
  | append_singleton steps a ih =>
    rw [runSteps_append, List.flatMap_append, List.flatMap_append]
    simp only [List.flatMap_cons, List.flatMap_nil, List.append_nil]
    exact ih.trans (hstep _ a)

theorem adds_buildTable (flavor : Flavor) (c : CreateTable) :
    Adds { space := c.name.entityName.space, name := c.name.entityName.name } (Statement.createTable c).columns
      (Statement.createTable c).keys (buildTable flavor c) := by
  have hcolumns := adds_runSteps (adds_addColumn flavor)
    { space := c.name.entityName.space, name := c.name.entityName.name } c.columns
  have hboth := hcolumns.trans (adds_runSteps adds_addConstraint _ c.constraints)
  have hnone : (c.constraints.flatMap fun _ => ([] : List String)) = [] := List.flatMap_eq_nil_iff.mpr fun _ _ => rfl
  rw [← List.map_eq_flatMap, hnone, List.append_nil] at hboth
  exact hboth

-- ---------------------------------------------------------------------------
-- Statements
-- ---------------------------------------------------------------------------

theorem pending_note (s : ImportState) (r : Remark) (position : Position) :
    (s.note r position).trace.pending = s.trace.pending := List.append_nil _

/-- A statement creates a table, adds to one that is there, or leaves the tables alone. -/
theorem declaring_cases (flavor : Flavor) (st : Statement) :
    (∃ c, st = .createTable c) ∨
    (∃ owner position f, st.table? = some owner ∧ st.created? = none ∧
      (∀ s : ImportState, s.statement flavor st = s.change owner position f) ∧
      ∀ table : Entity, Adds table st.columns st.keys (f table)) ∨
    (st.table? = none ∧ ∀ s : ImportState, (s.statement flavor st).tables = s.tables ∧
      (s.statement flavor st).trace.pending = s.trace.pending) := by
  cases st with
  | createTable c => exact .inl ⟨c, rfl⟩
  | alterTable a =>
    exact .inr (.inl ⟨_, _, _, rfl, rfl, fun s => rfl,
      fun table => adds_runSteps (adds_alterStep flavor) table a.actions⟩)
  | createIndex c =>
    exact .inr (.inl ⟨_, _, fun table => (addIndex c table, {}), rfl, rfl, fun s => rfl,
      fun table => { indexes := List.prefix_append _ _ }⟩)
  | commentOn c =>
    obtain ⟨target, text, position⟩ := c
    cases target with
    | table name =>
      exact .inr (.inl ⟨_, _, fun table => ({ table with doc := text }, {}), rfl, rfl, fun s => rfl,
        fun table => {}⟩)
    | column name =>
      cases hsplit : name.splitColumn? with
      | none =>
        refine .inr (.inr ⟨by simp [Statement.table?, hsplit], fun s => ?_⟩)
        simp only [ImportState.statement, ImportState.commentOn, hsplit]
        exact ⟨rfl, pending_note _ _ _⟩
      | some split =>
        obtain ⟨owner, column⟩ := split
        refine .inr (.inl ⟨owner, name.position, fun table =>
          if table.hasAttribute [column] then
            ({ table with attrs := modifyAttribute (fun a => { a with doc := text }) table.attrs [column] }, {})
          else (table, .remark (.unknownColumn owner [column]) name.position),
          by simp [Statement.table?, hsplit], rfl, fun s => ?_, fun table => ?_⟩)
        · simp only [ImportState.statement, ImportState.commentOn, hsplit]
        · dsimp only
          split
          · refine { columns := Eq.trans ?_ (List.append_nil _).symm }
            exact names_modifyAttribute (f := fun a => { a with doc := text }) (fun _ => rfl) table.attrs [column]
          · exact {}
  | unmodelled u => exact .inr (.inr ⟨rfl, fun s => ⟨rfl, pending_note _ _ _⟩⟩)
  | _ => exact .inr (.inr ⟨rfl, fun s => ⟨rfl, rfl⟩⟩)

namespace ImportState

theorem grown_statement (flavor : Flavor) (s : ImportState) (st : Statement) :
    Grown s.tables (s.statement flavor st).tables := by
  rcases declaring_cases flavor st with ⟨c, rfl⟩ | ⟨owner, position, f, -, -, hchange, hadds⟩ | ⟨-, hnone⟩
  · rw [ImportState.statement, ImportState.createTable]
    dsimp only
    split
    · exact .refl _
    · exact grown_append _ _
  · rw [hchange, ImportState.change]
    split
    · exact .refl _
    · rename_i table hfind
      exact grown_modifyFirst hfind (hadds table).grows
  · rw [(hnone s).1]
    exact .refl _

theorem grown_run (flavor : Flavor) (script : List Statement) (s : ImportState) :
    Grown s.tables (s.run flavor script).tables := by
  induction script generalizing s with
  | nil => exact .refl _
  | cons st script ih => exact (grown_statement flavor s st).trans (ih _)

/-- The tables and the foreign keys are those that a script declares. -/
structure Declared (script : List Statement) (s : ImportState) : Prop where
  ids : s.tables.map Entity.id = (createdTables script).eraseDups
  columns : ∀ id table, s.find? id = some table → table.attrs.map (·.name) = columnsFor id (effective [] script)
  pending : s.trace.pending.map (·.relation) = (effective [] script).flatMap Statement.relations

variable {script : List Statement} {s : ImportState}

theorem Declared.isSome_find? (h : s.Declared script) (id : EntityName) :
    (s.find? id).isSome = (createdTables script).contains id := by
  rw [Bool.eq_iff_iff, List.contains_iff_mem, ← List.mem_eraseDups, ← h.ids]
  simp [ImportState.find?]

theorem Declared.nodup (h : s.Declared script) : (s.tables.map Entity.id).Nodup := h.ids ▸ nodup_eraseDups _

theorem Declared.find?_of_mem (h : s.Declared script) {table : Entity} (htable : table ∈ s.tables) :
    s.find? table.id = some table := by
  obtain ⟨found, hfind⟩ := Option.isSome_iff_exists.mp (ImportState.isSome_find? (List.mem_map_of_mem htable))
  have hsame : found = table :=
    List.inj_on_of_nodup_map h.nodup (List.mem_of_find?_eq_some hfind) htable (id_of_find? hfind)
  rw [hfind, hsame]

theorem Declared.source (h : s.Declared script) :
    ∀ r ∈ s.trace.pending.map (·.relation), r.source.entity ∈ s.tables.map Entity.id := by
  intro r hr
  rw [h.pending] at hr
  obtain ⟨st, hst, hr⟩ := List.mem_flatMap.mp hr
  rw [Statement.relations] at hr
  cases howner : st.table? with
  | none => simp [howner] at hr
  | some owner =>
    rw [howner] at hr
    obtain ⟨k, -, rfl⟩ := List.mem_map.mp hr
    rw [h.ids]
    exact List.mem_eraseDups.mpr (mem_of_mem_effective hst howner)

/-- A statement that does not take effect changes nothing. -/
theorem Declared.skip {after : ImportState} (h : s.Declared script) {st : Statement}
    (heffect : st.takesEffect (createdTables script) = false)
    (hcreated : (createdTables (script ++ [st])).eraseDups = (createdTables script).eraseDups)
    (htables : after.tables = s.tables) (hpending : after.trace.pending = s.trace.pending) :
    after.Declared (script ++ [st]) := by
  have heffective : effective [] (script ++ [st]) = effective [] script := by
    rw [effective_snoc, List.nil_append, heffect]
    exact List.append_nil _
  refine ⟨by rw [htables, h.ids, hcreated], fun id table hfind => ?_, by rw [heffective, hpending, h.pending]⟩
  rw [heffective]
  rw [ImportState.find?, htables] at hfind
  exact h.columns id table hfind

/-- The foreign keys of a table are added behind those that wait. -/
theorem Declared.pending_append (h : s.Declared script) {st : Statement} {table : Entity} {change : Entity × Trace}
    (hadds : Adds table st.columns st.keys change) (howner : st.table? = some table.id) :
    (s.trace.pending ++ change.2.pending).map (·.relation) =
      (effective [] script ++ [st]).flatMap Statement.relations := by
  rw [List.map_append, List.flatMap_append, h.pending, hadds.pending, List.flatMap_singleton,
    Statement.relations, howner]
  rfl

theorem Declared.createTable (h : s.Declared script) (flavor : Flavor) (c : CreateTable) :
    (s.createTable flavor c).Declared (script ++ [.createTable c]) := by
  have hknown := h.isSome_find? c.name.entityName
  have hids : (createdTables (script ++ [.createTable c])).eraseDups = (createdTables script).eraseDups ++
      if c.name.entityName ∈ createdTables script then [] else [c.name.entityName] := by
    rw [createdTables_snoc]
    exact eraseDups_snoc _ _
  rw [ImportState.createTable]
  dsimp only
  cases hfind : s.find? c.name.entityName with
  | some table =>
    rw [hfind] at hknown
    have hmem : c.name.entityName ∈ createdTables script := List.contains_iff_mem.mp hknown.symm
    refine h.skip ?_ ?_ rfl (pending_note _ _ _)
    · simpa [Statement.takesEffect, Statement.created?] using hmem
    · rw [hids, if_pos hmem, List.append_nil]
  | none =>
    rw [hfind] at hknown
    have hnew : c.name.entityName ∉ createdTables script := fun hmem =>
      absurd (hknown.trans (List.contains_iff_mem.mpr hmem)) Bool.false_ne_true
    have hadds := adds_buildTable flavor c
    have hid : (buildTable flavor c).1.id = c.name.entityName := hadds.id
    have heffective : effective [] (script ++ [.createTable c]) = effective [] script ++ [.createTable c] := by
      refine effective_snoc_of_takesEffect ?_
      simpa [Statement.takesEffect, Statement.created?] using hnew
    refine ⟨?_, fun id table htable => ?_, ?_⟩
    · rw [hids, if_neg hnew, List.map_append, h.ids, List.map_singleton, hid]
    · rw [heffective, columnsFor_snoc]
      rw [ImportState.find?, List.find?_append] at htable
      rcases Option.or_eq_some_iff.mp htable with hold | ⟨-, hbuilt⟩
      · have hother : (Statement.createTable c).table? ≠ some id := by
          rintro ⟨⟩
          cases hfind.symm.trans hold
        rw [if_neg hother, List.append_nil, h.columns id table hold]
      · rw [List.find?_singleton] at hbuilt
        split at hbuilt
        · rename_i hown
          obtain rfl : c.name.entityName = id := hid.symm.trans (beq_iff_eq.mp hown)
          -- Earlier statements about the table did not take effect.
          rw [← Option.some.inj hbuilt, hadds.columns, columnsFor_eq_nil hnew]
          exact (if_pos rfl).symm
        · cases hbuilt
    · rw [heffective]
      exact h.pending_append hadds rfl

theorem Declared.change (h : s.Declared script) {st : Statement} {f : Entity → Entity × Trace}
    (howner : st.table? = some owner) (hcreated : st.created? = none)
    (hadds : ∀ table : Entity, Adds table st.columns st.keys (f table)) (position : Position) :
    (s.change owner position f).Declared (script ++ [st]) := by
  have heffect : st.takesEffect (createdTables script) = (s.find? owner).isSome := by
    rw [Statement.takesEffect, hcreated, howner, h.isSome_find?]
  have hids : (createdTables (script ++ [st])).eraseDups = (createdTables script).eraseDups := by
    rw [createdTables_snoc, hcreated, Option.toList_none, List.append_nil]
  rw [ImportState.change]
  cases hfind : s.find? owner with
  | none =>
    rw [hfind] at heffect
    exact h.skip heffect hids rfl (pending_note _ _ _)
  | some table =>
    have hid : table.id = owner := id_of_find? hfind
    have hchanged : (f table).1.id = owner := (hadds table).id.trans hid
    have heffective : effective [] (script ++ [st]) = effective [] script ++ [st] := by
      rw [hfind] at heffect
      exact effective_snoc_of_takesEffect heffect
    refine ⟨?_, fun id other hother => ?_, ?_⟩
    · rw [hids, ← h.ids]
      exact map_modifyFirst (fun first hfirst => hchanged.trans (beq_iff_eq.mp hfirst).symm) s.tables
    · rw [heffective, columnsFor_snoc]
      by_cases hown : id = owner
      · subst hown
        have hnow := find?_modifyFirst hchanged s.tables
        rw [show s.tables.find? _ = some table from hfind] at hnow
        obtain rfl : (f table).1 = other := Option.some.inj (hnow.symm.trans hother)
        rw [(hadds table).columns, h.columns _ table hfind, if_pos howner]
      · have hsame := find?_modifyFirst_other hchanged hown s.tables
        have hother' : st.table? ≠ some id := fun heq => hown (Option.some.inj (heq.symm.trans howner))
        rw [if_neg hother', List.append_nil]
        exact h.columns id other (hsame.symm.trans hother)
    · rw [heffective]
      exact h.pending_append (hadds table) (hid ▸ howner)

theorem Declared.statement (h : s.Declared script) (flavor : Flavor) (st : Statement) :
    (s.statement flavor st).Declared (script ++ [st]) := by
  rcases declaring_cases flavor st with ⟨c, rfl⟩ | ⟨owner, position, f, howner, hcreated, hchange, hadds⟩ |
    ⟨hnone, hsame⟩
  · exact h.createTable flavor c
  · rw [hchange]
    exact h.change howner hcreated hadds position
  · have hcreated : st.created? = none := (created?_cases st).elim id (·.trans hnone)
    refine h.skip ?_ ?_ (hsame s).1 (hsame s).2
    · rw [Statement.takesEffect, hcreated, hnone]
    · rw [createdTables_snoc, hcreated, Option.toList_none, List.append_nil]

theorem declared_run (flavor : Flavor) (script : List Statement) :
    (({} : ImportState).run flavor script).Declared script := by
  -- From the right: what the last statement does depends on all tables that are there before it.
  induction script using List.reverseRecOn with
  | nil => exact ⟨rfl, fun _ _ => nofun, rfl⟩
  | append_singleton script st ih =>
    rw [ImportState.run, List.foldl_append]
    exact ih.statement flavor st

end ImportState

/-- A script declares its tables and its foreign keys: every table that it creates is there once, in the place of its
first definition and with the columns that are added to it, and every foreign key of a table that is there is a
relation, in the order of the script. What is there stays there when the script goes on. -/
theorem importStatements_declared (statements : List Statement) (flavor : Flavor) :
    ∃ db, (importStatements statements flavor).value = some db ∧
      db.entities.map Entity.id = (createdTables statements).eraseDups ∧ (db.entities.map Entity.id).Nodup ∧
      (∀ table ∈ db.entities, table.attrs.map (·.name) = columnsFor table.id (effective [] statements)) ∧
      db.relations = ((effective [] statements).flatMap Statement.relations).map (resolved db.entity?) ∧
      (∀ r ∈ db.relations, r.source.entity ∈ db.entities.map Entity.id) ∧
      ∀ front back, statements = front ++ back →
        ∃ early, (importStatements front flavor).value = some early ∧ Grown early.entities db.entities := by
  have hdeclared := ImportState.declared_run flavor statements
  refine ⟨_, value_importStatements statements flavor, hdeclared.ids, hdeclared.nodup, ?_, ?_, ?_, ?_⟩
  · exact fun table htable => hdeclared.columns _ table (hdeclared.find?_of_mem htable)
  · rw [← hdeclared.pending]
    rfl
  · rintro _ hr
    obtain ⟨r, hpending, rfl⟩ := List.mem_map.mp hr
    exact hdeclared.source r hpending
  · rintro front back rfl
    refine ⟨_, value_importStatements front flavor, ?_⟩
    have hrun : ({} : ImportState).run flavor (front ++ back) =
        (({} : ImportState).run flavor front).run flavor back := List.foldl_append
    show Grown _ (ImportState.run flavor (front ++ back) _).tables
    rw [hrun]
    exact ImportState.grown_run flavor back _

end Sql

end SchemaDialects
