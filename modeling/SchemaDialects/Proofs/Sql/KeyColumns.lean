import SchemaDialects.Proofs.Sql.Declared

/-!
# Columns of a primary key

A table is what its own statements make of it (`find?_run`), by steps that add columns and constraints (`MadeBy`). A
column may be null if its own constraints leave it so and no later key of the table names it. This tells which columns
of a primary key may be null after all (`keyColumns_notNull_iff`): none if the steps are taken in the usual order
(`keyColumns_notNull`).
-/

namespace SchemaDialects.Sql

-- ---------------------------------------------------------------------------
-- Steps
-- ---------------------------------------------------------------------------

/-- What a constraint of a column says about null. -/
def ColumnConstraint.nullable? (c : ColumnConstraint) : Option Bool :=
  match c.rule with
  | .notNull | .primaryKey => some false
  | .null => some true
  | _ => none

/-- Whether the constraints of a column leave it nullable: the last one that says something counts. -/
def ColumnDef.nullable (c : ColumnDef) : Bool := (c.constraints.filterMap (·.nullable?)).getLast?.getD true

/-- The primary key that a step declares. -/
def AlterAction.key? : AlterAction → Option (List AttributePath)
  | .addColumn c => if c.constraints.any (·.rule = .primaryKey) then some [[c.name.value]] else none
  | .addConstraint ⟨_, .primaryKey columns, _⟩ => some (columnPaths columns)
  | _ => none

/-- The columns that a step makes not null by a key of the table. -/
def AlterAction.required : AlterAction → List String
  | .addConstraint ⟨_, .primaryKey columns, _⟩ => columns.map (·.value)
  | _ => []

/-- The steps that a statement takes on its table. -/
def Statement.steps : Statement → List AlterAction
  | .createTable c => c.columns.map .addColumn ++ c.constraints.map .addConstraint
  | .alterTable a => a.actions
  | _ => []

/-- The steps that statements take on a table. -/
def stepsFor (owner : EntityName) (statements : List Statement) : List AlterAction :=
  (statements.filter (·.table? = some owner)).flatMap Statement.steps

/-- A column that is added between other steps is not null: its own constraints say so, or a key of the table that
comes later and finds no earlier column of the same name. -/
def NotNull (before : List AlterAction) (column : ColumnDef) (after : List AlterAction) : Prop :=
  column.nullable = false ∨
    column.name.value ∈ after.flatMap AlterAction.required ∧
    column.name.value ∉ before.flatMap AlterAction.columns

/-- One step: columns are added behind the others, and the columns of a key become not null, each of them the first
of its name. -/
structure Takes (a : AlterAction) (table next : Entity) : Prop where
  columns : next.attrs.map (·.name) = table.attrs.map (·.name) ++ a.columns
  kept : ∀ (i : Nat) attr, table.attrs[i]? = some attr → ∃ attr', next.attrs[i]? = some attr' ∧
    (attr'.nullable = false ↔ attr.nullable = false ∨
      attr.name ∈ a.required ∧ attr.name ∉ (table.attrs.map (·.name)).take i)
  added : ∀ column, a = .addColumn column →
    ∃ attr, next.attrs[table.attrs.length]? = some attr ∧ attr.nullable = column.nullable
  key : next.primaryKey.map (·.attrs) = a.key?.or (table.primaryKey.map (·.attrs))

-- ---------------------------------------------------------------------------
-- One step
-- ---------------------------------------------------------------------------

/-- Constraints of a column leave the columns of the table alone. The last one about null and the last key count. -/
structure ColumnState.MadeBy (start : ColumnState) (constraints : List ColumnConstraint) (s : ColumnState) : Prop where
  attrs : s.table.attrs = start.table.attrs
  name : s.attr.name = start.attr.name
  nullable : s.attr.nullable = (constraints.filterMap (·.nullable?)).getLast?.getD start.attr.nullable
  key : s.table.primaryKey.map (·.attrs) =
    if constraints.any (·.rule = .primaryKey) then some [[start.attr.name]] else start.table.primaryKey.map (·.attrs)

theorem ColumnState.madeBy_constraints (start : ColumnState) (constraints : List ColumnConstraint) :
    start.MadeBy constraints (constraints.foldl ColumnState.apply start) := by
  induction constraints using List.reverseRecOn with
  | nil => exact ⟨rfl, rfl, rfl, rfl⟩
  | append_singleton constraints c ih =>
    rw [List.foldl_append, List.foldl_cons, List.foldl_nil]
    generalize constraints.foldl ColumnState.apply start = s at ih
    obtain ⟨hattrs, hname, hnullable, hkey⟩ := ih
    obtain ⟨name, rule, position⟩ := c
    cases rule <;> constructor <;>
      simp_all [ColumnState.apply, ColumnConstraint.nullable?, List.filterMap_append]

theorem takes_addColumn (flavor : Flavor) (table : Entity) (column : ColumnDef) :
    Takes (.addColumn column) table (addColumn flavor table column).1 := by
  have hcolumns := (adds_addColumn flavor table column).columns
  unfold addColumn
  extract_lets attr s
  obtain ⟨hattrs, -, hnullable, hkey⟩ := ColumnState.madeBy_constraints { table, attr } column.constraints
  have hbehind : s.table.attrs ++ [s.attr] = table.attrs ++ [s.attr] := congrArg (· ++ [s.attr]) hattrs
  refine ⟨hcolumns, fun i old hold => ⟨old, ?_, by simp [AlterAction.required]⟩, ?_, hkey.trans ?_⟩
  · rw [hbehind, List.getElem?_append_left (List.getElem?_eq_some_iff.mp hold).1, hold]
  · rintro _ ⟨⟩
    refine ⟨s.attr, ?_, hnullable⟩
    rw [hbehind]
    exact List.getElem?_concat_length
  · rw [AlterAction.key?]
    split <;> rfl

theorem attrs_requireColumn (position : Position) (state : Entity × Trace) (name : String) :
    (requireColumn position state [name]).1.attrs =
      modifyFirst (·.name == name) (fun a => { a with nullable := false }) state.1.attrs := by
  rw [requireColumn]
  dsimp only
  cases h : state.1.hasAttribute [name] with
  | true => rfl
  | false => exact (modifyFirst_of_not_found h _).symm

/-- The columns of a key become not null, each of them the first of its name. -/
theorem kept_requireColumns (position : Position) {table : Entity} (h : table.attrs[i]? = some attr)
    (columns : List Identifier) :
    ∃ attr', ((columnPaths columns).foldl (requireColumn position) (table, {})).1.attrs[i]? = some attr' ∧
      (attr'.nullable = false ↔ attr.nullable = false ∨
        attr.name ∈ columns.map (·.value) ∧ attr.name ∉ (table.attrs.map (·.name)).take i) := by
  induction columns using List.reverseRecOn with
  | nil => exact ⟨attr, h, by simp⟩
  | append_singleton columns column ih =>
    have hnames := (adds_requireColumns position (columnPaths columns) table).columns
    rw [columnPaths, List.map_append, List.foldl_append, List.map_singleton, List.foldl_cons, List.foldl_nil,
      ← columnPaths, attrs_requireColumn, getElem?_modifyFirst]
    generalize (columnPaths columns).foldl (requireColumn position) (table, {}) = state at ih hnames ⊢
    obtain ⟨attr', hattr', hnullable⟩ := ih
    rw [List.append_nil] at hnames
    have hname : attr'.name = attr.name := by
      have hi := congrArg (·[i]?) hnames
      simpa [hattr', h] using hi
    have hearlier : (state.1.attrs.take i).any (·.name == column.value) =
        decide (column.value ∈ (table.attrs.map (·.name)).take i) := by
      rw [← hnames, ← List.map_take, Bool.eq_iff_iff, List.any_eq_true, decide_eq_true_iff, List.mem_map]
      simp only [beq_iff_eq]
    rw [hattr', hearlier]
    refine ⟨_, rfl, ?_⟩
    by_cases hcolumn : attr.name = column.value
    · by_cases hfirst : attr.name ∈ (table.attrs.map (·.name)).take i <;> simp_all
    · simp_all

theorem takes_addConstraint (table : Entity) (c : TableConstraint) :
    Takes (.addConstraint c) table (addConstraint table c).1 := by
  have hcolumns := (adds_addConstraint table c).columns
  obtain ⟨name, rule, position⟩ := c
  cases rule with
  | primaryKey columns =>
    exact ⟨hcolumns, fun i attr hattr => kept_requireColumns position hattr columns, nofun, rfl⟩
  | _ => exact ⟨hcolumns, fun i attr hattr => ⟨attr, hattr, by simp [AlterAction.required]⟩, nofun, rfl⟩

theorem takes_alterStep (flavor : Flavor) (table : Entity) (a : AlterAction) :
    Takes a table (alterStep flavor table a).1 := by
  cases a with
  | addColumn column => exact takes_addColumn flavor table column
  | addConstraint c => exact takes_addConstraint table c
  | other text position =>
    exact ⟨(List.append_nil _).symm, fun i attr hattr => ⟨attr, hattr, by simp [AlterAction.required]⟩, nofun, rfl⟩

-- ---------------------------------------------------------------------------
-- Steps one after the other
-- ---------------------------------------------------------------------------

/-- The table is as some steps make it. -/
structure MadeBy (steps : List AlterAction) (table : Entity) : Prop where
  columns : table.attrs.map (·.name) = steps.flatMap AlterAction.columns
  nullable : ∀ before column after, steps = before ++ .addColumn column :: after →
    ∃ attr, table.attrs[(before.flatMap AlterAction.columns).length]? = some attr ∧
      (attr.nullable = false ↔ NotNull before column after)
  key : table.primaryKey.map (·.attrs) = (steps.filterMap AlterAction.key?).getLast?

theorem MadeBy.name_eq {steps : List AlterAction} (h : MadeBy steps table)
    (hsteps : steps = before ++ .addColumn column :: after)
    (hattr : table.attrs[(before.flatMap AlterAction.columns).length]? = some attr) :
    attr.name = column.name.value := by
  have hi := congrArg (·[(before.flatMap AlterAction.columns).length]?) h.columns
  simp only [List.getElem?_map, hattr, hsteps, List.flatMap_append] at hi
  rw [List.getElem?_append_right (Nat.le_refl _), Nat.sub_self] at hi
  exact Option.some.inj hi

theorem MadeBy.step {steps : List AlterAction} (h : MadeBy steps table) (hstep : Takes a table next) :
    MadeBy (steps ++ [a]) next := by
  have hlength : table.attrs.length = (steps.flatMap AlterAction.columns).length := by
    rw [← h.columns, List.length_map]
  refine ⟨?_, fun before column after hsteps => ?_, ?_⟩
  · rw [hstep.columns, h.columns, List.flatMap_append, List.flatMap_singleton]
  · rcases List.eq_nil_or_concat' after with rfl | ⟨after, last, rfl⟩
    · -- The new step adds the column.
      obtain ⟨rfl, hlast⟩ := List.append_inj' hsteps rfl
      obtain ⟨rfl⟩ := List.singleton_inj.mp hlast
      obtain ⟨attr, hattr, hnullable⟩ := hstep.added column rfl
      exact ⟨attr, hlength ▸ hattr, by simp [NotNull, hnullable]⟩
    · rw [← List.cons_append, ← List.append_assoc] at hsteps
      obtain ⟨hbefore, hlast⟩ := List.append_inj' hsteps rfl
      obtain rfl := List.singleton_inj.mp hlast
      obtain ⟨old, hold, hnull⟩ := h.nullable before column after hbefore
      obtain ⟨attr, hattr, hkept⟩ := hstep.kept _ old hold
      refine ⟨attr, hattr, hkept.trans ?_⟩
      have hearlier : (table.attrs.map (·.name)).take (before.flatMap AlterAction.columns).length =
          before.flatMap AlterAction.columns := by
        rw [h.columns, hbefore, List.flatMap_append, List.take_left]
      rw [hnull, h.name_eq hbefore hold, hearlier, NotNull, NotNull, List.flatMap_append, List.flatMap_singleton,
        List.mem_append]
      tauto
  · rw [hstep.key, h.key, List.filterMap_append]
    cases hkey : a.key? <;> simp [hkey]

theorem MadeBy.runSteps {steps : List AlterAction} (h : MadeBy steps table) (flavor : Flavor)
    (more : List AlterAction) : MadeBy (steps ++ more) (runSteps (alterStep flavor) table more).1 := by
  induction more using List.reverseRecOn with
  | nil => exact (List.append_nil steps).symm ▸ h
  | append_singleton more a ih =>
    rw [runSteps_append, ← List.append_assoc]
    exact ih.step (takes_alterStep flavor _ a)

/-- Other changes leave the columns and the key as they are. -/
theorem MadeBy.congr {table next : Entity} (h : MadeBy steps table)
    (hattrs : next.attrs.map (fun a => (a.name, a.nullable)) = table.attrs.map fun a => (a.name, a.nullable))
    (hkey : next.primaryKey = table.primaryKey) : MadeBy steps next := by
  refine ⟨?_, fun before column after hsteps => ?_, hkey ▸ h.key⟩
  · have hnames := congrArg (·.map Prod.fst) hattrs
    simp only [List.map_map, Function.comp_def] at hnames
    exact hnames.trans h.columns
  · obtain ⟨attr, hattr, hnull⟩ := h.nullable before column after hsteps
    have hi := congrArg (·[(before.flatMap AlterAction.columns).length]?) hattrs
    simp only [List.getElem?_map, hattr, Option.map_some, Option.map_eq_some_iff] at hi
    obtain ⟨attr', hattr', hsame⟩ := hi
    exact ⟨attr', hattr', (Prod.mk.inj hsame).2 ▸ hnull⟩

/-- Every column of a table is added by a step. -/
theorem exists_addColumn {steps : List AlterAction} (h : i < (steps.flatMap AlterAction.columns).length) :
    ∃ before column after, steps = before ++ .addColumn column :: after ∧
      (before.flatMap AlterAction.columns).length = i := by
  induction steps generalizing i with
  | nil => simp at h
  | cons a steps ih =>
    have hskip : a.columns = [] → ∃ before column after, a :: steps = before ++ .addColumn column :: after ∧
        (before.flatMap AlterAction.columns).length = i := by
      intro hnone
      rw [List.flatMap_cons, hnone] at h
      obtain ⟨before, column, after, rfl, hi⟩ := ih h
      exact ⟨a :: before, column, after, rfl, by rw [List.flatMap_cons, hnone]; exact hi⟩
    cases a with
    | addColumn column =>
      cases i with
      | zero => exact ⟨[], column, steps, rfl, rfl⟩
      | succ i =>
        obtain ⟨before, found, after, rfl, hi⟩ := ih (Nat.lt_of_succ_lt_succ h)
        exact ⟨.addColumn column :: before, found, after, rfl, congrArg (· + 1) hi⟩
    | addConstraint c => exact hskip rfl
    | other text position => exact hskip rfl

/-- The columns of the key are all not null if the steps make each of them so, and only then. -/
theorem MadeBy.keyColumns {steps : List AlterAction} (h : MadeBy steps table) :
    (∀ key ∈ table.primaryKey, ∀ attr ∈ table.attrs, [attr.name] ∈ key.attrs → attr.nullable = false) ↔
      ∀ key ∈ (steps.filterMap AlterAction.key?).getLast?, ∀ before column after,
        steps = before ++ .addColumn column :: after → [column.name.value] ∈ key → NotNull before column after := by
  rw [← h.key]
  constructor
  · intro hall _ hdeclared before column after hsteps hcolumn
    obtain ⟨key, hkey, rfl⟩ := Option.map_eq_some_iff.mp hdeclared
    obtain ⟨attr, hattr, hnull⟩ := h.nullable before column after hsteps
    rw [← h.name_eq hsteps hattr] at hcolumn
    exact hnull.mp (hall key hkey attr (List.mem_of_getElem? hattr) hcolumn)
  · intro hall key hkey attr hattr hcolumn
    obtain ⟨i, hi⟩ := List.mem_iff_getElem?.mp hattr
    have hlength : i < (steps.flatMap AlterAction.columns).length := by
      rw [← h.columns, List.length_map]
      exact (List.getElem?_eq_some_iff.mp hi).1
    obtain ⟨before, column, after, hsteps, rfl⟩ := exists_addColumn hlength
    obtain ⟨found, hfound, hnull⟩ := h.nullable before column after hsteps
    obtain rfl : attr = found := Option.some.inj (hi.symm.trans hfound)
    rw [h.name_eq hsteps hi] at hcolumn
    exact hnull.mpr (hall key.attrs (Option.mem_map_of_mem _ hkey) before column after hsteps hcolumn)

/-- Steps as they are usually written: no column is declared as NULL, column names do not repeat, and a key comes behind
the columns that it names. -/
structure InOrder (steps : List AlterAction) : Prop where
  distinct : (steps.flatMap AlterAction.columns).Nodup
  noNull : ∀ column, .addColumn column ∈ steps → ∀ c ∈ column.constraints, c.rule ≠ .null
  behind : ∀ before a after, steps = before ++ a :: after → a.required ⊆ before.flatMap AlterAction.columns

theorem ColumnDef.nullable_of_key {column : ColumnDef} (hnull : ∀ c ∈ column.constraints, c.rule ≠ .null)
    (hkey : column.constraints.any (·.rule = .primaryKey) = true) : column.nullable = false := by
  have hall : ∀ b ∈ column.constraints.filterMap (·.nullable?), b = false := by
    intro b hb
    obtain ⟨c, hc, hb⟩ := List.mem_filterMap.mp hb
    have hrule := hnull c hc
    rw [ColumnConstraint.nullable?] at hb
    split at hb <;> simp_all
  obtain ⟨c, hc, hrule⟩ := List.any_eq_true.mp hkey
  have hmem : false ∈ column.constraints.filterMap (·.nullable?) :=
    List.mem_filterMap.mpr ⟨c, hc, by simp [ColumnConstraint.nullable?, of_decide_eq_true hrule]⟩
  rw [nullable, List.getLast?_eq_some_getLast (List.ne_nil_of_mem hmem)]
  exact hall _ (List.getLast_mem _)

theorem InOrder.notNull {steps : List AlterAction} (h : InOrder steps)
    (hkey : key ∈ (steps.filterMap AlterAction.key?).getLast?) (hsteps : steps = before ++ .addColumn column :: after)
    (hcolumn : [column.name.value] ∈ key) : NotNull before column after := by
  have hdistinct := h.distinct
  rw [hsteps, List.flatMap_append, List.flatMap_cons, List.nodup_append] at hdistinct
  obtain ⟨-, hrest, hapart⟩ := hdistinct
  have hearlier : column.name.value ∉ before.flatMap AlterAction.columns := fun hmem =>
    hapart _ hmem _ (List.mem_append_left _ (List.mem_singleton_self _)) rfl
  have hlater : column.name.value ∉ after.flatMap AlterAction.columns :=
    (List.nodup_cons.mp hrest).1
  obtain ⟨a, ha, hdeclared⟩ := List.mem_filterMap.mp (List.mem_of_getLast? hkey)
  rw [hsteps, List.mem_append, List.mem_cons] at ha
  cases a with
  | addColumn c =>
    -- The key stands at a column, which can only be this one.
    rw [AlterAction.key?] at hdeclared
    split at hdeclared
    case isFalse => cases hdeclared
    case isTrue hrule =>
      obtain rfl := Option.some.inj hdeclared
      have hname : column.name.value = c.name.value := by simpa using hcolumn
      rcases ha with ha | heq | ha
      · exact absurd (List.mem_flatMap.mpr ⟨_, ha, hname ▸ List.mem_singleton_self _⟩) hearlier
      · obtain rfl : c = column := AlterAction.addColumn.inj heq
        exact .inl (c.nullable_of_key (h.noNull c (hsteps ▸ List.mem_append_right _ List.mem_cons_self)) hrule)
      · exact absurd (List.mem_flatMap.mpr ⟨_, ha, hname ▸ List.mem_singleton_self _⟩) hlater
  | addConstraint c =>
    obtain ⟨name, rule, position⟩ := c
    cases rule with
    | primaryKey columns =>
      obtain rfl : columnPaths columns = key := Option.some.inj hdeclared
      have hrequired : column.name.value ∈
          (AlterAction.addConstraint ⟨name, .primaryKey columns, position⟩).required := by
        simpa [columnPaths, AlterAction.required] using hcolumn
      rcases ha with ha | heq | ha
      · obtain ⟨front, back, rfl⟩ := List.append_of_mem ha
        have hknown := h.behind front _ (back ++ .addColumn column :: after) (by rw [hsteps]; simp) hrequired
        rw [List.flatMap_append] at hearlier
        exact absurd (List.mem_append_left _ hknown) hearlier
      · cases heq
      · exact .inr ⟨List.mem_flatMap.mpr ⟨_, ha, hrequired⟩, hearlier⟩
    | _ => cases hdeclared
  | other text position => cases hdeclared

-- ---------------------------------------------------------------------------
-- Statements
-- ---------------------------------------------------------------------------

/-- A comment on the table or on one of its columns. -/
def CommentOn.change (c : CommentOn) (table : Entity) : Entity :=
  match c.target with
  | .table _ => { table with doc := c.text }
  | .column name =>
    match name.splitColumn? with
    | some (_, column) =>
      if table.hasAttribute [column] then
        { table with attrs := modifyAttribute (fun a => { a with doc := c.text }) table.attrs [column] }
      else table
    | none => table

/-- What a statement makes of its table. -/
def Statement.change (flavor : Flavor) (st : Statement) (table : Entity) : Entity :=
  match st with
  | .createIndex c => addIndex c table
  | .commentOn c => c.change table
  | st => (runSteps (alterStep flavor) table st.steps).1

/-- What statements make of a table that is empty at first. -/
def tableOf (flavor : Flavor) (owner : EntityName) (statements : List Statement) : Entity :=
  (statements.filter (·.table? = some owner)).foldl (fun table st => st.change flavor table)
    { space := owner.space, name := owner.name }

theorem tableOf_snoc (flavor : Flavor) (owner : EntityName) (statements : List Statement) {st : Statement}
    (h : st.table? = some owner) :
    tableOf flavor owner (statements ++ [st]) = st.change flavor (tableOf flavor owner statements) := by
  simp [tableOf, h]

theorem tableOf_snoc_other (flavor : Flavor) (owner : EntityName) (statements : List Statement) {st : Statement}
    (h : st.table? ≠ some owner) : tableOf flavor owner (statements ++ [st]) = tableOf flavor owner statements := by
  simp [tableOf, h]

/-- Statements about a table do not take effect before it is created. -/
theorem tableOf_of_not_created (flavor : Flavor) {script : List Statement} (h : owner ∉ createdTables script) :
    tableOf flavor owner (effective [] script) = { space := owner.space, name := owner.name } := by
  have hnone : (effective [] script).filter (·.table? = some owner) = [] :=
    List.filter_eq_nil_iff.mpr fun st hst howner => h (mem_of_mem_effective hst (of_decide_eq_true howner))
  rw [tableOf, hnone]
  rfl

theorem change_createTable (flavor : Flavor) (c : CreateTable) :
    (Statement.createTable c).change flavor { space := c.name.entityName.space, name := c.name.entityName.name } =
      (buildTable flavor c).1 := by
  have hmap {α : Type} (step : Entity → α → Entity × Trace) (f : α → AlterAction)
      (hf : ∀ table a, alterStep flavor table (f a) = step table a) (more : List α) (front : List AlterAction)
      (table : Entity) : (runSteps (alterStep flavor) table (front ++ more.map f)).1 =
        (runSteps step (runSteps (alterStep flavor) table front).1 more).1 := by
    induction more using List.reverseRecOn with
    | nil => rw [List.map_nil, List.append_nil]; rfl
    | append_singleton more a ih =>
      rw [List.map_append, List.map_singleton, ← List.append_assoc, runSteps_append, runSteps_append, ih, hf]
  show (runSteps (alterStep flavor) _ (c.columns.map .addColumn ++ c.constraints.map .addConstraint)).1 = _
  have hcolumns := hmap (addColumn flavor) .addColumn (fun _ _ => rfl) c.columns []
  rw [hmap addConstraint .addConstraint (fun _ _ => rfl), ← List.nil_append (c.columns.map _), hcolumns]
  rfl

theorem MadeBy.change {steps : List AlterAction} (h : MadeBy steps table) (flavor : Flavor) (st : Statement) :
    MadeBy (steps ++ st.steps) (st.change flavor table) := by
  cases st with
  | createIndex c => exact (List.append_nil steps).symm ▸ h.congr rfl rfl
  | commentOn c =>
    refine (List.append_nil steps).symm ▸ ?_
    show MadeBy steps (c.change table)
    rw [CommentOn.change]
    split
    · exact h.congr rfl rfl
    · split
      · split
        · refine h.congr ?_ rfl
          show (modifyFirst _ _ table.attrs).map _ = _
          exact map_modifyFirst (by exact fun _ _ => rfl) table.attrs
        · exact h
      · exact h
  | _ => exact h.runSteps flavor _

/-- A table is as the steps of its statements make it. -/
theorem madeBy_tableOf (flavor : Flavor) (owner : EntityName) (statements : List Statement) :
    MadeBy (stepsFor owner statements) (tableOf flavor owner statements) := by
  rw [stepsFor, tableOf]
  induction statements.filter (·.table? = some owner) using List.reverseRecOn with
  | nil => exact ⟨rfl, by simp, rfl⟩
  | append_singleton statements st ih =>
    rw [List.flatMap_append, List.flatMap_singleton, List.foldl_append]
    exact ih.change flavor st

-- ---------------------------------------------------------------------------
-- Scripts
-- ---------------------------------------------------------------------------

namespace ImportState

theorem find?_change {f : Entity → Entity × Trace} (hf : ∀ table : Entity, table.id = owner → Within owner (f table))
    (s : ImportState) (position : Position) :
    (s.change owner position f).find? owner = (s.find? owner).map fun table => (f table).1 := by
  have hview := congrArg Prod.fst (view_change hf s position)
  refine hview.trans ?_
  cases h : s.find? owner <;> simp [view, viewAfter, h]

theorem find?_commentOn (c : CommentOn) (h : (Statement.commentOn c).table? = some owner) (s : ImportState) :
    (s.commentOn c).find? owner = (s.find? owner).map c.change := by
  obtain ⟨target, text, position⟩ := c
  cases target with
  | table name =>
    obtain rfl : name.entityName = owner := Option.some.inj h
    exact find?_change (f := fun table => ({ table with doc := text }, {}))
      (fun table hid => within_settled hid rfl) s name.position
  | column name =>
    cases hsplit : name.splitColumn? with
    | none => simp [Statement.table?, hsplit] at h
    | some found =>
      obtain ⟨id, column⟩ := found
      obtain rfl : id = owner := by simpa [Statement.table?, hsplit] using h
      simp only [commentOn, hsplit]
      rw [find?_change fun table hid => ?_]
      · refine congrArg (Option.map · _) (funext fun table => ?_)
        simp only [CommentOn.change, hsplit]
        split <;> rfl
      · split
        · exact within_settled hid rfl
        · exact within_settled hid rfl

/-- A statement about a table creates it if it is not there, or changes it if it is there. -/
theorem find?_statement (flavor : Flavor) {st : Statement} (h : st.table? = some owner) (s : ImportState) :
    (s.statement flavor st).find? owner =
      if st.created?.isSome then
        (s.find? owner).or (some (st.change flavor { space := owner.space, name := owner.name }))
      else (s.find? owner).map (st.change flavor) := by
  cases st with
  | createTable c =>
    obtain rfl : c.name.entityName = owner := Option.some.inj h
    rw [change_createTable]
    refine (congrArg Prod.fst (view_createTable flavor c s)).trans ?_
    rw [view]
    cases s.find? c.name.entityName <;> rfl
  | alterTable a =>
    obtain rfl : a.table.entityName = owner := Option.some.inj h
    exact find?_change (fun table hid => within_runSteps (fun table a h => within_alterStep flavor h a) hid a.actions)
      s a.table.position
  | createIndex c =>
    obtain rfl : c.table.entityName = owner := Option.some.inj h
    exact find?_change (f := fun table => (addIndex c table, {})) (fun table hid => within_settled hid rfl) s
      c.table.position
  | commentOn c => exact find?_commentOn c h s
  | _ => cases h

theorem find?_statement_other (flavor : Flavor) {st : Statement} (h : st.table? ≠ some owner) (s : ImportState) :
    (s.statement flavor st).find? owner = s.find? owner :=
  congrArg Prod.fst (view_statement_other flavor h s)

/-- A table is there if it is created, and it is what its own statements make of it. -/
theorem find?_run (flavor : Flavor) (owner : EntityName) (script : List Statement) :
    (({} : ImportState).run flavor script).find? owner =
      if owner ∈ createdTables script then some (tableOf flavor owner (effective [] script)) else none := by
  induction script using List.reverseRecOn with
  | nil => rfl
  | append_singleton script st ih =>
    have hrun : ({} : ImportState).run flavor (script ++ [st]) =
        (({} : ImportState).run flavor script).statement flavor st := by
      rw [ImportState.run, List.foldl_append]
      rfl
    rw [hrun, createdTables_snoc]
    by_cases hown : st.table? = some owner
    · rw [find?_statement flavor hown, ih]
      rcases created?_cases st with hcreated | hcreated
      · -- The table is changed if it has been created before.
        have heffect : st.takesEffect (createdTables script) = (createdTables script).contains owner := by
          rw [Statement.takesEffect, hcreated, hown]
        rw [hcreated, Option.toList_none, List.append_nil]
        by_cases hmem : owner ∈ createdTables script
        · rw [effective_snoc_of_takesEffect (heffect.trans (List.contains_iff_mem.mpr hmem)),
            tableOf_snoc flavor owner _ hown, if_pos hmem, if_pos hmem]
          rfl
        · rw [if_neg hmem, if_neg hmem]
          rfl
      · -- The table is created if it has not been before.
        have heffect : st.takesEffect (createdTables script) = !(createdTables script).contains owner := by
          rw [Statement.takesEffect, hcreated, hown]
        rw [hcreated, hown, Option.toList_some, if_pos (List.mem_append_right _ (List.mem_singleton_self owner))]
        by_cases hmem : owner ∈ createdTables script
        · have hskip : st.takesEffect ([] ++ createdTables script) = false := by simpa [heffect] using hmem
          rw [effective_snoc, hskip, if_pos hmem, if_neg Bool.false_ne_true, List.append_nil]
          rfl
        · have htake : st.takesEffect (createdTables script) = true := by simpa [heffect] using hmem
          rw [effective_snoc_of_takesEffect htake, tableOf_snoc flavor owner _ hown, tableOf_of_not_created flavor hmem,
            if_neg hmem]
          rfl
    · have hcreated : owner ∉ st.created?.toList := by
        rcases created?_cases st with hcreated | hcreated <;> simp [hcreated, hown]
      have htable : tableOf flavor owner (effective [] (script ++ [st])) =
          tableOf flavor owner (effective [] script) := by
        rw [effective_snoc]
        split
        · exact tableOf_snoc_other flavor owner _ hown
        · rw [List.append_nil]
      rw [find?_statement_other flavor hown, ih, htable]
      simp [hcreated]

end ImportState

/-- A table of the schema is as the steps of its own effective statements make it. -/
theorem madeBy_importStatements {statements : List Statement} {flavor : Flavor}
    (h : table ∈ (({} : ImportState).run flavor statements).tables) :
    MadeBy (stepsFor table.id (effective [] statements)) table := by
  have hfind := (ImportState.declared_run flavor statements).find?_of_mem h
  rw [ImportState.find?_run] at hfind
  have hmade := madeBy_tableOf flavor table.id (effective [] statements)
  split at hfind
  case isTrue => rwa [Option.some.inj hfind] at hmade
  case isFalse => cases hfind

/-- The key of a table is the last one that a step declares. Its columns are all not null exactly if each of
them is made so: the constraints of the column do not leave it nullable, or a key of the table that names it comes
after it, and it is the first column of its name. A key that comes earlier, or one at the column itself that a later
NULL takes back, does not make it so. -/
theorem keyColumns_notNull_iff (statements : List Statement) (flavor : Flavor) :
    ∃ db, (importStatements statements flavor).value = some db ∧ ∀ table ∈ db.entities,
      let steps := stepsFor table.id (effective [] statements)
      table.primaryKey.map (·.attrs) = (steps.filterMap AlterAction.key?).getLast? ∧
      ((∀ key ∈ table.primaryKey, ∀ attr ∈ table.attrs, [attr.name] ∈ key.attrs → attr.nullable = false) ↔
        ∀ key ∈ (steps.filterMap AlterAction.key?).getLast?, ∀ before column after,
          steps = before ++ .addColumn column :: after → [column.name.value] ∈ key → NotNull before column after) := by
  refine ⟨_, value_importStatements statements flavor, fun table htable => ?_⟩
  have hmade := madeBy_importStatements htable
  exact ⟨hmade.key, hmade.keyColumns⟩

/-- In a table that is written as usual, no column of the key may be null. -/
theorem keyColumns_notNull {statements : List Statement} {flavor : Flavor}
    (hvalue : (importStatements statements flavor).value = some db) (htable : table ∈ db.entities)
    (h : InOrder (stepsFor table.id (effective [] statements))) :
    ∀ key ∈ table.primaryKey, ∀ attr ∈ table.attrs, [attr.name] ∈ key.attrs → attr.nullable = false := by
  rw [value_importStatements] at hvalue
  obtain rfl := Option.some.inj hvalue
  exact (madeBy_importStatements htable).keyColumns.mpr fun key hkey before column after hsteps hcolumn =>
    h.notNull hkey hsteps hcolumn

/-- Of the two orders of NULL and PRIMARY KEY at a column, this one gives a key column that may be null. -/
theorem keyColumn_takenBack :
    ∃ db ∈ (readSchema "CREATE TABLE t (id int PRIMARY KEY NULL)" .postgres).value, ∃ table ∈ db.entities,
      ∃ key ∈ table.primaryKey, ∃ attr ∈ table.attrs, [attr.name] ∈ key.attrs ∧ attr.nullable = true := by
  decide +kernel

end SchemaDialects.Sql
