import SchemaDialects.Proofs.Sql.Execution
import SchemaDialects.Proofs.Tally

/-!
# Keys and indexes that statements add

Carrying out a statement changes tables in many ways. What becomes of their keys and indexes is counted along
with the statements (`Statement.count`), whatever else they say: `tallies_statement` is one step,
`tallies_run` a whole script. What was read of a command counts as the command does (`count_of_says`).
-/

namespace SchemaDialects.Sql

-- ---------------------------------------------------------------------------
-- Counting
-- ---------------------------------------------------------------------------

def ColumnRule.count (t : Tally) : ColumnRule → Tally
  | .primaryKey => t.more true 0
  | .unique => t.more false 1
  | _ => t

def TableRule.count (t : Tally) : TableRule → Tally
  | .primaryKey _ => t.more true 0
  | .unique _ | .index _ => t.more false 1
  | _ => t

def ColumnDef.count (t : Tally) (c : ColumnDef) : Tally := c.constraints.foldl (fun t c => c.rule.count t) t

def TableConstraint.count (t : Tally) (c : TableConstraint) : Tally := c.rule.count t

def AlterAction.count (t : Tally) : AlterAction → Tally
  | .addColumn column => column.count t
  | .addConstraint constraint => constraint.count t
  | .other .. => t

def CreateTable.count (s : CreateTable) : Tally :=
  s.constraints.foldl TableConstraint.count (s.columns.foldl ColumnDef.count ⟨s.name.entityName, false, 0⟩)

/-- What a statement makes of the tables so far. -/
def Statement.count (tallies : List Tally) : Statement → List Tally
  | .createTable s => if tallies.any (·.id == s.name.entityName) then tallies else tallies ++ [s.count]
  | .alterTable s => modifyFirst (·.id == s.table.entityName) (s.actions.foldl AlterAction.count) tallies
  | .createIndex s => modifyFirst (·.id == s.table.entityName) (·.more false 1) tallies
  | _ => tallies

-- ---------------------------------------------------------------------------
-- One table
-- ---------------------------------------------------------------------------

theorem tally_apply (s : ColumnState) (c : ColumnConstraint) : (s.apply c).table.tally = c.rule.count s.table.tally := by
  obtain ⟨name, rule, position⟩ := c
  cases rule <;> simp [ColumnState.apply, ColumnRule.count, Entity.tally, Entity.id, Tally.more]

theorem tally_addColumn (flavor : Flavor) (table : Entity) (column : ColumnDef) :
    (addColumn flavor table column).1.tally = column.count table.tally :=
  (List.foldl_hom (fun s : ColumnState => s.table.tally) fun s c => (tally_apply s c).symm).symm

theorem tally_requireColumn (position : Position) (state : Entity × Trace) (path : AttributePath) :
    (requireColumn position state path).1.tally = state.1.tally := by
  rw [requireColumn]
  dsimp only
  split <;> rfl

theorem tally_requireColumns (position : Position) (state : Entity × Trace) (paths : List AttributePath) :
    (paths.foldl (requireColumn position) state).1.tally = state.1.tally :=
  List.foldlRecOn (motive := fun s => s.1.tally = state.1.tally) _ _ rfl
    fun s hs path _ => (tally_requireColumn position s path).trans hs

theorem tally_addConstraint (table : Entity) (c : TableConstraint) :
    (addConstraint table c).1.tally = c.count table.tally := by
  obtain ⟨name, rule, position⟩ := c
  cases rule with
  | primaryKey columns =>
    have hrequired := tally_requireColumns position (table, {}) (columnPaths columns)
    simp only [Entity.tally, Tally.mk.injEq] at hrequired
    obtain ⟨hid, -, hindexes⟩ := hrequired
    simp only [Entity.id, EntityName.mk.injEq] at hid
    simp [addConstraint, TableConstraint.count, TableRule.count, Entity.tally, Entity.id, Tally.more, hid, hindexes]
  | _ => simp [addConstraint, TableConstraint.count, TableRule.count, Entity.tally, Entity.id, Tally.more]

theorem tally_runSteps {step : Entity → α → Entity × Trace} {count : Tally → α → Tally}
    (h : ∀ table a, (step table a).1.tally = count table.tally a) (table : Entity) (steps : List α) :
    (runSteps step table steps).1.tally = steps.foldl count table.tally := by
  rw [runSteps]
  refine (List.foldl_hom (fun state : Entity × Trace => state.1.tally) ?_).symm
  exact fun state a => (h state.1 a).symm

theorem tally_buildTable (flavor : Flavor) (s : CreateTable) :
    (buildTable flavor s).1.tally = s.count := by
  rw [buildTable]
  dsimp only
  rw [tally_runSteps tally_addConstraint, tally_runSteps (tally_addColumn flavor)]
  rfl

theorem tally_alterStep (flavor : Flavor) (table : Entity) (action : AlterAction) :
    (alterStep flavor table action).1.tally = action.count table.tally := by
  cases action with
  | addColumn column => exact tally_addColumn flavor table column
  | addConstraint constraint => exact tally_addConstraint table constraint
  | other => rfl

-- ---------------------------------------------------------------------------
-- All tables
-- ---------------------------------------------------------------------------

theorem any_tally (tables : List Entity) (id : EntityName) :
    (tables.map Entity.tally).any (·.id == id) = (tables.find? (·.id == id)).isSome := by
  rw [List.any_map, List.isSome_find?]
  rfl

/-- The first table of a name is changed. -/
theorem tallies_modifyFirst {id : EntityName} {f : Tally → Tally} (hfind : tables.find? (·.id == id) = some table)
    (hchanged : changed.tally = f table.tally) :
    (modifyFirst (fun t : Entity => t.id == id) (fun _ => changed) tables).map Entity.tally =
      modifyFirst (·.id == id) f (tables.map Entity.tally) := by
  induction tables with
  | nil => rfl
  | cons first tables ih =>
    have hid : (first.tally.id == id) = (first.id == id) := rfl
    rw [List.map_cons, modifyFirst, modifyFirst, hid]
    cases hfirst : first.id == id with
    | true =>
      obtain rfl : first = table := by simpa [hfirst] using hfind
      exact congrArg (· :: _) hchanged
    | false => exact congrArg (first.tally :: ·) (ih (by simpa [hfirst] using hfind))

theorem tallies_change {s : ImportState} {f : Entity → Entity × Trace} {count : Tally → Tally}
    (h : ∀ table, (f table).1.tally = count table.tally) (id : EntityName) (position : Position) :
    (s.change id position f).tables.map Entity.tally =
      modifyFirst (·.id == id) count (s.tables.map Entity.tally) := by
  rw [ImportState.change]
  split
  · rename_i hfind
    refine (modifyFirst_self fun t ht hid => ?_).symm
    obtain ⟨table, htable, rfl⟩ := List.mem_map.mp ht
    exact absurd hid (List.find?_eq_none.mp hfind table htable)
  · rename_i table hfind
    exact tallies_modifyFirst hfind (h table)

/-- A change that keeps every tally. -/
theorem tallies_change_self {s : ImportState} {f : Entity → Entity × Trace}
    (h : ∀ table, (f table).1.tally = table.tally) (id : EntityName) (position : Position) :
    (s.change id position f).tables.map Entity.tally = s.tables.map Entity.tally :=
  (tallies_change h id position).trans (modifyFirst_self fun _ _ _ => rfl)

theorem tallies_statement (flavor : Flavor) (s : ImportState) (st : Statement) :
    (s.statement flavor st).tables.map Entity.tally = st.count (s.tables.map Entity.tally) := by
  cases st with
  | createTable c =>
    show (s.createTable flavor c).tables.map Entity.tally = _
    rw [ImportState.createTable, Statement.count, ← tally_buildTable flavor c, any_tally]
    dsimp only
    split
    · rename_i table hfind
      have hsome : (s.tables.find? (·.id == c.name.entityName)).isSome = true :=
        Option.isSome_iff_exists.mpr ⟨table, hfind⟩
      rw [if_pos hsome]
      rfl
    · rename_i hfind
      have hnone : ¬(s.tables.find? (·.id == c.name.entityName)).isSome = true := by
        rw [show s.tables.find? (·.id == c.name.entityName) = none from hfind]
        exact Bool.false_ne_true
      rw [if_neg hnone]
      exact List.map_append
  | alterTable a => exact tallies_change (fun table => tally_runSteps (tally_alterStep flavor) table a.actions) _ _
  | createIndex c => exact tallies_change (fun table => by simp [addIndex, Entity.tally, Entity.id, Tally.more]) _ _
  | commentOn c =>
    show (s.commentOn c).tables.map Entity.tally = _
    rw [ImportState.commentOn]
    split
    · exact tallies_change_self (fun _ => rfl) _ _
    · split
      · rfl
      · refine tallies_change_self (fun table => ?_) _ _
        split <;> rfl
  | createType | select | update | unmodelled => rfl

/-- The tables of a script have the keys and indexes that its statements count. -/
theorem tallies_run (flavor : Flavor) (statements : List Statement) (s : ImportState) :
    (statements.foldl (ImportState.statement flavor) s).tables.map Entity.tally =
      statements.foldl Statement.count (s.tables.map Entity.tally) :=
  (List.foldl_hom (fun s : ImportState => s.tables.map Entity.tally) fun s st =>
    (tallies_statement flavor s st).symm).symm

-- ---------------------------------------------------------------------------
-- Commands
-- ---------------------------------------------------------------------------

/-- The name of a table as it is read again. -/
def readName (id : EntityName) : EntityName := QualifiedName.entityOf (nameParts id.space id.name)

def Column.count (t : Tally) (c : Column) : Tally := c.marks.foldl (fun t m => m.rule.count t) t

def Clause.count (t : Tally) : Clause → Tally
  | .key _ => t.more true 0
  | .unique _ => t.more false 1
  | .check _ | .foreignKey .. => t

def Constraint.count (t : Tally) (c : Constraint) : Tally := c.clause.count t

/-- What a command makes of the tables so far. -/
def Command.count (tallies : List Tally) : Command → List Tally
  | .table id columns constraints =>
    if tallies.any (·.id == readName id) then tallies
    else tallies ++ [constraints.foldl Constraint.count (columns.foldl Column.count ⟨readName id, false, 0⟩)]
  | .index form => modifyFirst (·.id == readName form.table) (·.more false 1) tallies
  | .key id constraint => modifyFirst (·.id == readName id) (constraint.count ·) tallies
  | _ => tallies

theorem count_of_reads (h : Mark.Reads m rule) (t : Tally) : rule.count t = m.rule.count t := by
  cases m with
  | value text =>
    obtain ⟨e, rfl, -⟩ := h
    rfl
  | computed text =>
    obtain ⟨e, rfl, -⟩ := h
    rfl
  | _ =>
    cases h
    rfl

theorem Column.Says.count {c : Column} (h : c.Says d) (t : Tally) : d.count t = c.count t := by
  refine (List.rel_foldl (P := Eq) ?_ rfl h.marks).symm
  rintro t _ rfl m constraint hm
  exact (count_of_reads hm.rule t).symm

theorem Constraint.Says.count {c : Constraint} (h : c.Says d) (t : Tally) : d.count t = c.count t := by
  obtain ⟨name, clause⟩ := c
  obtain ⟨-, hrule⟩ := h
  rw [TableConstraint.count, Constraint.count]
  cases clause with
  | key columns | unique columns =>
    obtain ⟨ids, hrule, -⟩ := hrule
    rw [hrule]
    rfl
  | check predicate =>
    obtain ⟨e, hrule, -⟩ := hrule
    rw [hrule]
    rfl
  | foreignKey columns reference =>
    obtain ⟨ids, target, hrule, -⟩ := hrule
    rw [hrule]
    rfl

theorem entityName_of_values {q : QualifiedName} {id : EntityName} (h : q.values = nameParts id.space id.name) :
    q.entityName = readName id := by
  rw [QualifiedName.entityName, h, readName]

theorem Command.Says.count (h : Command.Says c st) (tallies : List Tally) : st.count tallies = c.count tallies := by
  cases c with
  | table id columns constraints =>
    cases st with
    | createTable s =>
      obtain ⟨hname, hcolumns, hconstraints⟩ := h
      have hread : s.columns.foldl ColumnDef.count ⟨readName id, false, 0⟩ =
          columns.foldl Column.count ⟨readName id, false, 0⟩ := by
        refine (List.rel_foldl (P := Eq) ?_ rfl hcolumns).symm
        rintro t _ rfl c d hd
        exact (Column.Says.count hd t).symm
      have hrest (t : Tally) : s.constraints.foldl TableConstraint.count t = constraints.foldl Constraint.count t := by
        refine (List.rel_foldl (P := Eq) ?_ rfl hconstraints).symm
        rintro t _ rfl c d hd
        exact (Constraint.Says.count hd t).symm
      rw [Statement.count, CreateTable.count, entityName_of_values hname, hread, hrest]
      rfl
    | _ => exact h.elim
  | index form =>
    cases st with
    | createIndex s =>
      rw [Statement.count, entityName_of_values h.table]
      rfl
    | _ => exact h.elim
  | key id constraint =>
    cases st with
    | alterTable s =>
      obtain ⟨hname, c, hactions, hc⟩ := h
      have hcount : (s.actions.foldl AlterAction.count ·) = (constraint.count ·) := by
        rw [hactions]
        exact funext (Constraint.Says.count hc)
      rw [Statement.count, entityName_of_values hname, hcount]
      rfl
    | _ => exact h.elim
  | type | tableDoc | columnDoc =>
    cases st with
    | createType | commentOn => rfl
    | _ => exact h.elim

end SchemaDialects.Sql
