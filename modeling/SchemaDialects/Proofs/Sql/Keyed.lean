import Mathlib.Data.List.Induction
import SchemaDialects.Proofs.Consistency
import SchemaDialects.Proofs.Sql.Interleaving

/-!
# Keys and checks of a script

Carrying out definitions without a warning keeps what is known of a schema (`ImportState.Anchored.statement`):
tables have distinct names, their keys and checks have their columns, and foreign keys start from tables. The
columns of indexes and of foreign keys are not looked up.
-/

namespace SchemaDialects

/-- There are no errors and no warnings. -/
def Quiet (diagnostics : List Diagnostic) : Prop := ∀ d ∈ diagnostics, d.level ≠ .error ∧ d.level ≠ .warning

theorem quiet_append : Quiet (as ++ bs) ↔ Quiet as ∧ Quiet bs := List.forall_mem_append

namespace Sql

-- ---------------------------------------------------------------------------
-- Tables
-- ---------------------------------------------------------------------------

theorem Keyed.mono {e e' : Entity} (h : e.Keyed) (hkey : e'.primaryKey = e.primaryKey) (hchecks : e'.checks = e.checks)
    (hfound : ∀ path, e.hasAttribute path = true → e'.hasAttribute path = true) : e'.Keyed :=
  ⟨fun key hmem path hpath => hfound path (h.key key (hkey ▸ hmem) path hpath),
    fun c hc path hpath => hfound path (h.check c (hchecks ▸ hc) path hpath)⟩

/-- Keys and checks speak of the columns of the table or of the one under construction. -/
structure ColumnState.Keyed (s : ColumnState) : Prop where
  key : ∀ key ∈ s.table.primaryKey, ∀ path ∈ key.attrs, s.table.hasAttribute path = true ∨ path = [s.attr.name]
  check : ∀ c ∈ s.table.checks, ∀ path ∈ c.attrs, s.table.hasAttribute path = true ∨ path = [s.attr.name]

theorem ColumnState.Keyed.apply {s : ColumnState} (h : s.Keyed) (c : ColumnConstraint) : (s.apply c).Keyed := by
  obtain ⟨name, rule, position⟩ := c
  cases rule with
  | primaryKey =>
    refine ⟨?_, h.check⟩
    rintro _ ⟨⟩ path hpath
    exact .inr (List.mem_singleton.mp hpath)
  | check e =>
    refine ⟨h.key, List.forall_mem_append.mpr ⟨h.check, List.forall_mem_singleton.mpr fun path hpath => ?_⟩⟩
    exact .inr (List.mem_singleton.mp hpath)
  | _ => exact ⟨h.key, h.check⟩

theorem keyed_addColumn {table : Entity} (flavor : Flavor) (h : table.Keyed) (column : ColumnDef) :
    (addColumn flavor table column).1.Keyed := by
  unfold addColumn
  extract_lets attr s
  have hs : s.Keyed := List.foldlRecOn (motive := ColumnState.Keyed) _ _
    ⟨fun key hkey path hpath => .inl (h.key key hkey path hpath), fun c hc path hpath => .inl (h.check c hc path hpath)⟩
    fun _ hs c _ => hs.apply c
  have hfound : ∀ path, s.table.hasAttribute path = true ∨ path = [s.attr.name] →
      Found (s.table.attrs ++ [s.attr]) path := by
    rintro path (hpath | rfl)
    · exact Found.append hpath _
    · exact found_singleton (by simp)
  exact ⟨fun key hkey path hpath => hfound path (hs.key key hkey path hpath),
    fun c hc path hpath => hfound path (hs.check c hc path hpath)⟩

/-- Making columns not null loses no attribute, and without a warning all the columns are there. -/
structure Requires (table : Entity) (paths : List AttributePath) (after : Entity × Trace) : Prop where
  checks : after.1.checks = table.checks
  found : ∀ path, table.hasAttribute path = true → after.1.hasAttribute path = true
  columns : Quiet after.2.remarks → ∀ path ∈ paths, after.1.hasAttribute path = true

theorem requires_columns (position : Position) (paths : List AttributePath) (table : Entity) :
    Requires table paths (paths.foldl (requireColumn position) (table, {})) := by
  induction paths using List.reverseRecOn with
  | nil => exact ⟨rfl, fun _ => id, fun _ => nofun⟩
  | append_singleton paths path ih =>
    rw [List.foldl_append, List.foldl_cons, List.foldl_nil]
    generalize paths.foldl (requireColumn position) (table, {}) = state at ih ⊢
    obtain ⟨hchecks, hfound, hcolumns⟩ := ih
    rw [requireColumn]
    split
    · rename_i hpath
      have hkeeps : KeepsFound fun a => { a with nullable := false } := ⟨fun _ => rfl, fun _ _ => id⟩
      have hmore : ∀ p, state.1.hasAttribute p = true → Found (modifyAttribute (fun a => { a with nullable := false })
          state.1.attrs path) p := fun p hp => hkeeps.modifyAttribute path hp
      refine ⟨hchecks, fun p hp => hmore p (hfound p hp), fun hquiet => List.forall_mem_append.mpr ⟨fun p hp => ?_, ?_⟩⟩
      · exact hmore p (hcolumns hquiet p hp)
      · exact List.forall_mem_singleton.mpr (hmore path hpath)
    · refine ⟨hchecks, hfound, fun hquiet => ?_⟩
      exact absurd rfl (hquiet _ (List.mem_append_right _ List.mem_cons_self)).2

theorem keyed_addConstraint {table : Entity} (h : table.Keyed) (c : TableConstraint)
    (hquiet : Quiet (addConstraint table c).2.remarks) : (addConstraint table c).1.Keyed := by
  obtain ⟨name, rule, position⟩ := c
  cases rule with
  | primaryKey columns =>
    have hrequires := requires_columns position (columnPaths columns) table
    refine ⟨?_, fun c hc path hpath => hrequires.found path (h.check c (hrequires.checks ▸ hc) path hpath)⟩
    rintro _ ⟨⟩
    exact hrequires.columns hquiet
  | check e =>
    refine ⟨h.key, List.forall_mem_append.mpr ⟨h.check, List.forall_mem_singleton.mpr fun path hpath => ?_⟩⟩
    exact (List.mem_filter.mp hpath).2
  | _ => exact ⟨h.key, h.check⟩

theorem keyed_alterStep {table : Entity} (flavor : Flavor) (h : table.Keyed) (action : AlterAction)
    (hquiet : Quiet (alterStep flavor table action).2.remarks) : (alterStep flavor table action).1.Keyed := by
  cases action with
  | addColumn column => exact keyed_addColumn flavor h column
  | addConstraint c => exact keyed_addConstraint h c hquiet
  | other text position => exact h

theorem runSteps_append (step : Entity → α → Entity × Trace) (table : Entity) (steps : List α) (a : α) :
    runSteps step table (steps ++ [a]) = ((step (runSteps step table steps).1 a).1,
      (runSteps step table steps).2 ++ (step (runSteps step table steps).1 a).2) := by
  rw [runSteps, List.foldl_append]
  rfl

theorem keyed_runSteps {step : Entity → α → Entity × Trace}
    (hstep : ∀ table a, Entity.Keyed table → Quiet (step table a).2.remarks → (step table a).1.Keyed)
    {table : Entity} (h : table.Keyed) (steps : List α) (hquiet : Quiet (runSteps step table steps).2.remarks) :
    (runSteps step table steps).1.Keyed := by
  induction steps using List.reverseRecOn with
  | nil => exact h
  | append_singleton steps a ih =>
    rw [runSteps_append] at hquiet ⊢
    obtain ⟨hbefore, hlast⟩ := quiet_append.mp hquiet
    exact hstep _ a (ih hbefore) hlast

theorem keyed_buildTable (flavor : Flavor) (c : CreateTable) (hquiet : Quiet (buildTable flavor c).2.remarks) :
    (buildTable flavor c).1.Keyed := by
  obtain ⟨hcolumns, hconstraints⟩ := quiet_append.mp hquiet
  have hempty : Entity.Keyed { space := c.name.entityName.space, name := c.name.entityName.name } := ⟨nofun, nofun⟩
  have htable := keyed_runSteps (fun table column h _ => keyed_addColumn flavor h column) hempty c.columns hcolumns
  exact keyed_runSteps (fun table constraint h => keyed_addConstraint h constraint) htable c.constraints hconstraints

-- ---------------------------------------------------------------------------
-- Schemas under construction
-- ---------------------------------------------------------------------------

/-- A change gives a table and foreign keys as they are wanted. -/
structure Makes (T : Entity → Prop) (R : Relation → Prop) (change : Entity × Trace) : Prop where
  table : T change.1
  pending : ∀ key ∈ change.2.pending, R key.relation

/-- The tables of a schema under construction have distinct names, and foreign keys start from them. Tables and
foreign keys are as they are wanted. -/
structure ImportState.Rooted (T : Entity → Prop) (R : Relation → Prop) (s : ImportState) : Prop where
  distinct : (s.tables.map Entity.id).Nodup
  table : ∀ table ∈ s.tables, T table
  source : ∀ key ∈ s.trace.pending, key.relation.source.entity ∈ s.tables.map Entity.id
  pending : ∀ key ∈ s.trace.pending, R key.relation

/-- What is known of a schema under construction that nothing has been remarked upon. -/
def ImportState.Anchored (s : ImportState) : Prop := s.Rooted Entity.Keyed fun _ => True

namespace ImportState

theorem rooted_empty : ({} : ImportState).Rooted T R :=
  ⟨.nil, fun _ h => absurd h List.not_mem_nil, fun _ h => absurd h List.not_mem_nil,
    fun _ h => absurd h List.not_mem_nil⟩

theorem Rooted.note {s : ImportState} (h : s.Rooted T R) (r : Remark) (position : Position) :
    (s.note r position).Rooted T R :=
  ⟨h.distinct, h.table, List.forall_mem_append.mpr ⟨h.source, fun _ hkey => absurd hkey List.not_mem_nil⟩,
    List.forall_mem_append.mpr ⟨h.pending, fun _ hkey => absurd hkey List.not_mem_nil⟩⟩

theorem Rooted.change {s : ImportState} (h : s.Rooted T R) {owner : EntityName} {f : Entity → Entity × Trace}
    (hwithin : ∀ table : Entity, table.id = owner → Within owner (f table))
    (hf : ∀ table, s.find? owner = some table → T table → Makes T R (f table)) (position : Position) :
    (s.change owner position f).Rooted T R := by
  rw [ImportState.change]
  cases hfind : s.find? owner with
  | none => exact h.note _ _
  | some table =>
    have hid : table.id = owner := id_of_find? hfind
    have htable : table ∈ s.tables := List.mem_of_find?_eq_some hfind
    obtain ⟨htable', hsource⟩ := hwithin table hid
    obtain ⟨hmade, hpending⟩ := hf table hfind (h.table table htable)
    have hids : (modifyFirst (·.id == owner) (fun _ => (f table).1) s.tables).map Entity.id =
        s.tables.map Entity.id :=
      map_modifyFirst (fun other hother => htable'.trans (beq_iff_eq.mp hother).symm) s.tables
    refine ⟨hids ▸ h.distinct, fun other hother => ?_, ?_, List.forall_mem_append.mpr ⟨h.pending, hpending⟩⟩
    · rcases mem_modifyFirst hother with hother | ⟨-, -, -, rfl⟩
      · exact h.table other hother
      · exact hmade
    · refine hids ▸ List.forall_mem_append.mpr ⟨h.source, fun key hkey => ?_⟩
      rw [hsource key hkey, ← hid]
      exact List.mem_map_of_mem htable

theorem Rooted.createTable {s : ImportState} (h : s.Rooted T R) (flavor : Flavor) {c : CreateTable}
    (hmade : s.find? c.name.entityName = none → Makes T R (buildTable flavor c)) :
    (s.createTable flavor c).Rooted T R := by
  rw [ImportState.createTable]
  cases hfind : s.find? c.name.entityName with
  | some table => exact h.note _ _
  | none =>
    obtain ⟨hid, hsource⟩ := within_buildTable flavor c
    obtain ⟨htable, hpending⟩ := hmade hfind
    have hfresh : ∀ table ∈ s.tables, table.id ≠ c.name.entityName := by
      simpa using List.find?_eq_none.mp hfind
    refine ⟨?_, List.forall_mem_append.mpr ⟨h.table, List.forall_mem_singleton.mpr htable⟩,
      List.forall_mem_append.mpr ⟨fun key hkey => ?_, fun key hkey => ?_⟩,
      List.forall_mem_append.mpr ⟨h.pending, hpending⟩⟩
    · rw [List.map_append, List.nodup_append]
      refine ⟨h.distinct, List.nodup_singleton _, fun a ha b hb => ?_⟩
      obtain ⟨table, htable, rfl⟩ := List.mem_map.mp ha
      obtain rfl := List.mem_singleton.mp hb
      exact hid ▸ hfresh table htable
    · exact List.map_subset _ (List.subset_append_left _ _) (h.source key hkey)
    · rw [hsource key hkey, ← hid]
      exact List.mem_map_of_mem (by simp)

theorem not_quiet_note {s : ImportState} {r : Remark} (h : r.level = .warning) (position : Position) :
    ¬Quiet (s.note r position).trace.remarks :=
  fun hquiet => (hquiet _ (List.mem_append_right _ List.mem_cons_self)).2 h

theorem within_settled {changed : Entity} {trace : Trace} (h : changed.id = owner) (htrace : trace.pending = []) :
    Within owner (changed, trace) :=
  ⟨h, fun _ hkey => absurd (htrace ▸ hkey) List.not_mem_nil⟩

theorem Anchored.change {s : ImportState} (h : s.Anchored) {owner : EntityName} {f : Entity → Entity × Trace}
    (hwithin : ∀ table : Entity, table.id = owner → Within owner (f table))
    (hkeyed : ∀ table : Entity, table.Keyed → Quiet (f table).2.remarks → (f table).1.Keyed) (position : Position)
    (hquiet : Quiet (s.change owner position f).trace.remarks) : (s.change owner position f).Anchored := by
  refine Rooted.change h hwithin (fun table hfind htable => ⟨hkeyed table htable ?_, fun _ _ => trivial⟩) position
  rw [ImportState.change, hfind] at hquiet
  exact (quiet_append.mp hquiet).2

theorem Anchored.createTable {s : ImportState} (h : s.Anchored) (flavor : Flavor) (c : CreateTable)
    (hquiet : Quiet (s.createTable flavor c).trace.remarks) : (s.createTable flavor c).Anchored := by
  refine Rooted.createTable h flavor fun hfind => ⟨keyed_buildTable flavor c ?_, fun _ _ => trivial⟩
  rw [ImportState.createTable, hfind] at hquiet
  exact (quiet_append.mp hquiet).2

theorem Anchored.commentOn {s : ImportState} (h : s.Anchored) (c : CommentOn)
    (hquiet : Quiet (s.commentOn c).trace.remarks) : (s.commentOn c).Anchored := by
  obtain ⟨target, text, position⟩ := c
  cases target with
  | table name =>
    refine h.change (fun table hid => ?_) (fun table hkeyed _ => ?_) _ hquiet
    · exact within_settled hid rfl
    · exact ⟨hkeyed.key, hkeyed.check⟩
  | column name =>
    cases hsplit : name.splitColumn? with
    | none =>
      simp only [ImportState.commentOn, hsplit] at hquiet
      exact absurd hquiet (not_quiet_note rfl _)
    | some found =>
      obtain ⟨owner, column⟩ := found
      simp only [ImportState.commentOn, hsplit] at hquiet ⊢
      refine h.change (fun table hid => ?_) (fun table hkeyed _ => ?_) _ hquiet
      · split
        · exact within_settled hid rfl
        · exact within_settled hid rfl
      · split
        · have hkeeps : KeepsFound fun a => { a with doc := text } := ⟨fun _ => rfl, fun _ _ => id⟩
          exact Keyed.mono hkeyed rfl rfl fun path hpath => hkeeps.modifyAttribute [column] hpath
        · exact hkeyed

/-- Every statement that is carried out without a warning keeps what is known. -/
theorem Anchored.statement {s : ImportState} (h : s.Anchored) (flavor : Flavor) (st : Statement)
    (hquiet : Quiet (s.statement flavor st).trace.remarks) : (s.statement flavor st).Anchored := by
  cases st with
  | createTable c => exact h.createTable flavor c hquiet
  | alterTable a =>
    exact h.change (fun table hid => within_runSteps (fun table a h => within_alterStep flavor h a) hid a.actions)
      (fun table hkeyed => keyed_runSteps (fun table a h => keyed_alterStep flavor h a) hkeyed a.actions) _ hquiet
  | createIndex c =>
    refine h.change (fun table hid => ?_) (fun table hkeyed _ => ?_) _ hquiet
    · exact within_settled hid rfl
    · exact ⟨hkeyed.key, hkeyed.check⟩
  | createType c => exact ⟨h.distinct, h.table, h.source, h.pending⟩
  | commentOn c => exact h.commentOn c hquiet
  | select q => exact h
  | update u => exact h
  | unmodelled u => exact Rooted.note h _ _

theorem remarks_statement (flavor : Flavor) (st : Statement) (s : ImportState) :
    s.trace.remarks ⊆ (s.statement flavor st).trace.remarks := by
  have hchange : ∀ owner position f, s.trace.remarks ⊆ (s.change owner position f).trace.remarks := by
    intro owner position f
    rw [ImportState.change]
    split <;> exact List.subset_append_left _ _
  cases st with
  | createTable c =>
    simp only [ImportState.statement, ImportState.createTable]
    split <;> exact List.subset_append_left _ _
  | alterTable a => exact hchange _ _ _
  | createIndex c => exact hchange _ _ _
  | commentOn c =>
    simp only [ImportState.statement, ImportState.commentOn]
    split
    · exact hchange _ _ _
    · split
      · exact List.subset_append_left _ _
      · exact hchange _ _ _
  | unmodelled u => exact List.subset_append_left _ _
  | _ => exact List.Subset.refl _

theorem Anchored.run (flavor : Flavor) (statements : List Statement)
    (hquiet : Quiet (({} : ImportState).run flavor statements).trace.remarks) :
    (({} : ImportState).run flavor statements).Anchored := by
  induction statements using List.reverseRecOn with
  | nil => exact rooted_empty
  | append_singleton statements st ih =>
    have hrun : ({} : ImportState).run flavor (statements ++ [st]) =
        (({} : ImportState).run flavor statements).statement flavor st := by
      rw [ImportState.run, List.foldl_append]
      rfl
    rw [hrun] at hquiet ⊢
    exact (ih fun d hd => hquiet d (remarks_statement flavor st _ hd)).statement flavor st hquiet

theorem isSome_find? {s : ImportState} {id : EntityName} (h : id ∈ s.tables.map Entity.id) : (s.find? id).isSome = true := by
  obtain ⟨table, htable, rfl⟩ := List.mem_map.mp h
  exact List.find?_isSome.mpr ⟨table, htable, beq_self_eq_true _⟩

theorem source_resolve (s : ImportState) (key : PendingKey) : (s.resolve key).1.source = key.relation.source := by
  rw [ImportState.resolve]
  split <;> rfl

/-- A foreign key to a table that is not there is remarked upon. -/
theorem target_resolve {s : ImportState} {key : PendingKey} (h : Quiet (s.resolve key).2) :
    (s.find? (s.resolve key).1.target.entity).isSome = true := by
  rw [ImportState.resolve] at h ⊢
  dsimp only at h ⊢
  split at h <;> rename_i hfind
  · rw [hfind]
    rfl
  · exact absurd rfl (h _ List.mem_cons_self).2

end ImportState

/-- A script that is read without a warning gives a schema whose indexes and relations alone can be wrong. -/
theorem anchored_importStatements {statements : List Statement} (hvalue : (importStatements statements flavor).value = some db)
    (hquiet : Quiet (importStatements statements flavor).diagnostics) : db.Anchored := by
  obtain ⟨hremarks, hreferences⟩ := quiet_append.mp hquiet
  obtain ⟨hdistinct, hkeyed, hsource, -⟩ := ImportState.Anchored.run flavor statements hremarks
  obtain rfl := Option.some.inj hvalue
  refine ⟨hdistinct, hkeyed, fun r hr => ?_⟩
  obtain ⟨_, hresolved, rfl⟩ := List.mem_map.mp hr
  obtain ⟨key, hkey, rfl⟩ := List.mem_map.mp hresolved
  constructor
  · rw [ImportState.source_resolve]
    exact ImportState.isSome_find? (hsource key hkey)
  · exact ImportState.target_resolve fun d hd => hreferences d (List.mem_flatMap.mpr ⟨_, hresolved, hd⟩)

theorem anchored_readSchema (hvalue : (readSchema script flavor).value = some db)
    (hquiet : Quiet (readSchema script flavor).diagnostics) : db.Anchored := by
  unfold readSchema Parsed.andThen at hvalue hquiet
  split at hvalue
  · rename_i statements hstatements
    rw [hstatements] at hquiet
    exact anchored_importStatements hvalue (quiet_append.mp hquiet).2
  · cases hvalue

end Sql

end SchemaDialects
