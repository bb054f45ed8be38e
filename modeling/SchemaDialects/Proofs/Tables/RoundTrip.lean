import SchemaDialects.Proofs.Diff.Patch
import SchemaDialects.Proofs.Tables.Holdable

/-!
# Table documents are read back

A document puts tables and enumerations under their schemas, so they are read back in another order,
and references are turned by what is read of keys. `database_ofDatabase`: a schema that a document can
hold is written, and read back it does not differ from what was written, with the same relations
in the same order and the same groups.
-/

namespace SchemaDialects.Tables

open Json

-- ---------------------------------------------------------------------------
-- Regrouping by schema
-- ---------------------------------------------------------------------------

section
variable {added : List α} {schemas : List Schema}

/-- What stands in schemas, each item with the name of its schema. -/
def contents (items : Schema → List α) (schemas : List Schema) : List (String × α) :=
  schemas.flatMap fun s => (items s).map (s.name, ·)

/-- What a change adds to one of the schemas is added to what stands in them all. -/
theorem contents_inSchema (items : Schema → List α) (f : Schema → Schema)
    (hname : ∀ s, (f s).name = s.name) (hitems : ∀ s, items (f s) = items s ++ added)
    (hempty : items { name } = []) :
    (contents items (inSchema name f schemas)).Perm (contents items schemas ++ added.map (name, ·)) := by
  have hcons : ∀ s schemas, contents items (s :: schemas) =
      (items s).map (s.name, ·) ++ contents items schemas := fun _ _ => rfl
  unfold inSchema
  split
  · next hany =>
    induction schemas with
    | nil => simp at hany
    | cons s schemas ih =>
      rw [modifyFirst]
      split
      · next hs =>
        obtain rfl : s.name = name := beq_iff_eq.mp hs
        rw [hcons, hcons, hname, hitems, List.map_append, List.append_assoc, List.append_assoc]
        exact List.Perm.append_left _ List.perm_append_comm
      · next hs =>
        rw [hcons, hcons, List.append_assoc]
        exact List.Perm.append_left _ (ih (by simpa [hs] using hany))
  · have hlast : contents items [f { name }] = added.map (name, ·) := by
      rw [hcons, hname, hitems, hempty]
      exact List.append_nil _
    rw [← hlast]
    exact List.Perm.of_eq List.flatMap_append

/-- What is added one after the other is there in the end. -/
theorem contents_foldl {items : Schema → List α} {add : List Schema → β → List Schema}
    {given : β → List (String × α)}
    (h : ∀ schemas x, (contents items (add schemas x)).Perm (contents items schemas ++ given x))
    (schemas : List Schema) (xs : List β) :
    (contents items (xs.foldl add schemas)).Perm (contents items schemas ++ xs.flatMap given) := by
  induction xs generalizing schemas with
  | nil => simp
  | cons x xs ih =>
    rw [List.flatMap_cons, ← List.append_assoc]
    exact (ih _).trans ((h schemas x).append_right _)

end

theorem tables_addTable (schemas : List Schema) (e : Entity) :
      (contents Schema.tables (addTable schemas e)).Perm
    (contents Schema.tables schemas ++ [(schemaOf e.space, .ofEntity e)]) :=
  contents_inSchema Schema.tables (fun s => { s with tables := s.tables ++ [.ofEntity e] }) (fun _ => rfl)
    (fun _ => rfl) rfl

theorem enums_addTable (schemas : List Schema) (e : Entity) :
    (contents Schema.enums (addTable schemas e)).Perm (contents Schema.enums schemas ++ []) :=
  contents_inSchema Schema.enums (fun s => { s with tables := s.tables ++ [.ofEntity e] }) (fun _ => rfl)
    (fun _ => (List.append_nil _).symm) rfl

theorem tables_addEnum (schemas : List Schema) (item : Namespace × Enum) :
    (contents Schema.tables (addEnum schemas item)).Perm (contents Schema.tables schemas ++ []) :=
  contents_inSchema Schema.tables (fun s => { s with enums := s.enums ++ [item.2] }) (fun _ => rfl)
    (fun _ => (List.append_nil _).symm) rfl

theorem enums_addEnum (schemas : List Schema) (item : Namespace × Enum) :
    (contents Schema.enums (addEnum schemas item)).Perm
      (contents Schema.enums schemas ++ [(schemaOf item.1, item.2)]) :=
  contents_inSchema Schema.enums (fun s => { s with enums := s.enums ++ [item.2] }) (fun _ => rfl)
    (fun _ => rfl) rfl

/-- The tables of a document are those of the entities, by schema. -/
theorem tables_schemas (enums : List (Namespace × Enum)) (entities : List Entity) :
    (contents Schema.tables (entities.foldl addTable (enums.foldl addEnum []))).Perm
      (entities.map fun e => (schemaOf e.space, .ofEntity e)) := by
  have henums := contents_foldl tables_addEnum [] enums
  have hnone : (contents Schema.tables [] ++ enums.flatMap fun _ => []) = [] := by simp [contents]
  rw [List.map_eq_flatMap]
  exact (contents_foldl tables_addTable _ entities).trans ((hnone ▸ henums).append_right _)

/-- The enumerations of a document are those of the types, by schema. -/
theorem enums_schemas (enums : List (Namespace × Enum)) (entities : List Entity) :
    (contents Schema.enums (entities.foldl addTable (enums.foldl addEnum []))).Perm
      (enums.map fun item => (schemaOf item.1, item.2)) := by
  have htables := contents_foldl enums_addTable (enums.foldl addEnum []) entities
  have hnone : (entities.flatMap fun _ => []) = ([] : List (String × Enum)) := by simp
  rw [hnone, List.append_nil] at htables
  rw [List.map_eq_flatMap]
  exact htables.trans (contents_foldl enums_addEnum [] enums)

-- ---------------------------------------------------------------------------
-- Whole documents
-- ---------------------------------------------------------------------------

/-- What is read from the schemas of a document is read from all that stands in them. -/
theorem map_contents (read : Namespace → α → β) (items : Schema → List α) (schemas : List Schema) :
    (schemas.flatMap fun s => (items s).map (read (spaceOf (some s.name)))) =
      (contents items schemas).map fun item => read (spaceOf (some item.1)) item.2 := by
  rw [contents, List.map_flatMap]
  simp only [List.map_map]
  rfl

/-- The types of a schema are written as enumerations. -/
theorem enums_of_types {types : List NamedType} (h : ∀ t ∈ types, HoldableType t) :
    ∃ enums : List (Namespace × Enum), types.mapM (fun t => (t.space, ·) <$> Enum.ofType t) = .ok enums ∧
      enums.map (fun item => Enum.type (spaceOf (some (schemaOf item.1))) item.2) = types := by
  induction types with
  | nil => exact ⟨[], rfl, rfl⟩
  | cons t types ih =>
    obtain ⟨ht, htypes⟩ := List.forall_mem_cons.mp h
    obtain ⟨enum, hwritten, hread⟩ := type_ofType ht
    obtain ⟨enums, hothers, hback⟩ := ih htypes
    refine ⟨(t.space, enum) :: enums, ?_, ?_⟩
    · simp only [List.mapM_cons, hwritten, hothers]
      rfl
    · simp only [List.map_cons, spaceOf_schemaOf ht.space, hread, hback]

/-- The groups of a schema are written, and put back where they were. -/
theorem extra_of_groups {db : Database} (h : HoldableExtra db.extra) : ∃ groups, db.groups = .ok groups ∧
    (if ((groups.getD []).map TableGroup.ofGroup).isEmpty then [] else
      [(Group.key, Group.metadata (((groups.getD []).map TableGroup.ofGroup).map TableGroup.group))]) =
      db.extra := by
  rcases h with hextra | ⟨groups, hne, hspaces, hextra⟩
  · have hnone : db.groups = .ok none := by
      rw [Database.groups, hextra]
      rfl
    exact ⟨none, hnone, hextra.symm⟩
  · have hback : (groups.map TableGroup.ofGroup).map TableGroup.group = groups := by
      rw [List.map_map]
      exact (List.map_congr_left fun g hg => group_ofGroup (hspaces g hg)).trans (List.map_id groups)
    refine ⟨some groups, groups_of_metadata hextra hspaces, ?_⟩
    rw [Option.getD_some, hback, if_neg (by simpa using hne), hextra]

theorem entity?_eq (db : Database) (name : EntityName) :
    db.entity? name = firstAt? Entity.id db.entities name := by
  simp only [Database.entity?, firstAt?, Bool.beq_eq_decide_eq]

/-- References are turned alike by schemas in which the same keys are found. -/
theorem relation_congr_keys {db db' : Database}
    (h : ∀ name, (db'.entity? name).bind (·.primaryKey) = (db.entity? name).bind (·.primaryKey)) (r : Reference) :
    r.relation db' = r.relation db := by
  have hkey : isKeyOf db' = isKeyOf db := funext fun l => by rw [isKeyOf, h, isKeyOf]
  have hpoints : pointsAtFirst db' = pointsAtFirst db := by
    funext first second
    rw [pointsAtFirst, hkey, pointsAtFirst]
  rw [Reference.relation, hpoints, Reference.relation]

/-- References are turned alike by schemas in which the same entities are found. -/
theorem relation_congr {db db' : Database} (h : ∀ name, db'.entity? name = db.entity? name) (r : Reference) :
    r.relation db' = r.relation db := relation_congr_keys (fun name => by rw [h]) r

/-- A schema that a document can hold is written, and what is read back has the same entities and types
by their names, the same relations in the same order, and the same groups. -/
theorem database_ofDatabase (h : Holdable db) :
    ∃ document, Document.ofDatabase db = .ok document ∧ (db.diff document.database).isEmpty = true ∧
      document.database.relations = db.relations ∧ document.database.extra = db.extra := by
  obtain ⟨enums, hwritten, htypes⟩ := enums_of_types h.types
  obtain ⟨groups, hgroups, hextra⟩ := extra_of_groups h.extra
  let document : Document := {
    schemas := db.entities.foldl addTable (enums.foldl addEnum [])
    references := db.relations.map Reference.ofRelation
    groups := (groups.getD []).map TableGroup.ofGroup }
  have hdocument : Document.ofDatabase db = .ok document := by
    rw [Document.ofDatabase, hwritten, hgroups]
    rfl
  have hentities : document.database.entities.Perm db.entities := by
    have hread : db.entities.map (fun e =>
        Table.entity (spaceOf (some (schemaOf e.space))) (.ofEntity e)) = db.entities := by
      refine (List.map_congr_left fun e he => ?_).trans (List.map_id db.entities)
      rw [spaceOf_schemaOf (h.entities e he).space, entity_ofEntity (h.entities e he), id]
    have hperm := (tables_schemas enums db.entities).map fun item =>
      Table.entity (spaceOf (some item.1)) item.2
    rw [← map_contents, List.map_map] at hperm
    exact hperm.trans (List.Perm.of_eq hread)
  have htypes : document.database.types.Perm db.types := by
    have hperm := (enums_schemas enums db.entities).map fun item =>
      Enum.type (spaceOf (some item.1)) item.2
    rw [← map_contents, List.map_map] at hperm
    exact hperm.trans (List.Perm.of_eq htypes)
  have hfound : ∀ name, firstAt? Entity.id db.entities name =
      firstAt? Entity.id document.database.entities name := firstAt?_perm hentities.symm h.entityNames
  have hrelations : document.database.relations = db.relations := by
    show (db.relations.map Reference.ofRelation).map
      (Reference.relation { document.database with relations := [] }) = _
    rw [List.map_map]
    refine (List.map_congr_left fun r hr => ?_).trans (List.map_id db.relations)
    have hsame : ∀ name, ({ document.database with relations := [] } : Database).entity? name =
        db.entity? name := fun name => by
      rw [entity?_eq, entity?_eq, hfound]
    rw [Function.comp_apply, relation_congr hsame, relation_ofRelation (h.relations r hr), id]
  refine ⟨document, hdocument, isEmpty_diff ?_ ?_ ?_, hrelations, hextra⟩
  · exact SameFirsts.of_eq hfound
  · rw [hrelations]
    exact SameFirsts.of_eq fun _ => rfl
  · exact SameFirsts.of_eq (firstAt?_perm htypes.symm h.typeNames)

def sampleOrders : Entity where
  space := { schema := some "shop" }
  name := "orders"
  attrs := [
    { name := "user_id", type := "int4" },
    { name := "number", type := "int4", defaultValue := some "-1" },
    { name := "state", type := "shop.state", nullable := true, defaultValue := some "'it''s new'" },
    { name := "placed", type := "timestamp", nullable := true, defaultValue := some "now()" }]
  primaryKey := some { name := some "orders_pkey", attrs := [["user_id"], ["number"]] }
  indexes := [
    { attrs := [["placed"]], unique := true },
    { name := some "orders_by_state", attrs := [["state"]], definition := some "lower(state)" }]

def sampleUsers : Entity where
  name := "users"
  attrs := [
    { name := "id", type := "int4", extra := [(autoIncrementKey, .bool true)] },
    { name := "email", type := "text", nullable := true, doc := some "Where to write to" }]
  primaryKey := some { attrs := [["id"]] }
  indexes := [{ attrs := [["email"]], unique := true }]

/-- Users with their orders, which stand in a schema of their own. -/
def sample : Database where
  entities := [sampleOrders, sampleUsers]
  types := [{ space := { schema := some "shop" }, name := "state", values := some ["new", "sent"] }]
  relations := [.manyToOne sampleOrders.id [["user_id"]] sampleUsers.id [["id"]]]
  extra := [(Group.key, Group.metadata [{ name := "people", entities := [sampleUsers.id] }])]

theorem holdable_emptySpace : HoldableSpace {} := ⟨rfl, rfl, by simp⟩

theorem holdable_shop : HoldableSpace { schema := some "shop" } :=
  ⟨rfl, rfl, by simp [defaultSchema]⟩

theorem holdable_sampleOrders : HoldableEntity sampleOrders where
  space := holdable_shop
  attrs := by
    have hnumber : HoldableDefault "-1" := by
      have htext : toString (-1 : Int) = "-1" := by decide
      exact htext ▸ .integer (by decide) (by decide)
    have hstate : HoldableDefault "'it''s new'" := .quoted "it's new".toList
    have hplaced : HoldableDefault "now()" := .other (by decide) (by decide)
    simp only [sampleOrders, List.forall_mem_cons]
    refine ⟨⟨rfl, rfl, ?_, .inl rfl⟩, ⟨rfl, rfl, ?_, .inl rfl⟩, ⟨rfl, rfl, ?_, .inl rfl⟩,
      ⟨rfl, rfl, ?_, .inl rfl⟩, ?_⟩
    all_goals simp_all
  names := by decide
  keyPaths := by simp [sampleOrders, FlatPaths]
  fieldKey := by simp [sampleOrders, fieldKey?]
  keyAttrs := by simp [sampleOrders]
  indexPaths := by simp [sampleOrders, FlatPaths]
  conditions := by simp [sampleOrders]
  fieldIndexes := ⟨["placed"], [_], by decide, rfl, by decide⟩
  checks := rfl
  stats := rfl
  extra := rfl

theorem holdable_sampleUsers : HoldableEntity sampleUsers where
  space := holdable_emptySpace
  attrs := by
    simp only [sampleUsers, List.forall_mem_cons]
    exact ⟨⟨rfl, rfl, by simp, .inr rfl⟩, ⟨rfl, rfl, by simp, .inl rfl⟩, by simp⟩
  names := by decide
  keyPaths := by simp [sampleUsers, FlatPaths]
  fieldKey := by simp [sampleUsers, fieldKey?]
  keyAttrs := by simp [sampleUsers]
  indexPaths := by simp [sampleUsers, FlatPaths]
  conditions := by simp [sampleUsers]
  fieldIndexes := ⟨["email"], [], by decide, rfl, by decide⟩
  checks := rfl
  stats := rfl
  extra := rfl

theorem holdable_sample : Holdable sample where
  entities := List.forall_mem_cons.mpr
    ⟨holdable_sampleOrders, List.forall_mem_singleton.mpr holdable_sampleUsers⟩
  entityNames := by decide
  types := List.forall_mem_singleton.mpr ⟨holdable_shop, rfl, rfl, rfl⟩
  typeNames := by decide
  relations := by
    have hpaths : ∀ name : String, FlatPaths [[name]] := by simp [FlatPaths]
    exact List.forall_mem_singleton.mpr
      ⟨⟨holdable_shop, hpaths _, rfl⟩, ⟨holdable_emptySpace, hpaths _, rfl⟩,
        by simp [Relation.manyToOne], rfl, rfl⟩
  extra := by
    refine .inr ⟨_, List.cons_ne_nil _ _, ?_, rfl⟩
    simp only [List.forall_mem_singleton]
    exact holdable_emptySpace

theorem database_ofDatabase_sample : Holdable sample ∧
    ∃ document, Document.ofDatabase sample = .ok document ∧ (sample.diff document.database).isEmpty = true ∧
      document.database.relations = sample.relations ∧ document.database.extra = sample.extra :=
  ⟨holdable_sample, database_ofDatabase holdable_sample⟩

end SchemaDialects.Tables
