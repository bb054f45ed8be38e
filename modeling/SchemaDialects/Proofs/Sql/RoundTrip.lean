import SchemaDialects.Proofs.Sql.Sections

/-!
# Schemas written for PostgreSQL and read back

A schema in normal form is written without fault, and reading the script gives the same schema
(`Normal.exists_script`). Spellable schemas are in normal form (`readSchema_writeSchema_postgres`).
-/

namespace SchemaDialects.Sql

theorem CarriesAll.optional (h : Carries text before after) :
    CarriesAll (if text.isEmpty then [] else [text]) before after := by
  obtain ⟨cs, rfl, hcs, hleads⟩ := h
  refine ⟨if cs.isEmpty then [] else [cs], section_optional cs, ?_, ?_⟩
  · cases cs with
    | nil => nofun
    | cons c cs => exact List.forall_mem_singleton.mpr hcs
  · cases cs with
    | nil => exact hleads
    | cons c cs => simpa using hleads

/-- A foreign key that names its columns keeps them. -/
theorem resolve_named (h : key.relation.target.attrs ≠ []) (s : ImportState) :
    (s.resolve key).1 = key.relation := by
  have hattrs : ∀ implied : List AttributePath,
      (if key.relation.target.attrs.isEmpty then implied else key.relation.target.attrs) =
        key.relation.target.attrs := fun implied => if_neg (by simpa using h)
  rw [ImportState.resolve]
  split
  · dsimp only
    rw [hattrs]
  · dsimp only
    rw [hattrs]

/-- A script of commands that lead from nothing to a schema is read as this schema. -/
theorem readSchema_of_carries (h : CarriesAll sections {} db)
    (hkeys : ∀ r ∈ db.relations, r.target.attrs ≠ []) :
    (readSchema ("\n".intercalate sections) .postgres).value =
      some { entities := db.entities, relations := db.relations, types := db.types } := by
  obtain ⟨commands, rfl, hfits, hleads⟩ := h
  obtain ⟨found, hread, hmeant⟩ := readStatements_commands (List.forall_mem_flatten.mpr hfits)
    (lexes_script fun s hs c hc => (hfits s hs c hc).even)
  obtain ⟨htables, htypes, hrelations⟩ := hleads found hmeant {} ⟨rfl, rfl, rfl⟩
  have hresolved : ∀ s : ImportState, s.trace.pending.map (·.relation) = db.relations →
      (s.trace.pending.map s.resolve).map (·.1) = db.relations := by
    intro s hs
    rw [← hs, List.map_map]
    refine List.map_congr_left fun key hkey => resolve_named (hkeys _ ?_) s
    rw [← hs]
    exact List.mem_map_of_mem hkey
  have hflavor (script : String) : Flavor.postgres.resolve script = .postgres := if_neg (by decide)
  rw [readSchema, hread, hflavor]
  show some { entities := _, relations := _, types := _ : Database } = _
  rw [htables, htypes, hresolved _ hrelations]

theorem Normal.exists_script (h : Normal db) :
    ∃ script, writeSchema db .postgres = .ok script ∧ (readSchema script .postgres).value = some db := by
  have htypes := CarriesAll.optional (types_carries h.type)
  have htables := CarriesAll.map db.entities (Flavor.postgres.tableText db.types)
    (fun front => { types := db.types, entities := front }) fun front e back hback => by
      have he := h.entity e (by rw [hback]; simp)
      have hnew : e.id ∉ front.map Entity.id := by
        have hids := h.entities
        rw [hback, List.map_append, List.map_cons, List.nodup_append] at hids
        exact fun hmem => hids.2.2 _ hmem _ List.mem_cons_self rfl
      exact table_carries he hnew db.types
  have hrelations := CarriesAll.optional (Carries.join db.relations Flavor.postgres.relationText
    (fun front => { types := db.types, entities := db.entities, relations := front })
    fun front r back hback => by
      have hr := h.relation r (by rw [hback]; simp)
      obtain ⟨e, he, hid⟩ := List.mem_map.mp hr.source
      have hspace : SpellableSpace r.source.entity.space := hid ▸ (h.entity e he).space
      exact relation_carries hr hr.source hspace)
  have hread := readSchema_of_carries ((htypes.append htables).append hrelations)
    fun r hr => (h.relation r hr).targetColumns.nonempty
  have hdb : { entities := db.entities, relations := db.relations, types := db.types } = db := by
    obtain ⟨entities, relations, types, extra, stats⟩ := db
    obtain rfl : extra = [] := h.extra
    obtain rfl : stats = none := h.stats
    rfl
  refine ⟨_, ?_, hread.trans (congrArg some hdb)⟩
  rw [writeSchema, if_neg (by decide), typeTexts_eq fun t ht _ definition hdefinition =>
    ((h.type t ht).definition definition hdefinition).text]
  rfl

/-- A written schema is read as the same schema. -/
theorem readSchema_writeSchema_postgres (h : Spellable db) :
    ∃ script, writeSchema db .postgres = .ok script ∧ (readSchema script .postgres).value = some db :=
  h.normal.exists_script

-- ---------------------------------------------------------------------------
-- A schema with something of everything
-- ---------------------------------------------------------------------------

/-- An index on the customers with a mail address that has a condition. -/
def byMail : Index where
  attrs := [["mail"]]
  condition := some "id > 0"

/-- An index over an expression. -/
def byLoweredMail : Index where
  name := some "lowered"
  attrs := [["mail"], ["id"]]
  unique := true
  definition := some "lower(mail), id"

/-- Customers with a key at its column, and indexes of every kind. -/
def customers : Entity where
  space := { schema := some "shop" }
  name := "Customers"
  attrs := [
    { name := "id", type := "int", extra := [("autoIncrement", .bool true)] },
    { name := "order", type := "varchar(20)", doc := some "the customer's first" },
    { name := "mail", type := "text", nullable := true }]
  primaryKey := some { attrs := [["id"]] }
  indexes := [
    { attrs := [["order"]], unique := true },
    { name := some "by mail", attrs := [["id"], ["mail"]], unique := true },
    byMail, byLoweredMail]
  checks := [{ name := some "positive", attrs := [["id"]], predicate := "id > 0" }]
  doc := some "who buys"

def orders : Entity where
  space := { catalog := some "main", schema := some "shop" }
  name := "orders"
  attrs := [{ name := "number", type := "int" }, { name := "buyer", type := "int" }]
  primaryKey := some { name := some "numbered", attrs := [["number"], ["buyer"]] }

def sample : Database where
  entities := [customers, orders]
  types := [{ name := "mood", values := some ["fine", "it's so, so"] }, { name := "later" }]
  relations := [{ Relation.manyToOne orders.id [["buyer"]] customers.id [["id"]] with
    name := some "bought by"
    onDelete := some "set null" }]

theorem isTypeName_sample :
    IsTypeName "int" none ∧ IsTypeName "varchar" (some ["20"]) ∧ IsTypeName "text" none := by
  decide +kernel

theorem typeText_int : TypeText "int" := ⟨"int", none, by decide, isTypeName_sample.1⟩

theorem typeText_varchar : TypeText "varchar(20)" :=
  ⟨"varchar", some ["20"], by decide, isTypeName_sample.2.1⟩

theorem typeText_text : TypeText "text" := ⟨"text", none, by decide, isTypeName_sample.2.2⟩

theorem spellableIndex_byMail : SpellableIndex byMail where
  constraint := nofun
  statement _ := {
    name := by decide
    condition := by
      rintro _ ⟨⟩
      decide +kernel
    columns := by
      refine fun _ => ⟨⟨by decide, by simp [byMail]⟩, ?_⟩
      intro name hname
      obtain rfl : name = "mail" := by simpa [byMail] using hname
      exact ⟨by decide, by decide, by decide, by decide⟩
    definition := nofun }
  doc := rfl

theorem spellableIndex_byLoweredMail : SpellableIndex byLoweredMail where
  constraint := nofun
  statement _ := {
    name := by decide
    condition := nofun
    columns := nofun
    definition := by
      rintro _ ⟨⟩
      refine ⟨["lower(mail)", "id"], by decide, ?_, ⟨"lower(mail)", by simp, ?_⟩, ?_⟩
      · decide +kernel
      · decide +kernel
      · decide +kernel }
  doc := rfl

theorem spellableEntity_customers : SpellableEntity customers where
  space := ⟨by simp [customers], by simp [customers]⟩
  attrs := by
    refine List.forall_mem_cons.mpr ⟨?_, List.forall_mem_cons.mpr ⟨?_, List.forall_mem_singleton.mpr ?_⟩⟩
    · exact ⟨typeText_int, by decide, by decide, rfl, rfl, rfl, nofun, .inr rfl⟩
    · refine ⟨typeText_varchar, by decide, by decide, rfl, rfl, rfl, ?_, .inl rfl⟩
      rintro _ ⟨⟩
      decide
    · exact ⟨typeText_text, by decide, by decide, rfl, rfl, rfl, nofun, .inl rfl⟩
  distinct := by decide
  key := by
    rintro _ ⟨⟩
    exact ⟨⟨by simp, by simp⟩, by simp [customers]⟩
  index := by
    refine List.forall_mem_cons.mpr ⟨⟨nofun, nofun, rfl⟩, List.forall_mem_cons.mpr ⟨⟨?_, nofun, rfl⟩,
      List.forall_mem_cons.mpr ⟨spellableIndex_byMail,
        List.forall_mem_singleton.mpr spellableIndex_byLoweredMail⟩⟩⟩
    exact fun _ => ⟨by simp, by simp⟩
  indexes := by decide
  check := List.forall_mem_singleton.mpr ⟨by decide +kernel, by decide +kernel, rfl⟩
  doc := by
    rintro _ ⟨⟩
    decide
  stats := rfl
  extra := rfl

theorem spellableEntity_orders : SpellableEntity orders where
  space := ⟨by simp [orders], by simp [orders]⟩
  attrs := by
    refine List.forall_mem_cons.mpr ⟨?_, List.forall_mem_singleton.mpr ?_⟩
    · exact ⟨typeText_int, by decide, by decide, rfl, rfl, rfl, nofun, .inl rfl⟩
    · exact ⟨typeText_int, by decide, by decide, rfl, rfl, rfl, nofun, .inl rfl⟩
  distinct := by decide
  key := by
    rintro _ ⟨⟩
    exact ⟨⟨by simp, by simp⟩, by simp [orders]⟩
  index := nofun
  indexes := by decide
  check := nofun
  doc := nofun
  stats := rfl
  extra := rfl

theorem spellable_sample : Spellable sample where
  entity := List.forall_mem_cons.mpr
    ⟨spellableEntity_customers, List.forall_mem_singleton.mpr spellableEntity_orders⟩
  entities := by decide
  type := by
    refine List.forall_mem_cons.mpr ⟨⟨⟨by simp, by simp⟩, ?_, rfl, rfl, rfl⟩,
      List.forall_mem_singleton.mpr ⟨⟨by simp, by simp⟩, nofun, rfl, rfl, rfl⟩⟩
    rintro _ ⟨⟩
    decide
  relation := by
    refine List.forall_mem_singleton.mpr ⟨by decide, ⟨by decide, by decide⟩,
      ⟨by decide, by simp [Relation.manyToOne]⟩,
      ⟨by decide, by simp [Relation.manyToOne]⟩, ⟨rfl, rfl⟩, ?_, nofun, rfl, rfl⟩
    rintro _ ⟨⟩
    exact ⟨.setNull, rfl⟩
  extra := rfl
  stats := rfl

theorem readSchema_writeSchema_postgres_sample : Spellable sample ∧
    ∃ script, writeSchema sample .postgres = .ok script ∧
      (readSchema script .postgres).value = some sample :=
  ⟨spellable_sample, readSchema_writeSchema_postgres spellable_sample⟩

end SchemaDialects.Sql
