import SchemaDialects.Proofs.Tables.Settling
import SchemaDialects.Proofs.Tally

/-!
# Keys and indexes that a table document keeps

A field can say that it is the primary key, or that it is unique; what no field says is an index of the table.
Either way an entity comes back with a key if it had one, and with as many indexes as it had
(`exists_document_tallies`), though the paths of nested attributes come back as single names. Only a primary
key that is left to the field of a nested attribute is lost, for there is no such field.
-/

namespace SchemaDialects.Tables

-- ---------------------------------------------------------------------------
-- Indexes that fields stand for
-- ---------------------------------------------------------------------------

theorem isAnyFieldUnique_iff : isAnyFieldUnique i = true ↔ ∃ name, i = fieldIndex name := by
  constructor
  · intro h
    rw [isAnyFieldUnique] at h
    split at h
    · next path _ =>
      obtain ⟨name, attrs, unique, condition, definition, doc⟩ := i
      simp only [isFieldUnique, Bool.and_eq_true, Option.isNone_iff_eq_none, beq_iff_eq] at h
      obtain ⟨⟨⟨⟨⟨rfl, rfl⟩, rfl⟩, rfl⟩, rfl⟩, rfl⟩ := h
      exact ⟨path.headD "", rfl⟩
    · contradiction
  · rintro ⟨name, rfl⟩
    exact isAnyFieldUnique_fieldIndex name

theorem isFieldUnique_eq (name : String) (i : Index) :
    isFieldUnique name i = (isAnyFieldUnique i && i.attrs == [[name]]) := by
  cases hany : isAnyFieldUnique i with
  | false => rw [isFieldUnique_eq_false hany, Bool.false_and]
  | true =>
    obtain ⟨column, rfl⟩ := isAnyFieldUnique_iff.mp hany
    rw [isFieldUnique_fieldIndex, Bool.true_and]
    simp [fieldIndex, Bool.beq_eq_decide_eq, eq_comm]

section
variable {e : Entity} {space : Namespace}

/-- The indexes that fields stand for, counted at the fields. -/
theorem fieldUnique_count (h : SoundKeys e) :
    ((Table.ofEntity e).fields.filter (·.unique)).length = (e.indexes.filter isAnyFieldUnique).length := by
  have hunique : ((e.attrs.map (Field.ofAttribute e)).filter (·.unique)).length =
      (e.attrs.filter fun a => (e.indexes.filter isAnyFieldUnique).any (·.attrs == [[a.name]])).length := by
    rw [List.filter_map, List.length_map]
    refine congrArg List.length (List.filter_congr fun a _ => ?_)
    rw [List.any_filter]
    exact congrArg (e.indexes.any ·) (funext fun i => isFieldUnique_eq a.name i)
  have hdistinct : ((e.indexes.filter isAnyFieldUnique).map (·.attrs)).Nodup := by
    refine (h.indexes.filter _).map_on fun i hi j hj hattrs => ?_
    obtain ⟨column, rfl⟩ := isAnyFieldUnique_iff.mp (List.mem_filter.mp hi).2
    obtain ⟨other, rfl⟩ := isAnyFieldUnique_iff.mp (List.mem_filter.mp hj).2
    have hsame : column = other := by simpa [fieldIndex] using hattrs
    rw [hsame]
  refine hunique.trans (length_of_columns h.names hdistinct fun i hi => ?_)
  obtain ⟨hmem, hany⟩ := List.mem_filter.mp hi
  obtain ⟨column, rfl⟩ := isAnyFieldUnique_iff.mp hany
  obtain ⟨a, ha, rfl⟩ := hasAttribute_iff.mp ((h.index _ hmem).2 [column] List.mem_cons_self)
  exact ⟨a, ha, rfl⟩

-- ---------------------------------------------------------------------------
-- Tables
-- ---------------------------------------------------------------------------

theorem indexes_length (h : SoundKeys e) : (Table.entity space (.ofEntity e)).indexes.length = e.indexes.length := by
  rw [indexes_entity_ofEntity, List.length_append, List.length_map, List.length_map, List.length_map,
    fieldUnique_count h]
  exact (List.length_eq_length_filter_add isAnyFieldUnique).symm

/-- A primary key comes back from a field, which must then be there, or from an index. -/
theorem primaryKey_isSome (h : SoundKeys e) (hplace : KeyInPlace e) :
    (Table.ofEntity e).primaryKey.isSome = e.primaryKey.isSome := by
  have hfield : ∀ path ∈ fieldKey? e, ∃ a ∈ e.attrs, path = [a.name] := by
    intro path hpath
    have hkey := fieldKey?_eq_some.mp hpath
    obtain ⟨name, rfl⟩ := hplace path hkey
    obtain ⟨a, ha, rfl⟩ := hasAttribute_iff.mp ((h.key _ hkey).2 [name] List.mem_cons_self)
    exact ⟨a, ha, rfl⟩
  rw [renderedKey_ofEntity h.names hfield, Option.isSome_map]

theorem tally_ofEntity (h : SoundKeys e) (hplace : KeyInPlace e) :
    (Table.entity space (.ofEntity e)).tally = { e.tally with id := ⟨space, e.name⟩ } := by
  have hkey : (Table.entity space (.ofEntity e)).primaryKey.isSome = e.primaryKey.isSome := primaryKey_isSome h hplace
  rw [Entity.tally, hkey, indexes_length h]
  rfl

end

-- ---------------------------------------------------------------------------
-- Documents
-- ---------------------------------------------------------------------------

/-- The name that an entity has in a document, where there are schemas only. -/
def nameInDocument (name : EntityName) : EntityName :=
  { name with space := spaceOf (some (schemaOf name.space)) }

/-- The tables of a document are those of the entities. -/
theorem tables_enterAll (db : Database) :
    (contents Schema.tables (enterAll (enumsUnder db) (tablesUnder db))).Perm (tablesUnder db) := by
  rw [enterAll_under]
  exact tables_schemas _ db.entities

/-- Every entity of a document has a key if it had one, and as many indexes as it had. -/
theorem exists_document_tallies (h : ∀ e ∈ db.entities, SoundKeys e ∧ KeyInPlace e)
    (hvalues : ∀ t ∈ db.types, t.values.isSome = true) (hgroups : db.groups = .ok groups) :
    ∃ document, Document.ofDatabase db = .ok document ∧
      (document.database.entities.map Entity.tally).Perm
        (db.entities.map fun e => { e.tally with id := nameInDocument e.id }) := by
  refine ⟨_, ofDatabase_eq hvalues hgroups, ?_⟩
  have hperm := (tables_enterAll db).map fun item => (Table.entity (spaceOf (some item.1)) item.2).tally
  have htallies : (tablesUnder db).map (fun item => (Table.entity (spaceOf (some item.1)) item.2).tally) =
      db.entities.map fun e => { e.tally with id := nameInDocument e.id } := by
    rw [tablesUnder, List.map_map]
    exact List.map_congr_left fun e he => tally_ofEntity (h e he).1 (h e he).2
  have hread := map_contents Table.entity Schema.tables (enterAll (enumsUnder db) (tablesUnder db))
  rw [htallies] at hperm
  refine List.Perm.trans (List.Perm.of_eq ?_) hperm
  exact (congrArg (List.map Entity.tally) hread).trans List.map_map

end SchemaDialects.Tables
